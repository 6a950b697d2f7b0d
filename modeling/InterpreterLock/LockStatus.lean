import InterpreterLock.Json

/-!
# Lock outcomes
-/

set_option autoImplicit false

namespace InterpreterLock

inductive LockStatus
  | failure
  | acquired
  | interrupted
deriving DecidableEq, Repr, Inhabited

namespace LockStatus

def code : LockStatus → Nat
  | .failure => 0
  | .acquired => 1
  | .interrupted => 2

def isAcquired (s : LockStatus) : Bool := s == .acquired

def name : LockStatus → String
  | .failure => "Failure"
  | .acquired => "Acquired"
  | .interrupted => "Interrupted"

def toJson (s : LockStatus) : Json := .text s.name

def ofCode? (n : Nat) : Option LockStatus :=
  [failure, acquired, interrupted].find? (·.code == n)

def ofJson? (j : Json) : Option LockStatus :=
  j.name?.bind fun n => [failure, acquired, interrupted].find? (·.name == n)

end LockStatus

end InterpreterLock
