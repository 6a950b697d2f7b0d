import InterpreterLock.Host
import InterpreterLock.Ident
import InterpreterLock.Mode

/-!
# Panics

What unwinds a call: a broken contract of the interpreter lock, a deadline that no clock can show,
a list that no memory can hold, a thread name with a null character in it, a thread that waits for
its own end, or code of the caller that gave up.
-/

set_option autoImplicit false

namespace InterpreterLock

inductive Violation
  | reentered (me : Ident)
  | releasedUnheld (me : Ident) (holder : Option Ident)
  | yieldedUnheld
  | corruptWord (word : Int) (mode : Mode)
  | releasedFree (word : Int) (mode : Mode)
  | reported (text : String)
deriving DecidableEq

def identText (i : Ident) : String := Text.decimal i.number.toNat

def Violation.message : Violation → String
  | .reentered me =>
    "thread " ++ identText me
      ++ " tried to acquire the GIL it already holds (the GIL is not reentrant)"
  | .releasedUnheld me holder =>
    "thread " ++ identText me ++ " released the GIL without holding it (holder: "
      ++ Text.decimal (Ident.numberOf holder).toNat ++ ")"
  | .yieldedUnheld => "GIL yield from a thread that does not hold it"
  | .corruptWord word mode =>
    "fast GIL word holds " ++ Json.integerText word ++ " which is neither free nor locked in "
      ++ mode.name ++ " mode"
  | .releasedFree word mode =>
    "released a GIL whose word was " ++ Json.integerText word ++ " in " ++ mode.name ++ " mode"
  | .reported text => text

inductive Panic
  | violation (v : Violation)
  | clockOverflow
  | capacityOverflow
  | nullInName (position : Nat) (bytes : List UInt8)
  | joinedSelf
  | raised (text : String)
deriving DecidableEq

def byteList (bytes : List UInt8) : String :=
  "[" ++ String.intercalate ", " (bytes.map fun b => Text.decimal b.toNat) ++ "]"

def Panic.message : Panic → String
  | .violation v => "contract violation: " ++ v.message
  | .clockOverflow => "overflow when adding duration to instant"
  | .capacityOverflow => "capacity overflow"
  | .nullInName position bytes =>
    "thread name may not contain interior null bytes: NulError("
      ++ Text.decimal position ++ ", " ++ byteList bytes ++ ")"
  | .joinedSelf => "failed to join thread: " ++ SystemError.deadlock.message
  | .raised text => text

end InterpreterLock
