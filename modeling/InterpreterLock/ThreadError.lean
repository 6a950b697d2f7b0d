import InterpreterLock.Text.Decimal

/-!
# Errors of the thread layer
-/

set_option autoImplicit false

namespace InterpreterLock

inductive ThreadError
  | limitReached (limit : Nat)
  | refused (reason : String)
  | badStackSize (requested least greatest : Nat)
  | notLocked
deriving DecidableEq, Repr

def ThreadError.message : ThreadError → String
  | .limitReached limit =>
    "can't start new thread: limit of " ++ Text.decimal limit ++ " live threads reached"
  | .refused reason => "can't start new thread: " ++ reason
  | .badStackSize requested least greatest =>
    "invalid stack size " ++ Text.decimal requested ++ ": must be 0 or between "
      ++ Text.decimal least ++ " and " ++ Text.decimal greatest ++ " bytes"
  | .notLocked => "bad lock: release of an unlocked lock"

end InterpreterLock
