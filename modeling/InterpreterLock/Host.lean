import InterpreterLock.Environment
import InterpreterLock.Text.Decimal

/-!
# Hosts

A host has so much memory, and its operating system may refuse to start a thread because of the
stack it would need. Where no size is asked for, a variable of the environment may set one.
-/

set_option autoImplicit false

namespace InterpreterLock

structure SystemError where
  number : Nat
  text : String
deriving DecidableEq, Repr

namespace SystemError

def tryAgain : SystemError := ⟨11, "Resource temporarily unavailable"⟩

def invalidArgument : SystemError := ⟨22, "Invalid argument"⟩

def deadlock : SystemError := ⟨35, "Resource deadlock avoided"⟩

def message (e : SystemError) : String :=
  e.text ++ " (os error " ++ Text.decimal e.number ++ ")"

end SystemError

/-- There is less than so many bytes of memory, and a reason for which no thread is started with a
stack of so many bytes, if none is; zero asks for no size. -/
structure Host where
  memory : Nat
  refusal? : Nat → Option SystemError

namespace Host

def guardPage : Nat := 4096

def usualMemory : Nat := 32 * 1024 * 1024 * 1024

def usualStack : Nat := 2 * 1024 * 1024

/-- With its guard page a stack has to have a size that is a machine word, and there has to be
memory for it. -/
def ofDefaultStack (memory default : Nat) : Host where
  memory
  refusal? size :=
    let size := if size = 0 then default else size
    if Text.wordLimit ≤ size + guardPage then some .invalidArgument
    else if memory ≤ size then some .tryAgain
    else none

def standard : Host := ofDefaultStack usualMemory usualStack

def stackVariable : String := "RUST_MIN_STACK"

def ofEnvironment (env : Environment) : Host :=
  ofDefaultStack usualMemory
    (((env stackVariable).bind fun s => (Text.readWord s).toOption).getD usualStack)

end Host

end InterpreterLock
