import InterpreterLock.Backend
import InterpreterLock.Environment
import InterpreterLock.Gil
import InterpreterLock.Text.Blank

/-!
# Configuration

The settings of an interpreter, and how they are read from variables of the environment. A value
that cannot be read leaves its setting as it is. The collector's switch is lower-cased but not
trimmed; all other values are trimmed.
-/

set_option autoImplicit false

namespace InterpreterLock

structure Config where
  mode : Mode := .generic
  backend : Backend := .posix
  collector : Bool := true
  stackSize : Nat := 0
  maxThreads : Option Nat := none
  patience : Duration := Gil.defaultPatience
deriving DecidableEq, Repr, Inhabited

namespace Config

def default : Config := {}

namespace Variable

def mode : String := "FASTGIL_MODE"

def backend : String := "FASTGIL_BACKEND"

def collector : String := "FASTGIL_COLLECTOR"

def stackSize : String := "FASTGIL_STACK_SIZE"

def maxThreads : String := "FASTGIL_MAX_THREADS"

def patience : String := "FASTGIL_YIELD_HANDOFF_US"

end Variable

def readSwitch (s : String) : Option Bool :=
  let word := Text.lower s
  if word = "1" ∨ word = "true" ∨ word = "on" then some true
  else if word = "0" ∨ word = "false" ∨ word = "off" then some false
  else none

def readMode (s : String) : Option Mode := (Mode.ofName (Text.trim s)).toOption

def readBackend (s : String) : Option Backend := (Backend.ofName (Text.trim s)).toOption

def readNumber (s : String) : Option Nat := (Text.readWord (Text.trim s)).toOption

def ofEnvironment (env : Environment) : Config where
  mode := ((env Variable.mode).bind readMode).getD default.mode
  backend := ((env Variable.backend).bind readBackend).getD default.backend
  collector := ((env Variable.collector).bind readSwitch).getD default.collector
  stackSize := ((env Variable.stackSize).bind readNumber).getD default.stackSize
  maxThreads := ((env Variable.maxThreads).bind readNumber).or default.maxThreads
  patience :=
    (((env Variable.patience).bind readNumber).map Duration.ofMicros).getD default.patience

theorem ofEnvironment_empty : ofEnvironment (fun _ => none) = default := rfl

end Config

end InterpreterLock
