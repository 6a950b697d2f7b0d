import InterpreterLock.Json
import InterpreterLock.Text.LowerCase

/-!
# Thread backends

A backend says how a waiting thread is woken and how large a stack a thread may have. The posix
backend counts signals; the windows backend keeps one signal until a waiter takes it.
-/

set_option autoImplicit false

namespace InterpreterLock

inductive Backend
  | posix
  | windows
deriving DecidableEq, Repr, Inhabited

namespace Backend

def minStack : Nat := 32768

def maxStack : Backend → Nat
  | .posix => UInt64.size - 1
  | .windows => 268435456

def name : Backend → String
  | .posix => "posix"
  | .windows => "windows"

def ofLowered? (s : String) : Option Backend :=
  if s = "posix" ∨ s = "pthread" then some .posix
  else if s = "windows" ∨ s = "nt" ∨ s = "native-windows" then some .windows
  else none

structure Unknown where
  lowered : String
deriving DecidableEq, Repr

def Unknown.message (e : Unknown) : String := "unknown thread backend: " ++ e.lowered

def ofName : String → Except Unknown Backend := Text.readLowered ofLowered? .mk

def reportName : Backend → String
  | .posix => "posix"
  | .windows => "native-windows"

def toJson (b : Backend) : Json := .text b.reportName

def ofJson? (j : Json) : Option Backend :=
  match j.name? with
  | some "posix" => some .posix
  | some "native-windows" => some .windows
  | _ => none

theorem ofJson_toJson (b : Backend) : ofJson? b.toJson = some b := by cases b <;> rfl

end Backend

end InterpreterLock
