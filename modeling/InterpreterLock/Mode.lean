import InterpreterLock.Json
import InterpreterLock.Text.LowerCase

/-!
# Lock-word modes

The lock word is free at zero. In the generic mode every other value is locked; in the constrained
mode a held lock is exactly one, and any further value is corrupt.
-/

set_option autoImplicit false

namespace InterpreterLock

inductive Mode
  | generic
  | constrained
deriving DecidableEq, Repr, Inhabited

namespace Mode

def freeWord : Int := 0

def lockedWord (_ : Mode) : Int := 1

def isLocked : Mode → Int → Bool
  | .generic, w => w != freeWord
  | .constrained, w => w == 1

def isValid : Mode → Int → Bool
  | .generic, _ => true
  | .constrained, w => w == freeWord || w == 1

def name : Mode → String
  | .generic => "generic"
  | .constrained => "constrained"

def ofLowered? (s : String) : Option Mode :=
  if s = "generic" then some .generic
  else if s = "constrained" ∨ s = "asmgcc" then some .constrained
  else none

structure Unknown where
  lowered : String
deriving DecidableEq, Repr

def Unknown.message (e : Unknown) : String := "unknown fast GIL mode: " ++ e.lowered

def ofName : String → Except Unknown Mode := Text.readLowered ofLowered? .mk

def toJson (m : Mode) : Json := .text m.name

def ofJson? (j : Json) : Option Mode :=
  match j.name? with
  | some "generic" => some .generic
  | some "constrained" => some .constrained
  | _ => none

theorem isLocked_lockedWord (m : Mode) : m.isLocked m.lockedWord = true := by cases m <;> rfl

theorem isLocked_freeWord (m : Mode) : m.isLocked freeWord = false := by cases m <;> rfl

theorem isValid_lockedWord (m : Mode) : m.isValid m.lockedWord = true := by cases m <;> rfl

theorem isValid_freeWord (m : Mode) : m.isValid freeWord = true := by cases m <;> rfl

/-- A valid word is locked unless it is free. -/
theorem isLocked_iff_ne_free (m : Mode) (w : Int) (h : m.isValid w = true) :
    m.isLocked w = true ↔ w ≠ freeWord := by
  cases m with
  | generic => simp [isLocked]
  | constrained =>
    simp only [isValid, freeWord, Bool.or_eq_true, beq_iff_eq] at h
    simp only [isLocked, freeWord, beq_iff_eq]
    omega

end Mode

end InterpreterLock
