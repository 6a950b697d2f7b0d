import InterpreterLock.Table

/-!
# Shelves

Things are put on a shelf one after the other, each under a name, and are numbered by their places.
A name stands for the latest thing that was put under it; the earlier ones keep their places, and
those who know their numbers still reach them.
-/

set_option autoImplicit false

namespace InterpreterLock.Session

structure Shelf (α : Type) where
  things : List α := []
  names : Table String Nat := {}
deriving DecidableEq, Repr, Inhabited

namespace Shelf

variable {α : Type}

def isEmpty (s : Shelf α) : Bool := s.things.isEmpty

def get? (s : Shelf α) (k : Nat) : Option α := s.things[k]?

def find? (s : Shelf α) (name : String) : Option Nat := s.names.get? name

def named? (s : Shelf α) (name : String) : Option (Nat × α) :=
  (s.find? name).bind fun k => (s.get? k).map (k, ·)

def put (s : Shelf α) (name : String) (a : α) : Shelf α :=
  ⟨s.things ++ [a], s.names.insert name s.things.length⟩

def set (s : Shelf α) (k : Nat) (a : α) : Shelf α := { s with things := s.things.set k a }

def listing (s : Shelf α) : List (String × α) :=
  s.names.entries.filterMap fun e => (s.get? e.2).map (e.1, ·)

theorem named?_put_self (s : Shelf α) (name : String) (a : α) :
    (s.put name a).named? name = some (s.things.length, a) := by
  simp [named?, find?, get?, put, Table.get?_insert_self]

/-- What is put on the shelf leaves the things that stand there alone. -/
theorem get?_put_of_lt (s : Shelf α) (name : String) (a : α) {k : Nat} (h : k < s.things.length) :
    (s.put name a).get? k = s.get? k := by
  simp [get?, put, List.getElem?_append_left h]

theorem find?_put_of_ne (s : Shelf α) {j name : String} (a : α) (h : j ≠ name) :
    (s.put name a).find? j = s.find? j := Table.get?_insert_of_ne _ _ h

end Shelf

end InterpreterLock.Session
