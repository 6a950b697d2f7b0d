import InterpreterLock.Table

/-!
# Thread-local references

A reference has a value of its own on every thread, none at first. All references of a thread, of
whatever kind, share one table under keys that are never used twice; a value is looked up by the key
and is given out only if it is of the kind of the reference.
-/

set_option autoImplicit false

namespace InterpreterLock

structure LocalRef where
  key : UInt64
  kind : Nat
deriving DecidableEq, Repr

structure LocalKeys where
  next : UInt64 := 0
deriving DecidableEq, Repr, Inhabited

def LocalKeys.create (s : LocalKeys) (kind : Nat) : LocalRef × LocalKeys :=
  (⟨s.next, kind⟩, ⟨s.next + 1⟩)

structure Stored (α : Type) where
  kind : Nat
  value : α
deriving DecidableEq, Repr

structure Locals (α : Type) where
  table : Table UInt64 (Stored α) := {}
deriving DecidableEq, Repr, Inhabited

namespace Locals

variable {α : Type}

def get? (l : Locals α) (r : LocalRef) : Option α :=
  (l.table.get? r.key).bind fun s => if s.kind = r.kind then some s.value else none

def set (l : Locals α) (r : LocalRef) : Option α → Locals α
  | none => ⟨l.table.erase r.key⟩
  | some a => ⟨l.table.insert r.key ⟨r.kind, a⟩⟩

end Locals

end InterpreterLock
