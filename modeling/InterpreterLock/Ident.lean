/-!
# Thread idents

Every thread has an ident, a machine word other than zero; zero stands for nobody. Idents come from
one counter. A thread that was given an ident by its spawner keeps it, any other takes one when it
first asks.
-/

set_option autoImplicit false

namespace InterpreterLock

structure Ident where
  number : UInt64
  nonzero : number ≠ 0
deriving DecidableEq

namespace Ident

instance : LT Ident := ⟨fun a b => a.number < b.number⟩

instance (a b : Ident) : Decidable (a < b) := inferInstanceAs (Decidable (a.number < b.number))

instance : Repr Ident := ⟨fun i _ => repr i.number⟩

def ofNumber? (n : UInt64) : Option Ident :=
  if h : n ≠ 0 then some ⟨n, h⟩ else none

def first : Ident := ⟨1, by decide⟩

instance : Inhabited Ident := ⟨first⟩

def numberOf : Option Ident → UInt64
  | none => 0
  | some i => i.number

def sorted (is : List (Option Ident)) : List (Option Ident) :=
  is.mergeSort (fun a b => numberOf a ≤ numberOf b)

theorem ofNumber_number (i : Ident) : ofNumber? i.number = some i := by
  simp [ofNumber?, i.nonzero]

theorem ofNumber_numberOf (o : Option Ident) : ofNumber? (numberOf o) = o := by
  cases o with
  | none => simp [numberOf, ofNumber?]
  | some i => exact ofNumber_number i

end Ident

structure IdentSource where
  next : UInt64 := 1
deriving DecidableEq, Repr, Inhabited

namespace IdentSource

def take (s : IdentSource) : Ident × IdentSource :=
  ((Ident.ofNumber? s.next).getD Ident.first, ⟨s.next + 1⟩)

def ask (s : IdentSource) (own : Option Ident) : Ident × Option Ident × IdentSource :=
  match own with
  | some i => (i, some i, s)
  | none => (s.take.1, some s.take.1, s.take.2)

end IdentSource

def Ident.install (own : Option Ident) (i : Ident) : Bool × Option Ident :=
  match own with
  | some j => (false, some j)
  | none => (true, some i)

end InterpreterLock
