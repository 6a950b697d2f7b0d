import InterpreterLock.Ident
import Mathlib.Data.Set.Card

/-!
# Counting threads by their idents

No ident is zero, so there are fewer idents than machine words, and a machine word that counts
threads never comes round to zero while it counts one.
-/

set_option autoImplicit false

namespace InterpreterLock.Ident

def position (i : Ident) : Fin (2 ^ 64 - 1) :=
  ⟨i.number.toNat - 1, by
    have h := i.number.toNat_lt
    omega⟩

theorem position_injective : Function.Injective position := by
  intro i j h
  have hi : i.number.toNat ≠ 0 := fun h => i.nonzero (UInt64.toNat_inj.mp h)
  have hj : j.number.toNat ≠ 0 := fun h => j.nonzero (UInt64.toNat_inj.mp h)
  have hij : i.number.toNat - 1 = j.number.toNat - 1 := congrArg Fin.val h
  have hn : i.number = j.number := UInt64.toNat_inj.mp (by omega)
  cases i
  cases j
  simpa using hn

instance : Finite Ident := Finite.of_injective position position_injective

theorem ncard_lt (s : Set Ident) : s.ncard < 2 ^ 64 := by
  have hc : Nat.card Ident ≤ Nat.card (Fin (2 ^ 64 - 1)) :=
    Nat.card_le_card_of_injective position position_injective
  have hs : s.ncard ≤ Nat.card Ident := Set.ncard_le_card s
  rw [Nat.card_fin] at hc
  omega

theorem ofNat_ncard_eq_zero (s : Set Ident) : UInt64.ofNat s.ncard = 0 ↔ s = ∅ := by
  rw [UInt64.ofNat_eq_iff_mod_eq_toNat, Nat.mod_eq_of_lt (ncard_lt s)]
  exact Set.ncard_eq_zero

theorem ofNat_ncard_insert (s : Set Ident) (i : Ident) (h : i ∉ s) :
    UInt64.ofNat (insert i s).ncard = UInt64.ofNat s.ncard + 1 := by
  rw [Set.ncard_insert_of_notMem h, UInt64.ofNat_add]
  rfl

theorem ofNat_ncard_remove (s : Set Ident) (i : Ident) (h : i ∈ s) :
    UInt64.ofNat (s \ {i}).ncard = UInt64.ofNat s.ncard - 1 := by
  rw [← Set.ncard_sdiff_singleton_add_one h, UInt64.ofNat_add]
  exact (UInt64.add_sub_cancel _ 1).symm

end InterpreterLock.Ident

namespace InterpreterLock.IdentSource

theorem take_number {s : IdentSource} (h : s.next ≠ 0) : s.take.1.number = s.next := by
  rw [take, Ident.ofNumber?, dif_pos h]
  rfl

end InterpreterLock.IdentSource
