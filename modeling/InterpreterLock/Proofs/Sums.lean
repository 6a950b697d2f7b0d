import InterpreterLock.Proofs.Ident
import Mathlib.Algebra.BigOperators.Group.Finset.Piecewise
import Mathlib.Algebra.BigOperators.Group.List.Basic
import Mathlib.Data.Fintype.EquivFin

/-!
# Lists, and sums over lists and over threads

A list in which one entry is changed, and to which another may be added, still has all its other
entries. A sum moves by what it moves for the entry that is changed. There are finitely many idents,
so what the threads contribute can be added up too, whoever they are.
-/

set_option autoImplicit false

namespace InterpreterLock

section

variable {α : Type} {l : List α} {n m : ℕ} {a v : α} {b : Option α}

theorem getElem?_append_toList_cases (h : (l ++ b.toList)[m]? = some v) :
    l[m]? = some v ∨ m = l.length ∧ b = some v := by
  by_cases hlt : m < l.length
  · rw [List.getElem?_append_left hlt] at h
    exact .inl h
  · rw [List.getElem?_append_right (Nat.not_lt.mp hlt)] at h
    cases b with
    | none => cases h
    | some u =>
      rw [Option.toList_some, List.getElem?_singleton] at h
      obtain ⟨hlast, hu⟩ := Option.ite_none_right_eq_some.mp h
      exact .inr ⟨by omega, hu⟩

theorem getElem?_set_append_self (b : Option α) (hn : l[n]? = some v) :
    (l.set n a ++ b.toList)[n]? = some a := by
  have hlt : n < l.length := (List.getElem?_eq_some_iff.mp hn).1
  rw [List.getElem?_append_left (by rwa [List.length_set]), List.getElem?_set_self hlt]

theorem getElem?_set_append_of_ne (b : Option α) (hm : m ≠ n) (hv : l[m]? = some v) :
    (l.set n a ++ b.toList)[m]? = some v := by
  have hlt : m < l.length := (List.getElem?_eq_some_iff.mp hv).1
  rw [List.getElem?_append_left (by rwa [List.length_set]), List.getElem?_set_ne hm.symm]
  exact hv

theorem getElem?_set_append_length (hv : b = some v) :
    (l.set n a ++ b.toList)[l.length]? = some v := by
  rw [List.getElem?_append_right (by rw [List.length_set]), List.length_set, Nat.sub_self, hv]
  rfl

theorem getElem?_set_append_cases {u : α} (hn : l[n]? = some u)
    (h : (l.set n a ++ b.toList)[m]? = some v) :
    m = n ∧ v = a ∨ m ≠ n ∧ l[m]? = some v ∨ m = l.length ∧ b = some v := by
  by_cases hm : m = n
  · subst hm
    rw [getElem?_set_append_self b hn, Option.some_inj] at h
    exact .inl ⟨rfl, h.symm⟩
  · rcases getElem?_append_toList_cases h with hold | ⟨hlast, hnew⟩
    · rw [List.getElem?_set_ne (Ne.symm hm)] at hold
      exact .inr (.inl ⟨hm, hold⟩)
    · exact .inr (.inr ⟨by rwa [List.length_set] at hlast, hnew⟩)

end

/-- A sum over a list moves by what it moves for the entry that is changed. -/
theorem sum_map_set {α M : Type} [AddCommMonoid M] (f : α → M) (l : List α) {n : ℕ} {a : α} (b : α)
    (hn : l[n]? = some a) : ((l.set n b).map f).sum + f a = (l.map f).sum + f b := by
  induction l generalizing n with
  | nil => cases hn
  | cons x rest ih =>
    cases n with
    | zero =>
      have hx : x = a := by simpa using hn
      subst hx
      simp only [List.set_cons_zero, List.map_cons, List.sum_cons]
      ac_rfl
    | succ n =>
      have hrest := ih (n := n) (by simpa using hn)
      simp only [List.set_cons_succ, List.map_cons, List.sum_cons]
      rw [add_assoc, hrest, add_assoc]

theorem sum_map_toNat {α : Type} (p : α → Bool) (l : List α) :
    (l.map fun a => (p a).toNat).sum = l.countP p := by
  induction l with
  | nil => rfl
  | cons a rest ih =>
    rw [List.map_cons, List.sum_cons, ih, List.countP_cons]
    cases p a <;> simp [Nat.add_comm]

namespace Ident

noncomputable instance : Fintype Ident := Fintype.ofFinite Ident

variable {M : Type} [AddCommMonoid M]

noncomputable def total (f : Ident → M) : M := ∑ i, f i

theorem total_update (f : Ident → M) (i : Ident) (b : M) :
    total (Function.update f i b) + f i = total f + b := by
  have hnew : total (Function.update f i b) = b + ∑ j ∈ Finset.univ \ {i}, f j :=
    Finset.sum_update_of_mem (Finset.mem_univ i) f b
  have hold : total f = f i + ∑ j ∈ Finset.univ \ {i}, f j := by
    have h := Finset.sum_update_of_mem (Finset.mem_univ i) f (f i)
    rwa [Function.update_eq_self] at h
  rw [hnew, hold]
  ac_rfl

theorem total_eq_zero {f : Ident → M} (h : ∀ i, f i = 0) : total f = 0 :=
  Finset.sum_eq_zero fun i _ => h i

end Ident

end InterpreterLock
