import InterpreterLock.Table
import Mathlib.Order.Defs.Unbundled

/-!
# Ascending tables

Every operation leaves the keys of a table in ascending order, so that no key is listed twice. The
keys of a table are those that have a value in it.
-/

set_option autoImplicit false

namespace InterpreterLock.Table

variable {κ α : Type}

def Ascending [LT κ] (m : Table κ α) : Prop := m.keys.Pairwise (· < ·)

theorem ascending_empty [LT κ] : (⟨[]⟩ : Table κ α).Ascending := List.Pairwise.nil

theorem length_keys (m : Table κ α) : m.keys.length = m.size := List.length_map Prod.fst

variable [DecidableEq κ]

theorem mem_keys_iff (m : Table κ α) (k : κ) : k ∈ m.keys ↔ m.contains k = true := by
  simp [keys, contains, get?, List.find?_isSome]

theorem keys_modify (m : Table κ α) (k : κ) (f : α → α) : (m.modify k f).keys = m.keys := by
  simp only [keys, modify, List.map_map]
  apply List.map_congr_left
  intro e _
  by_cases h : e.1 = k <;> simp [h]

variable [LT κ]

theorem Ascending.modify {m : Table κ α} (h : m.Ascending) (k : κ) (f : α → α) :
    (m.modify k f).Ascending := by
  rw [Ascending, keys_modify]
  exact h

theorem Ascending.erase {m : Table κ α} (h : m.Ascending) (k : κ) : (m.erase k).Ascending :=
  h.sublist (List.filter_sublist.map Prod.fst)

theorem Ascending.retain {m : Table κ α} (h : m.Ascending) (k : κ) : (m.retain k).Ascending :=
  h.sublist (List.filter_sublist.map Prod.fst)

variable [DecidableLT κ]

/-- An insertion adds no key but its own. -/
theorem eq_or_mem_of_mem_insertEntry {k j : κ} {a : α} {es : List (κ × α)}
    (h : j ∈ (insertEntry k a es).map Prod.fst) : j = k ∨ j ∈ es.map Prod.fst := by
  induction es with
  | nil => simpa [insertEntry] using h
  | cons e rest ih =>
    unfold insertEntry at h
    split at h
    · simpa using h
    · split at h
      · rcases List.mem_cons.mp h with hj | hj
        · exact .inl hj
        · exact .inr (List.mem_cons_of_mem _ hj)
      · rcases List.mem_cons.mp h with hj | hj
        · exact .inr (List.mem_cons.mpr (.inl hj))
        · exact (ih hj).imp_right fun hr => List.mem_cons_of_mem _ hr

theorem Ascending.insert [IsStrictTotalOrder κ (· < ·)] {m : Table κ α} (h : m.Ascending) (k : κ)
    (a : α) : (m.insert k a).Ascending := by
  obtain ⟨entries⟩ := m
  change ((insertEntry k a entries).map Prod.fst).Pairwise (· < ·)
  change (entries.map Prod.fst).Pairwise (· < ·) at h
  induction entries with
  | nil => exact List.pairwise_singleton _ _
  | cons e rest ih =>
    obtain ⟨hfirst, hrest⟩ := List.pairwise_cons.mp h
    unfold insertEntry
    split
    · rename_i hlt
      refine List.pairwise_cons.mpr ⟨fun j hj => ?_, h⟩
      rcases List.mem_cons.mp hj with rfl | hj
      · exact hlt
      · exact Trans.trans hlt (hfirst j hj)
    · rename_i hnot
      split
      · rename_i heq
        subst heq
        exact h
      · rename_i hne
        have hgt : e.1 < k := by
          rcases trichotomous_of (· < ·) k e.1 with hlt | heq | hgt
          · exact absurd hlt hnot
          · exact absurd heq hne
          · exact hgt
        refine List.pairwise_cons.mpr ⟨fun j hj => ?_, ih hrest⟩
        rcases eq_or_mem_of_mem_insertEntry hj with rfl | hj
        · exact hgt
        · exact hfirst j hj

end InterpreterLock.Table
