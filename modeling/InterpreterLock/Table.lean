/-!
# Tables

Values under keys, in ascending order of the keys, with at most one value a key.
-/

set_option autoImplicit false

namespace InterpreterLock

structure Table (κ α : Type) where
  entries : List (κ × α) := []
deriving DecidableEq, Repr, Inhabited

namespace Table

variable {κ α : Type}

def keys (m : Table κ α) : List κ := m.entries.map Prod.fst

def size (m : Table κ α) : Nat := m.entries.length

section

variable [DecidableEq κ]

def get? (m : Table κ α) (k : κ) : Option α :=
  (m.entries.find? fun e => e.1 = k).map Prod.snd

def contains (m : Table κ α) (k : κ) : Bool := (m.get? k).isSome

def erase (m : Table κ α) (k : κ) : Table κ α := ⟨m.entries.filter fun e => e.1 ≠ k⟩

def modify (m : Table κ α) (k : κ) (f : α → α) : Table κ α :=
  ⟨m.entries.map fun e => if e.1 = k then (e.1, f e.2) else e⟩

def retain (m : Table κ α) (k : κ) : Table κ α := ⟨m.entries.filter fun e => e.1 = k⟩

theorem get?_erase_self (m : Table κ α) (k : κ) : (m.erase k).get? k = none := by
  simp [get?, erase, List.find?_filter]

theorem get?_erase_of_ne (m : Table κ α) {j k : κ} (h : j ≠ k) : (m.erase k).get? j = m.get? j := by
  have same : (fun e : κ × α => decide (decide (e.1 ≠ k) = true ∧ decide (e.1 = j) = true)) =
      fun e => decide (e.1 = j) := by
    funext e
    by_cases hj : e.1 = j
    · simp [hj, h]
    · simp [hj]
  simp only [get?, erase, List.find?_filter, same]

theorem get?_retain_self (m : Table κ α) (k : κ) : (m.retain k).get? k = m.get? k := by
  simp [get?, retain, List.find?_filter]

theorem get?_retain_of_ne (m : Table κ α) {j k : κ} (h : j ≠ k) : (m.retain k).get? j = none := by
  simp only [get?, retain, List.find?_filter, Option.map_eq_none_iff, List.find?_eq_none]
  intro e _ he
  simp only [decide_eq_true_eq] at he
  exact h (he.2.symm.trans he.1)

theorem get?_modify (m : Table κ α) (j k : κ) (f : α → α) :
    (m.modify k f).get? j = (m.get? j).map fun a => if j = k then f a else a := by
  have same : ((fun e : κ × α => decide (e.1 = j)) ∘ fun e => if e.1 = k then (e.1, f e.2) else e) =
      fun e => decide (e.1 = j) := by
    funext e
    by_cases h : e.1 = k
    · simp [h]
    · simp [h]
  simp only [get?, modify, List.find?_map, same]
  cases hf : m.entries.find? fun e => decide (e.1 = j) with
  | none => rfl
  | some e =>
    have he : e.1 = j := by simpa using List.find?_some hf
    by_cases h : j = k
    · simp [he, h]
    · simp [he, h]

variable [LT κ] [DecidableLT κ]

def insertEntry (k : κ) (a : α) : List (κ × α) → List (κ × α)
  | [] => [(k, a)]
  | e :: rest =>
    if k < e.1 then (k, a) :: e :: rest
    else if k = e.1 then (k, a) :: rest
    else e :: insertEntry k a rest

def insert (m : Table κ α) (k : κ) (a : α) : Table κ α := ⟨insertEntry k a m.entries⟩

theorem get?_insert_self (m : Table κ α) (k : κ) (a : α) : (m.insert k a).get? k = some a := by
  obtain ⟨entries⟩ := m
  simp only [get?, insert]
  induction entries with
  | nil => simp [insertEntry]
  | cons e rest ih =>
    unfold insertEntry
    split
    · simp
    · split
      · simp
      · rename_i hk
        have he : e.1 ≠ k := fun h => hk h.symm
        simp [he, ih]

theorem get?_insert_of_ne (m : Table κ α) {j k : κ} (a : α) (h : j ≠ k) :
    (m.insert k a).get? j = m.get? j := by
  have hk : k ≠ j := fun hk => h hk.symm
  obtain ⟨entries⟩ := m
  simp only [get?, insert]
  induction entries with
  | nil => simp [insertEntry, hk]
  | cons e rest ih =>
    unfold insertEntry
    split
    · simp [hk]
    · split
      · rename_i he
        simp [← he, hk]
      · by_cases hj : e.1 = j
        · simp [hj]
        · simp [hj, ih]

end

end Table

end InterpreterLock
