import Mathlib.Data.List.Infix

/-!
# Runs

A run is a list of actions, taken one after the other. What the beginning has and every action
keeps is there at the end; an action may be relied on to lead to a state of a certain kind, if all
states of the run are of that kind. What an action raises by one at most is bounded by the length
of the run.
-/

set_option autoImplicit false

namespace InterpreterLock.Run

variable {σ α : Type}

theorem keeps {act : σ → α → σ} {P Q : σ → Prop} {ok : α → Prop}
    (keep : ∀ s a, P s → ok a → Q (act s a) → P (act s a)) (acts : List α) (s : σ) (hs : P s)
    (hok : ∀ a ∈ acts, ok a) (hQ : ∀ early, early <+: acts → Q (early.foldl act s)) :
    P (acts.foldl act s) := by
  induction acts generalizing s with
  | nil => exact hs
  | cons a rest ih =>
    have ha : Q (act s a) := hQ [a] ⟨rest, rfl⟩
    refine ih (act s a) (keep s a hs (hok a (by simp)) ha) (fun b hb => hok b (by simp [hb])) ?_
    intro early he
    exact hQ (a :: early) (List.cons_prefix_cons.mpr ⟨rfl, he⟩)

theorem always {act : σ → α → σ} {P : σ → Prop} {ok : α → Prop}
    (keep : ∀ s a, P s → ok a → P (act s a)) (acts : List α) (s : σ) (hs : P s)
    (hok : ∀ a ∈ acts, ok a) : P (acts.foldl act s) :=
  keeps (Q := fun _ => True) (fun s a h ha _ => keep s a h ha) acts s hs hok fun _ _ => trivial

theorem lasts {act : σ → α → σ} {P : σ → Prop} (keep : ∀ s a, P s → P (act s a)) (acts : List α)
    (s : σ) (hs : P s) : P (acts.foldl act s) :=
  always (fun s a h (_ : True) => keep s a h) acts s hs fun _ _ => trivial

/-- What only the actions of one `i` can end lasts through a run without them. -/
theorem spares {ι : Type} {act : σ → α → σ} {who? : α → Option ι} {i : ι} {P : σ → Prop}
    (keep : ∀ s a, P s → who? a ≠ some i → P (act s a)) (acts : List α) (s : σ) (hs : P s)
    (hi : i ∉ acts.filterMap who?) : P (acts.foldl act s) := by
  have hne : ∀ a ∈ acts, who? a ≠ some i := by
    intro a ha hw
    exact hi (List.mem_filterMap.mpr ⟨a, ha, hw⟩)
  exact always keep acts s hs hne

theorem grows {act : σ → α → σ} {f : σ → ℕ} (step : ∀ s a, f (act s a) ≤ f s + 1) (acts : List α)
    (s : σ) : f (acts.foldl act s) ≤ f s + acts.length := by
  induction acts generalizing s with
  | nil => exact Nat.le_refl _
  | cons a rest ih =>
    have h1 := step s a
    have h2 := ih (act s a)
    rw [List.foldl_cons, List.length_cons]
    omega

end InterpreterLock.Run
