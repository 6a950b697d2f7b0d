import InterpreterLock.Progress

/-!
# What a step leaves

A step is judged by what it leaves: a place further on, an answer, or a panic. A call that runs
inside another one is judged through the outer call.
-/

set_option autoImplicit false

namespace InterpreterLock.Progress

variable {σ τ α β : Type}

def next? : Progress σ α → Option σ
  | .going s => some s
  | .done _ => none
  | .unwound _ => none

def result? : Progress σ α → Option (Except Panic α)
  | .going _ => none
  | .done a => some (.ok a)
  | .unwound p => some (.error p)

def Meets (P : σ → Prop) (Q : α → Prop) (R : Panic → Prop) : Progress σ α → Prop
  | .going s => P s
  | .done a => Q a
  | .unwound p => R p

theorem meets_within (p : Progress σ α) (inside : σ → τ) (after : α → Progress τ β)
    (P : τ → Prop) (Q : β → Prop) (R : Panic → Prop) :
    (p.within inside after).Meets P Q R ↔
      p.Meets (fun s => P (inside s)) (fun a => (after a).Meets P Q R) R := by
  cases p <;> rfl

theorem next?_within {p : Progress σ α} {inside : σ → τ} {after : α → Progress τ β}
    (h : ∀ a, (after a).next? = none) : (p.within inside after).next? = p.next?.map inside := by
  cases p with
  | going s => rfl
  | done a => exact h a
  | unwound e => rfl

/-- A call that never unwinds by itself unwinds with the call inside it. -/
theorem unwound_of_within {p : Progress σ α} {inside : σ → τ} {after : α → Progress τ β} {e : Panic}
    (h : p.within inside after = .unwound e) (ha : ∀ a, after a ≠ .unwound e) : p = .unwound e := by
  cases p with
  | going s => cases h
  | done a => exact absurd h (ha a)
  | unwound e' =>
    cases h
    rfl

theorem Meets.imp {P P' : σ → Prop} {Q Q' : α → Prop} {R R' : Panic → Prop} {p : Progress σ α}
    (h : p.Meets P Q R) (hP : ∀ s, P s → P' s) (hQ : ∀ a, Q a → Q' a) (hR : ∀ e, R e → R' e) :
    p.Meets P' Q' R' := by
  cases p with
  | going s => exact hP s h
  | done a => exact hQ a h
  | unwound e => exact hR e h

theorem Meets.and {P P' : σ → Prop} {Q Q' : α → Prop} {R R' : Panic → Prop} {p : Progress σ α}
    (h : p.Meets P Q R) (h' : p.Meets P' Q' R') :
    p.Meets (fun s => P s ∧ P' s) (fun a => Q a ∧ Q' a) (fun e => R e ∧ R' e) := by
  cases p with
  | going s => exact ⟨h, h'⟩
  | done a => exact ⟨h, h'⟩
  | unwound e => exact ⟨h, h'⟩

theorem Meets.of_next? {P : σ → Prop} {Q : α → Prop} {R : Panic → Prop} {p : Progress σ α} {s : σ}
    (h : p.Meets P Q R) (hs : p.next? = some s) : P s := by
  cases p with
  | going s' =>
    cases hs
    exact h
  | done a => cases hs
  | unwound e => cases hs

end InterpreterLock.Progress
