import InterpreterLock.Proofs.ThreadLock.Rack

/-!
# Milestones of a call

A call that has taken its lock ends as acquired and no other one does, and a release that has freed
its lock ends well and no other one does. The metrics count an acquire in the step that ends it, and
a contended one before.
-/

set_option autoImplicit false

namespace InterpreterLock.ThreadLock

variable {t : Turn} {l : ThreadLock}

namespace Acquire

def won : Acquire → Bool
  | .unlist _ status | .checkLocked status | .lookForWaiters status | .passOn status
  | .recordStatus status => status.isAcquired
  | .recordContention _ => true
  | _ => false

def isOver : Acquire → Bool
  | .recordStatus status => status.isAcquired
  | _ => false

end Acquire

namespace Release

def freed : Release → Bool
  | .unlock => false
  | .lookForWaiters | .signal => true

end Release

inductive Contends : Option Metrics.Record → Bool → Bool → Prop
  | nothing {b b' : Bool} (h : b = true → b' = true) : Contends none b b'
  | contention (d : Duration) : Contends (some (.lockContention d)) false true

theorem Acquire.step_won (terms : Terms) (a : Acquire) :
    (a.step terms t l).progress.Meets (fun a' => a'.won = (a.takes l || a.won))
      (fun status => status.isAcquired = (a.takes l || a.won)) fun _ => False := by
  cases a with
  | tryLock =>
    cases hl : l.locked with
    | false =>
      simp only [step, takes, hl, Bool.not_false, if_true]
      rfl
    | true =>
      simp only [step, takes, hl, Bool.not_true, Bool.false_eq_true, if_false]
      split <;> rfl
  | retry span ticket =>
    cases hl : l.locked with
    | false =>
      simp only [step, takes, hl, Bool.not_false, if_true]
      rfl
    | true =>
      simp only [step, takes, hl, Bool.not_true, Bool.false_eq_true, if_false]
      rfl
  | checkDeadline span ticket =>
    simp only [step]
    split
    · rfl
    · split <;> rfl
  | wait span w =>
    simp only [step, Progress.meets_within]
    apply Parking.wait_meets
    · intro w'
      rfl
    · intro o
      simp only [afterWait]
      split <;> rfl
  | unlist span status => cases status <;> rfl
  | checkLocked status =>
    simp only [step]
    split <;> rfl
  | lookForWaiters status =>
    simp only [step]
    split <;> rfl
  | _ => rfl

theorem Acquire.step_note (terms : Terms) (a : Acquire) :
    (a.step terms t l).progress.Meets
      (fun a' => Contends (a.step terms t l).note a.isOver a'.isOver)
      (fun status => (a.step terms t l).note = some (.lockStatus status) ∧
        (a.isOver = true → status = .acquired)) fun _ => False := by
  cases a with
  | tryLock =>
    simp only [step]
    split
    · exact .nothing nofun
    · split <;> exact .nothing nofun
  | retry span ticket =>
    simp only [step]
    split <;> exact .nothing nofun
  | checkDeadline span ticket =>
    simp only [step]
    split
    · exact .nothing nofun
    · split <;> exact .nothing nofun
  | wait span w =>
    simp only [step, Progress.meets_within]
    apply Parking.wait_meets
    · intro w'
      exact .nothing nofun
    · intro o
      simp only [afterWait]
      split <;> exact .nothing nofun
  | unlist span status => cases status <;> exact .nothing nofun
  | recordContention span => exact .contention _
  | checkLocked status =>
    simp only [step]
    split <;> exact .nothing nofun
  | lookForWaiters status =>
    simp only [step]
    split <;> exact .nothing nofun
  | recordStatus status => exact ⟨rfl, by simp [isOver, LockStatus.isAcquired]⟩
  | _ => exact .nothing nofun

theorem Release.step_freed (r : Release) :
    (r.step t l).progress.Meets (fun r' => r'.freed = (r.frees l || r.freed))
      (fun b => b = (r.frees l || r.freed)) fun _ => False := by
  cases r with
  | unlock =>
    cases hl : l.locked with
    | false => simp [step, frees, freed, hl, Progress.Meets]
    | true => simp [step, frees, freed, hl, Progress.Meets]
  | lookForWaiters =>
    simp only [step]
    split <;> rfl
  | signal => rfl

theorem Release.step_note (r : Release) : (r.step t l).note = none := by
  cases r with
  | signal => rfl
  | _ =>
    simp only [step]
    split <;> rfl

theorem Acquire.step_locked (terms : Terms) (a : Acquire) :
    (a.step terms t l).state.locked.toNat = l.locked.toNat + (a.takes l).toNat := by
  cases a with
  | tryLock =>
    cases hl : l.locked with
    | false => simp [step, takes, hl]
    | true =>
      simp only [step, takes, hl, Bool.not_true, Bool.false_eq_true, if_false]
      split <;> simp [hl]
  | retry span ticket => cases hl : l.locked <;> simp [step, takes, hl]
  | checkDeadline span ticket =>
    simp only [step]
    split
    · rfl
    · split <;> rfl
  | unlist span status => cases status <;> rfl
  | checkLocked status =>
    simp only [step]
    split <;> rfl
  | lookForWaiters status =>
    simp only [step]
    split <;> rfl
  | _ => rfl

theorem Release.step_locked (r : Release) :
    (r.step t l).state.locked.toNat + (r.frees l).toNat = l.locked.toNat := by
  cases r with
  | unlock => cases hl : l.locked <;> simp [step, frees, hl]
  | lookForWaiters =>
    simp only [step]
    split <;> rfl
  | signal => rfl

/-- Something that calls come to: the places of a call that has, and the answers of one that had. -/
structure Milestone where
  place : Call → Bool
  answer : LockStatus ⊕ Bool → Bool

namespace Milestone

def met (μ : Milestone) : Progress Call (LockStatus ⊕ Bool) → Bool
  | .going c => μ.place c
  | .done answer => μ.answer answer
  | .unwound _ => false

def begun : Milestone := ⟨fun _ => true, fun _ => true⟩

def won : Milestone where
  place
    | .acquire _ a => a.won
    | .release _ => false
  answer
    | .inl status => status.isAcquired
    | .inr _ => false

def freed : Milestone where
  place
    | .acquire .. => false
    | .release r => r.freed
  answer
    | .inl _ => false
    | .inr wasLocked => wasLocked

def ending : Milestone where
  place
    | .acquire _ a => a.isOver
    | .release _ => false
  answer := won.answer

def status (st : LockStatus) : Milestone := ⟨fun _ => false, fun answer => answer = .inl st⟩

end Milestone

open Milestone (begun won freed ending)

theorem Milestone.met_of_meets {μ : Milestone} {b : Bool} {p : Progress Call (LockStatus ⊕ Bool)}
    (h : p.Meets (fun c => μ.place c = b) (fun answer => μ.answer answer = b) fun _ => False) :
    μ.met p = b := by
  cases p with
  | going c => exact h
  | done answer => exact h
  | unwound e => exact h.elim

theorem won_met (c : Call) : won.met (c.step t l).progress = (c.takes l || won.place c) := by
  apply Milestone.met_of_meets
  cases c with
  | acquire terms a =>
    simp only [Call.step, Progress.meets_within]
    exact a.step_won terms
  | release r =>
    simp only [Call.step, Progress.meets_within]
    exact r.step_freed.imp (fun _ _ => rfl) (fun _ _ => rfl) fun _ h => h

theorem freed_met (c : Call) : freed.met (c.step t l).progress = (c.frees l || freed.place c) := by
  apply Milestone.met_of_meets
  cases c with
  | acquire terms a =>
    simp only [Call.step, Progress.meets_within]
    exact (a.step_won terms).imp (fun _ _ => rfl) (fun _ _ => rfl) fun _ h => h
  | release r =>
    simp only [Call.step, Progress.meets_within]
    exact r.step_freed

/-- No call of a general lock unwinds. -/
theorem begun_met (c : Call) : begun.met (c.step t l).progress = true := by
  apply Milestone.met_of_meets
  cases c with
  | acquire terms a =>
    simp only [Call.step, Progress.meets_within]
    exact (a.step_won terms).imp (fun _ _ => rfl) (fun _ _ => rfl) fun _ h => h
  | release r =>
    simp only [Call.step, Progress.meets_within]
    exact r.step_freed.imp (fun _ _ => rfl) (fun _ _ => rfl) fun _ h => h

theorem won_of_takes {c : Call} (h : c.takes l = true) : won.place c = false := by
  cases c with
  | acquire terms a =>
    cases a with
    | tryLock => rfl
    | retry span ticket => rfl
    | _ => cases h
  | release r => rfl

theorem freed_of_frees {c : Call} (h : c.frees l = true) : freed.place c = false := by
  cases c with
  | acquire terms a => rfl
  | release r =>
    cases r with
    | unlock => rfl
    | _ => cases h

/-- A call takes its lock once. -/
theorem won_met_toNat (c : Call) : (won.met (c.step t l).progress).toNat =
    (won.place c).toNat + (c.takes l).toNat := by
  rw [won_met]
  cases ht : c.takes l with
  | false => simp
  | true => simp [won_of_takes ht]

theorem freed_met_toNat (c : Call) : (freed.met (c.step t l).progress).toNat =
    (freed.place c).toNat + (c.frees l).toNat := by
  rw [freed_met]
  cases hf : c.frees l with
  | false => simp
  | true => simp [freed_of_frees hf]

/-- A lock that is taken was unlocked, and one that is freed was locked. -/
theorem Call.step_locked (c : Call) : (c.step t l).state.locked.toNat + (c.frees l).toNat =
    l.locked.toNat + (c.takes l).toNat := by
  cases c with
  | acquire terms a => exact a.step_locked terms
  | release r => exact r.step_locked

def noteOf : LockStatus ⊕ Bool → Option Metrics.Record
  | .inl status => some (.lockStatus status)
  | .inr _ => none

theorem Call.step_note (c : Call) :
    (c.step t l).progress.Meets
      (fun c' => Contends (c.step t l).note (ending.place c) (ending.place c'))
      (fun answer => (c.step t l).note = noteOf answer ∧
        (ending.place c = true → answer = .inl .acquired)) fun _ => False := by
  cases c with
  | acquire terms a =>
    have h := a.step_note (t := t) (l := l) terms
    simp only [Call.step, Progress.meets_within]
    refine h.imp (fun _ h => h) (fun status hs => ?_) fun _ h => h
    exact ⟨hs.1, fun ho => congrArg Sum.inl (hs.2 ho)⟩
  | release r =>
    have h := r.step_freed (t := t) (l := l)
    have hn := r.step_note (t := t) (l := l)
    simp only [Call.step, Progress.meets_within, hn]
    refine h.imp (fun _ _ => .nothing nofun) (fun _ _ => ⟨rfl, nofun⟩) fun _ h => h

end InterpreterLock.ThreadLock
