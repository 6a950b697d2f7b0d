import InterpreterLock.Proofs.Event.Signals
import InterpreterLock.Proofs.Gil.System
import InterpreterLock.Proofs.Progress

/-!
# What a lock keeps from when it was made

Mode and patience stay. The events of a lock are never interrupted, and a yielder is woken by
broadcasts only: so no interruption is counted, and no single signal is pending for the yielders.
-/

set_option autoImplicit false

namespace InterpreterLock

namespace Gil

theorem eq_of_tryLock {g g' : Gil} (h : g.tryLock = .ok (some g')) :
    g' = { g with word := g.mode.lockedWord } := by
  unfold tryLock at h
  split at h
  · cases h
    rfl
  · split at h <;> cases h

structure Made (mode : Mode) (backend : Backend) (patience : Duration) (g : Gil) : Prop where
  mode : g.mode = mode
  patience : g.patience = patience
  wakeup : g.wakeup.signals.IsOf backend
  handoff : g.handoff.signals.IsOf backend
  quiet : g.handoff.signals.isPending = false

theorem made_new (mode : Mode) (backend : Backend) (patience : Duration) :
    Made mode backend patience (.new mode backend patience) where
  mode := rfl
  patience := rfl
  wakeup := by cases backend <;> trivial
  handoff := by cases backend <;> trivial
  quiet := by cases backend <;> rfl

variable {mode : Mode} {backend : Backend} {patience : Duration} {t : Turn} {g : Gil}

theorem Made.tryLock (h : Made mode backend patience g) {g' : Gil}
    (ht : g.tryLock = .ok (some g')) : Made mode backend patience g' := by
  rw [eq_of_tryLock ht]
  exact ⟨h.mode, h.patience, h.wakeup, h.handoff, h.quiet⟩

theorem Acquire.step_made (a : Acquire) (h : Made mode backend patience g) :
    Made mode backend patience (a.step t g).state := by
  cases a with
  | checkHolder =>
    simp only [step]
    split <;> exact h
  | tryWord =>
    simp only [step]
    split
    · exact h.tryLock ‹_›
    · exact h
    · exact h
  | retry start ticket =>
    simp only [step]
    split
    · exact h.tryLock ‹_›
    · exact h
    · exact h
  | wait start w =>
    refine ⟨h.mode, h.patience, ?_, h.handoff, h.quiet⟩
    rcases w.step_signals t g.wakeup with hs | ⟨ticket, hs⟩
    · simp only [step, hs]
      exact h.wakeup
    · simp only [step, hs]
      exact h.wakeup.look ticket
  | announce start =>
    refine ⟨h.mode, h.patience, h.wakeup, h.handoff.afterSignalAll, ?_⟩
    exact Signals.isPending_afterSignalAll.trans h.quiet
  | count route => cases route <;> exact ⟨h.mode, h.patience, h.wakeup, h.handoff, h.quiet⟩
  | record route => cases route <;> exact h
  | _ => exact ⟨h.mode, h.patience, h.wakeup, h.handoff, h.quiet⟩

theorem Release.step_made (r : Release) (h : Made mode backend patience g) :
    Made mode backend patience (r.step t g).state := by
  cases r with
  | clearHolder => exact ⟨h.mode, h.patience, h.wakeup, h.handoff, h.quiet⟩
  | signal => exact ⟨h.mode, h.patience, h.wakeup.afterSignalOne, h.handoff, h.quiet⟩
  | clearWord =>
    simp only [step]
    split <;> exact ⟨h.mode, h.patience, h.wakeup, h.handoff, h.quiet⟩
  | _ =>
    simp only [step]
    split <;> exact h

theorem Yield.step_made (y : Yield) (h : Made mode backend patience g) :
    Made mode backend patience (y.step t g).state := by
  cases y with
  | release before ticket r => exact r.step_made h
  | acquire a => exact a.step_made h
  | wait watch w =>
    rcases w.step_signals t g.handoff with hs | ⟨ticket, hs⟩
    · refine ⟨h.mode, h.patience, h.wakeup, ?_, ?_⟩
      · simp only [step, hs]
        exact h.handoff
      · simp only [step, hs]
        exact h.quiet
    · refine ⟨h.mode, h.patience, h.wakeup, ?_, ?_⟩
      · simp only [step, hs]
        exact h.handoff.look ticket
      · simp only [step, hs]
        exact Signals.isPending_look h.quiet ticket
  | record => exact h
  | readCount => exact h
  | prepare before => exact h
  | renew watch => exact h
  | recordHandoff completed => exact h
  | _ =>
    simp only [step]
    split <;> exact h

theorem Reinit.step_made (r : Reinit) (h : Made mode backend patience g) :
    Made mode backend patience (r.step t g).state := by
  cases r <;> exact ⟨h.mode, h.patience, h.wakeup, h.handoff, h.quiet⟩

theorem Call.step_made (c : Call) (h : Made mode backend patience g) :
    Made mode backend patience (c.step t g).state := by
  cases c with
  | acquire a => exact a.step_made h
  | release r => exact r.step_made h
  | yield y => exact y.step_made h
  | reinit r => exact r.step_made h
  | store word => exact ⟨h.mode, h.patience, h.wakeup, h.handoff, h.quiet⟩

theorem Made.rouse (h : Made mode backend patience g) (i : Ident) :
    Made mode backend patience
      { g with wakeup := g.wakeup.rouse i, handoff := g.handoff.rouse i } :=
  ⟨h.mode, h.patience, h.wakeup, h.handoff, h.quiet⟩

namespace System

theorem act_made {s : System} (a : Action) (h : Made mode backend patience s.gil) :
    Made mode backend patience (s.act a).gil := by
  cases a with
  | begin i op => cases hc : s.calls i <;> simpa [act, hc, beginCall] using h
  | rouse i => exact h.rouse i
  | step t =>
    cases hc : s.calls t.me with
    | none => simpa [act, hc] using h
    | some c =>
      simp only [act, hc, stepCall_gil]
      exact c.step_made h

theorem made_run (mode : Mode) (backend : Backend) (patience : Duration) (acts : List Action) :
    Made mode backend patience ((start mode backend patience).run acts).gil := by
  have keep : ∀ (s : System) (a : Action), Made mode backend patience s.gil →
      Made mode backend patience (s.act a).gil := fun _ a h => act_made a h
  exact Run.lasts keep acts (start mode backend patience) (made_new mode backend patience)

theorem run_patience (mode : Mode) (backend : Backend) (patience : Duration)
    (acts : List Action) : ((start mode backend patience).run acts).gil.patience = patience :=
  (made_run mode backend patience acts).patience

end System

end Gil

end InterpreterLock
