import InterpreterLock.Proofs.Gil.Rounds
import InterpreterLock.Proofs.Interpreter.Custody

/-!
# After a fork

In the child of a fork one thread is left, which makes the lock its own. The counts of the events
and of the acquisitions are what they were, and an auto-reset event may hold a signal for a thread
that is gone. Apart from retries the lock is then like a new one that the thread has just acquired.
-/

set_option autoImplicit false

namespace InterpreterLock

namespace Interpreter

open Gil (Made)

variable {mode : Mode} {backend : Backend} {patience : Duration} {t : Turn}

namespace System

theorem act_made {s : System} (a : Action) (h : Made mode backend patience s.interpreter.gil) :
    Made mode backend patience (s.act a).interpreter.gil := by
  cases a with
  | begin i op =>
    simp only [act]
    split <;> exact h
  | step t =>
    simp only [act]
    split
    · exact h
    · split
      · exact h
      · exact Call.step_made _ h
  | rouse i => exact h.rouse i
  | fork i =>
    simp only [act]
    split <;> exact h
  | arrive parent child =>
    simp only [act]
    split <;> exact h

theorem made_run {c : Config} {r : Interpreter} (hb : build c = .ok r) (acts : List Action) :
    Made c.mode c.backend c.patience ((start r).run acts).interpreter.gil := by
  have h0 : Made c.mode c.backend c.patience (start r).interpreter.gil := by
    rw [build_eq hb]
    exact Gil.made_new c.mode c.backend c.patience
  have keep : ∀ (s : System) (a : Action), Made c.mode c.backend c.patience s.interpreter.gil →
      Made c.mode c.backend c.patience (s.act a).interpreter.gil := fun _ a h => act_made a h
  exact Run.lasts keep acts (start r) h0

def emptied (s : System) : System :=
  let g := s.interpreter.gil
  { s with
    interpreter :=
      { s.interpreter with
        gil :=
          { g with
            wakeup := { g.wakeup with sleepers := [] }
            handoff := { g.handoff with sleepers := [] } } } }

def afterFork (s : System) (t : Turn) : System :=
  (s.act (.fork t.me)).emptied.run (List.replicate 6 (.step t))

def newlyHeld (mode : Mode) (backend : Backend) (patience : Duration) (t : Turn) : Gil.System :=
  (Gil.System.start mode backend patience).run (.begin t.me .acquire :: List.replicate 5 (.step t))

theorem newlyHeld_gil :
    (newlyHeld mode backend patience t).gil =
      { mode, word := 1, holder := some t.me, waiters := 0, acquisitions := 1,
        wakeup := .new backend, handoff := .new backend, patience } := by
  simp [newlyHeld, Gil.System.start, Gil.System.run, Gil.System.act, Gil.new, List.replicate,
    Gil.System.beginCall, Gil.System.stepCall, Gil.Op.call, Gil.Call.toAcquire, Gil.Call.step,
    Gil.Acquire.step, Gil.isHeldBy, Gil.tryLock, Progress.within, Progress.next?, Mode.lockedWord]

theorem newlyHeld_idle (i : Ident) : (newlyHeld mode backend patience t).calls i = none := by
  simp [newlyHeld, Gil.System.start, Gil.System.run, Gil.System.act, Gil.new, List.replicate,
    Gil.System.beginCall, Gil.System.stepCall, Gil.Op.call, Gil.Call.toAcquire, Gil.Call.step,
    Gil.Acquire.step, Gil.isHeldBy, Gil.tryLock, Progress.within, Progress.next?, Mode.lockedWord]

variable {s : System}

theorem afterFork_state (hi : s.isIdle t.me = true) :
    (s.afterFork t).interpreter.gil =
        { s.interpreter.gil with
          word := 1
          holder := some t.me
          waiters := 0
          wakeup := { s.interpreter.gil.wakeup with sleepers := [] }
          handoff := { s.interpreter.gil.handoff with sleepers := [] } } ∧
      (s.afterFork t).interpreter.bootstrap =
        ((s.interpreter.bootstrap.hear t.me (.afterFork t.me)).forgetThreads).hear t.me
          (.run t.me) ∧
      (s.afterFork t).calls t.me = none ∧
      (s.afterFork t).gone = Function.update (fun _ => true) t.me false := by
  simp [afterFork, hi, emptied, forkTo, run, act, List.replicate, stepCall, Call.toAfterFork,
    Call.step, Call.onGil, Gil.Reinit.step, Progress.next?, Mode.lockedWord, hear]

theorem afterFork_idle (hi : s.isIdle t.me = true) (i : Ident) :
    (s.afterFork t).atLock.calls i = none := by
  obtain ⟨-, -, hcalls, hgone⟩ := afterFork_state hi
  by_cases hi : i = t.me
  · simp [atLock, hi, hcalls]
  · simp [atLock, hgone, hi]

/-- The registry of the child has the entry of its thread, if it had one. -/
theorem afterFork_registry (hi : s.isIdle t.me = true) (col : Collector)
    (hc : s.interpreter.bootstrap.collector = some col) :
    ∃ col', (s.afterFork t).interpreter.bootstrap.collector = some col' ∧
      ∀ j, col'.registry.get? j =
        if j = t.me then (col.registry.get? j).map fun e => { e with runs := e.runs + 1 }
        else none := by
  obtain ⟨-, hboot, -⟩ := afterFork_state hi
  refine ⟨(col.hear t.me (.afterFork t.me)).hear t.me (.run t.me), ?_, fun j => ?_⟩
  · simp [hboot, Bootstrap.hear, Bootstrap.forgetThreads, hc]
  · simp only [Collector.hear, Registry.hear, Registry.get?, Table.get?_modify]
    by_cases hj : j = t.me
    · simp [hj, Table.get?_retain_self]
    · simp [hj, Table.get?_retain_of_ne _ hj]

end System

end Interpreter

namespace Signals

variable {backend : Backend} {s : Signals}

/-- An event that was never interrupted is a new one, with a signal perhaps, grown older. -/
theorem IsOf.eq_shift (h : s.IsOf backend) :
    s = ((Event.new backend).signals.setPending s.isPending).shift s.ticket.signals := by
  cases backend with
  | posix =>
    cases s with
    | counting n i =>
      have hi : i = 0 := h
      simp [Event.new, setPending, shift, ticket, hi]
    | autoReset p n => cases h
  | windows =>
    cases s with
    | counting n i => cases h
    | autoReset p n => simp [Event.new, setPending, shift, ticket, isPending]

end Signals

namespace Interpreter.System

open Gil (Made)
open Gil.System (Follows Ages)

variable {mode : Mode} {backend : Backend} {patience : Duration} {t : Turn} {s : System}

theorem afterFork_ages (hi : s.isIdle t.me = true)
    (hm : Made mode backend patience s.interpreter.gil) :
    ∃ k, Ages k
      { newlyHeld mode backend patience t with
        gil := (newlyHeld mode backend patience t).gil.setPending
          s.interpreter.gil.wakeup.signals.isPending }
      (s.afterFork t).atLock := by
  obtain ⟨hgil, -⟩ := afterFork_state hi
  have hwakeup := hm.wakeup.eq_shift
  have hhandoff := hm.handoff.eq_shift
  rw [hm.quiet] at hhandoff
  have hquiet : (Event.new backend).signals.setPending false = (Event.new backend).signals := by
    cases backend <;> rfl
  have hsleepers : (Event.new backend).sleepers = [] := by cases backend <;> rfl
  rw [hquiet] at hhandoff
  refine ⟨⟨s.interpreter.gil.wakeup.signals.ticket.signals,
    s.interpreter.gil.handoff.signals.ticket.signals,
    s.interpreter.gil.acquisitions - 1⟩, ?_, ?_⟩
  · have hcount : 1 + (s.interpreter.gil.acquisitions - 1) = s.interpreter.gil.acquisitions := by
      grind
    simp only [atLock, hgil, newlyHeld_gil, Gil.age, Gil.setPending, Event.shift, Event.setPending,
      ← hwakeup, ← hhandoff, hsleepers, hcount, hm.mode, hm.patience]
  · intro i
    rw [afterFork_idle hi, newlyHeld_idle]
    rfl

structure Renewed (s : System) (mode : Mode) (backend : Backend) (patience : Duration)
    (t : Turn) : Prop where
  word : (s.afterFork t).interpreter.gil.word = 1
  holder : (s.afterFork t).interpreter.gil.holder = some t.me
  waiters : (s.afterFork t).interpreter.gil.waiters = 0
  live : (s.afterFork t).interpreter.bootstrap.live = 0
  returned : (s.afterFork t).isIdle t.me = true
  alone : ∀ j, j ≠ t.me → (s.afterFork t).gone j = true
  registry : ∀ col, s.interpreter.bootstrap.collector = some col →
    ∃ col', (s.afterFork t).interpreter.bootstrap.collector = some col' ∧
      ∀ j, col'.registry.get? j =
        if j = t.me then (col.registry.get? j).map fun e => { e with runs := e.runs + 1 }
        else none
  simulated : ∀ as, ∃ bs,
    Follows (s.afterFork t).atLock as (newlyHeld mode backend patience t) bs
  simulates : ∀ bs, ∃ as,
    Follows (s.afterFork t).atLock as (newlyHeld mode backend patience t) bs

/-- Whatever threads, blocks without the lock and earlier forks led to the state, and whatever the
threads did that are gone. -/
theorem renewed_run {c : Config} {r : Interpreter} (hb : build c = .ok r) (acts : List Action)
    (t : Turn) (hi : ((start r).run acts).isIdle t.me = true) :
    ((start r).run acts).Renewed c.mode c.backend c.patience t := by
  obtain ⟨hgil, hboot, hcalls, hgone⟩ := afterFork_state hi
  obtain ⟨k, hages⟩ := afterFork_ages hi (made_run hb acts)
  have hnew : (newlyHeld c.mode c.backend c.patience t).gil.wakeup.signals =
      (Event.new c.backend).signals := by rw [newlyHeld_gil]
  obtain ⟨hfrom, hto⟩ := hages.follows hnew newlyHeld_idle
  refine ⟨by rw [hgil], by rw [hgil], by rw [hgil], ?_, ?_, ?_, afterFork_registry hi, hfrom,
    hto⟩
  · rw [hboot]
    rfl
  · simp [isIdle, hcalls, hgone]
  · intro j hj
    rw [hgone, Function.update_of_ne hj]

/-- The fork is made while a signal is pending for a thread that has still to wait. -/
theorem renewed_run_signaled :
    let a : Ident := ⟨1, by decide⟩
    let b : Ident := ⟨2, by decide⟩
    let steps i n : List Action := List.replicate n (.step { me := i, now := ⟨0⟩ })
    let acts := .begin a .acquire :: steps a 6 ++ .begin b .acquire :: steps b 5 ++
      .begin a .release :: steps a 5
    let c : Config := { backend := .windows }
    let r : Interpreter :=
      { gil := .new .generic .windows Gil.defaultPatience
        bootstrap := { backend := .windows, collector := some {} } }
    let s := (start r).run acts
    build c = .ok r ∧ s.isIdle a = true ∧ s.interpreter.gil.waiters = 1 ∧
      s.interpreter.gil.wakeup.signals.isPending = true ∧
      s.Renewed .generic .windows Gil.defaultPatience { me := a, now := ⟨0⟩ } :=
  ⟨rfl, by decide, by decide, by decide, renewed_run (c := { backend := .windows }) rfl _ _
    (by decide)⟩

end Interpreter.System

end InterpreterLock
