import InterpreterLock.Proofs.Gil.System

/-!
# Locks of different age

A lock counts its wakeup signals, its handoffs and its acquisitions, and its threads keep earlier
counts to compare with. Only differences matter: add the same numbers to the counts of the lock and
to those that the threads keep, and every step is the same as before.
-/

set_option autoImplicit false

namespace InterpreterLock

namespace Progress

variable {σ σ' τ τ' α β : Type}

def image (f : σ → σ') : Progress σ α → Progress σ' α
  | .going s => .going (f s)
  | .done a => .done a
  | .unwound p => .unwound p

theorem within_image (p : Progress σ α) (f : σ → σ') (h : τ → τ') (inside : σ → τ)
    (inside' : σ' → τ') (after : α → Progress τ β) (after' : α → Progress τ' β)
    (hi : ∀ s, inside' (f s) = h (inside s)) (ha : ∀ a, after' a = (after a).image h) :
    (p.image f).within inside' after' = (p.within inside after).image h := by
  cases p with
  | going s => simp only [image, within, hi]
  | done a => exact ha a
  | unwound e => rfl

theorem next?_image (p : Progress σ α) (f : σ → σ') : (p.image f).next? = p.next?.map f := by
  cases p <;> rfl

theorem result?_image (p : Progress σ α) (f : σ → σ') : (p.image f).result? = p.result? := by
  cases p <;> rfl

end Progress

namespace Move

variable {γ γ' σ σ' α : Type}

def image (f : γ → γ') (h : σ → σ') (m : Move γ σ α) : Move γ' σ' α :=
  ⟨f m.state, m.progress.image h, m.note⟩

end Move

theorem add_succ_comm (n k : UInt64) : n + k + 1 = n + 1 + k := by
  rw [UInt64.add_assoc, UInt64.add_comm k, ← UInt64.add_assoc]

def Ticket.shift (k : UInt64) (t : Ticket) : Ticket := { t with signals := t.signals + k }

namespace Signals

def shift (k : UInt64) : Signals → Signals
  | .counting s i => .counting (s + k) i
  | .autoReset p b => .autoReset p (b + k)

variable (k : UInt64) (s : Signals)

theorem ticket_shift : (s.shift k).ticket = s.ticket.shift k := by cases s <;> rfl

theorem look_shift (t : Ticket) :
    (s.shift k).look (t.shift k) = ((s.look t).1, (s.look t).2.shift k) := by
  cases s with
  | counting n i =>
    by_cases hn : n = t.signals
    · simp only [shift, look, Ticket.shift, hn, ne_eq, not_true_eq_false, if_false]
      rfl
    · simp only [shift, look, Ticket.shift, hn, ne_eq, UInt64.add_left_inj, not_false_eq_true,
        if_true]
  | autoReset p n => cases p <;> simp only [shift, look, Ticket.shift, ne_eq, UInt64.add_left_inj]

theorem afterSignalOne_shift : (s.shift k).afterSignalOne = s.afterSignalOne.shift k := by
  cases s with
  | counting n i => simp only [shift, afterSignalOne, add_succ_comm]
  | autoReset p n => rfl

theorem afterSignalAll_shift : (s.shift k).afterSignalAll = s.afterSignalAll.shift k := by
  cases s <;> simp only [shift, afterSignalAll, add_succ_comm]

theorem deadline_shift (timeout : Timeout) (now : Instant) :
    (s.shift k).deadline timeout now = s.deadline timeout now := by cases s <;> rfl

end Signals

def Event.shift (k : UInt64) (e : Event) : Event := { e with signals := e.signals.shift k }

namespace Wait

def shift (k : UInt64) : Wait → Wait
  | .start t timeout => .start (t.shift k) timeout
  | .check t timeout deadline => .check (t.shift k) timeout deadline
  | .asleep t timeout deadline => .asleep (t.shift k) timeout deadline

theorem step_shift (k : UInt64) (t : Turn) (e : Event) (w : Wait) :
    (w.shift k).step t (e.shift k) = ((w.step t e).1.shift k, (w.step t e).2.image (shift k)) := by
  cases w with
  | start ticket timeout =>
    simp only [shift, step, Event.shift, Signals.deadline_shift]
    rfl
  | check ticket timeout deadline =>
    simp only [shift, step, Event.shift, Signals.look_shift]
    cases hl : e.signals.look ticket with
    | mk found left =>
      cases found with
      | some o => rfl
      | none =>
        by_cases hd : (timeout.isNonBlocking || reached t.now deadline) = true
        · simp only [hd, if_true]
          rfl
        · simp only [hd]
          rfl
  | asleep ticket timeout deadline =>
    by_cases hd : (e.sleepers.contains t.me && !reached t.now deadline) = true
    · simp only [shift, step, Event.shift, hd, if_true]
      rfl
    · simp only [shift, step, Event.shift, hd]
      rfl

end Wait

namespace Gil

structure Age where
  wakeup : UInt64
  handoff : UInt64
  acquisitions : UInt64

def age (k : Age) (g : Gil) : Gil :=
  { g with
    acquisitions := g.acquisitions + k.acquisitions
    wakeup := g.wakeup.shift k.wakeup
    handoff := g.handoff.shift k.handoff }

def Acquire.age (k : Age) : Acquire → Acquire
  | .retry start ticket => .retry start (ticket.shift k.wakeup)
  | .wait start w => .wait start (w.shift k.wakeup)
  | a => a

def Watch.age (k : Age) (w : Watch) : Watch := { w with before := w.before + k.acquisitions }

def Yield.age (k : Age) : Yield → Yield
  | .prepare before => .prepare (before + k.acquisitions)
  | .release before ticket r => .release (before + k.acquisitions) (ticket.shift k.handoff) r
  | .setDeadline before ticket => .setDeadline (before + k.acquisitions) (ticket.shift k.handoff)
  | .compareCount watch ticket => .compareCount (watch.age k) (ticket.shift k.handoff)
  | .recountWaiters watch ticket => .recountWaiters (watch.age k) (ticket.shift k.handoff)
  | .readClock watch ticket => .readClock (watch.age k) (ticket.shift k.handoff)
  | .wait watch w => .wait (watch.age k) (w.shift k.handoff)
  | .renew watch => .renew (watch.age k)
  | .acquire a => .acquire (a.age k)
  | y => y

def Call.age (k : Age) : Call → Call
  | .acquire a => .acquire (a.age k)
  | .yield y => .yield (y.age k)
  | c => c

variable (k : Age) (t : Turn) (g : Gil)

theorem tryLock_age :
    (g.age k).tryLock =
      match g.tryLock with
      | .ok (some g') => .ok (some (g'.age k))
      | .ok none => .ok none
      | .error v => .error v := by
  by_cases hf : g.word = Mode.freeWord
  · simp [tryLock, age, hf]
  · by_cases hv : g.mode.isValid g.word = true
    · simp [tryLock, age, hf, hv]
    · simp [tryLock, age, hf, hv]

theorem Acquire.step_age (a : Acquire) :
    (a.age k).step t (g.age k) = (a.step t g).image (Gil.age k) (Acquire.age k) := by
  cases a with
  | checkHolder =>
    by_cases hh : g.isHeldBy t.me = true
    · have hh' : (g.age k).isHeldBy t.me = true := hh
      simp only [age, step, hh, hh', if_true]
      rfl
    · have hh' : ¬(g.age k).isHeldBy t.me = true := hh
      simp only [age, step, hh, hh']
      rfl
  | tryWord =>
    simp only [age, step, tryLock_age]
    cases g.tryLock with
    | error v => rfl
    | ok o => cases o <;> rfl
  | retry start ticket =>
    simp only [age, step, tryLock_age]
    cases g.tryLock with
    | error v => rfl
    | ok o => cases o <;> rfl
  | prepare start =>
    simp only [age, step, Move.image, Progress.image, Event.prepare, Gil.age, Event.shift,
      Signals.ticket_shift]
  | wait start w =>
    simp only [age, step, Gil.age, Wait.step_shift, Move.image]
    congr 1
    exact Progress.within_image _ _ _ _ _ _ _ (fun _ => rfl) fun _ => rfl
  | count route => cases route <;> simp [age, step, Move.image, Progress.image, Gil.age,
      add_succ_comm]
  | announce start =>
    simp only [age, step, Move.image, Progress.image, Gil.age, Event.signalAll, Event.shift,
      Signals.afterSignalAll_shift]
  | record route => cases route <;> rfl
  | readClock => rfl
  | enlist start => rfl
  | unlist start => rfl
  | setHolder route => rfl

theorem Release.step_age (r : Release) :
    r.step t (g.age k) = (r.step t g).image (Gil.age k) id := by
  cases r with
  | checkHolder =>
    by_cases hh : g.isHeldBy t.me = true
    · have hh' : (g.age k).isHeldBy t.me = true := hh
      simp only [step, hh, hh', if_true]
      rfl
    · have hh' : ¬(g.age k).isHeldBy t.me = true := hh
      simp only [step, hh, hh']
      rfl
  | clearHolder => rfl
  | clearWord =>
    by_cases hl : g.isLocked = true
    · have hl' : (g.age k).isLocked = true := hl
      simp only [step, hl, hl', if_true]
      rfl
    · have hl' : ¬(g.age k).isLocked = true := hl
      simp only [step, hl, hl']
      rfl
  | lookForWaiters =>
    by_cases hw : g.waiters = 0
    · have hw' : (g.age k).waiters = 0 := hw
      simp only [step, hw, hw', if_true]
      rfl
    · have hw' : ¬(g.age k).waiters = 0 := hw
      simp only [step, hw, hw', if_false]
      rfl
  | signal =>
    simp only [step, Move.image, Progress.image, Gil.age, Event.signalOne, Event.shift,
      Signals.afterSignalOne_shift]

theorem Yield.step_age (y : Yield) :
    (y.age k).step t (g.age k) = (y.step t g).image (Gil.age k) (Yield.age k) := by
  cases y with
  | checkHolder =>
    by_cases hh : g.isHeldBy t.me = true
    · have hh' : (g.age k).isHeldBy t.me = true := hh
      simp only [age, step, hh, hh', if_true]
      rfl
    · have hh' : ¬(g.age k).isHeldBy t.me = true := hh
      simp only [age, step, hh, hh']
      rfl
  | record => rfl
  | lookForWaiters =>
    by_cases hw : g.waiters = 0
    · have hw' : (g.age k).waiters = 0 := hw
      simp only [age, step, hw, hw', if_true]
      rfl
    · have hw' : ¬(g.age k).waiters = 0 := hw
      simp only [age, step, hw, hw', if_false]
      rfl
  | readCount => rfl
  | prepare before =>
    simp only [age, step, Move.image, Progress.image, Event.prepare, Gil.age, Event.shift,
      Signals.ticket_shift]
  | release before ticket r =>
    simp only [age, step, Release.step_age, Move.image]
    congr 1
    exact Progress.within_image _ _ _ _ _ _ _ (fun _ => rfl) fun _ => rfl
  | setDeadline before ticket =>
    have hp : (g.age k).patience = g.patience := rfl
    simp only [age, step, hp]
    cases t.now.add? g.patience <;> rfl
  | compareCount watch ticket =>
    by_cases ha : g.acquisitions = watch.before
    · have ha' : (g.age k).acquisitions = (watch.age k).before := by
        simp [Gil.age, Watch.age, ha]
      simp only [age, step, ha, ha', ne_eq, not_true_eq_false, if_false]
      rfl
    · have ha' : (g.age k).acquisitions ≠ (watch.age k).before := by
        simp [Gil.age, Watch.age, ha]
      simp only [age, step, ha, ha', ne_eq, not_false_eq_true, if_true]
      rfl
  | recountWaiters watch ticket =>
    by_cases hw : g.waiters = 0
    · have hw' : (g.age k).waiters = 0 := hw
      simp only [age, step, hw, hw', if_true]
      rfl
    · have hw' : ¬(g.age k).waiters = 0 := hw
      simp only [age, step, hw, hw', if_false]
      rfl
  | readClock watch ticket =>
    have hd : (watch.age k).deadline = watch.deadline := rfl
    simp only [age, step, hd]
    split <;> rfl
  | wait watch w =>
    simp only [age, step, Gil.age, Wait.step_shift, Move.image]
    congr 1
    exact Progress.within_image _ _ _ _ _ _ _ (fun _ => rfl) fun _ => rfl
  | renew watch =>
    simp only [age, step, Move.image, Progress.image, Event.prepare, Gil.age, Event.shift,
      Signals.ticket_shift]
  | recordHandoff completed => rfl
  | acquire a =>
    simp only [age, step, Acquire.step_age, Move.image]
    congr 1
    exact Progress.within_image _ _ _ _ _ _ _ (fun _ => rfl) fun _ => rfl

theorem Call.step_age (c : Call) :
    (c.age k).step t (g.age k) = (c.step t g).image (Gil.age k) (Call.age k) := by
  cases c with
  | acquire a =>
    simp only [age, step, Acquire.step_age, Move.image]
    congr 1
    exact Progress.within_image _ _ _ _ _ _ _ (fun _ => rfl) fun _ => rfl
  | release r =>
    simp only [age, step, Release.step_age, Move.image]
    congr 1
    exact Progress.within_image _ _ _ _ _ _ _ (fun _ => rfl) fun _ => rfl
  | yield y =>
    simp only [age, step, Yield.step_age, Move.image]
    congr 1
    exact Progress.within_image _ _ _ _ _ _ _ (fun _ => rfl) fun _ => rfl
  | reinit r => cases r <;> rfl
  | store word => rfl

namespace System

structure Ages (k : Age) (s s' : System) : Prop where
  gil : s'.gil = s.gil.age k
  calls : ∀ i, s'.calls i = (s.calls i).map (Call.age k)

variable {k : Age} {s s' : System}

theorem Ages.act (h : Ages k s s') (a : Action) : Ages k (s.act a) (s'.act a) := by
  cases a with
  | begin i op =>
    have hop : op.call.age k = op.call := by cases op <;> rfl
    have hi := h.calls i
    cases hc : s.calls i with
    | none =>
      rw [hc, Option.map_none] at hi
      simp only [System.act, hc, hi]
      refine ⟨h.gil, fun j => ?_⟩
      by_cases hj : j = i
      · simp [hj, hop]
      · simp [hj, h.calls j]
    | some c =>
      rw [hc, Option.map_some] at hi
      simp only [System.act, hc, hi]
      exact h
  | step t =>
    have hi := h.calls t.me
    cases hc : s.calls t.me with
    | none =>
      rw [hc, Option.map_none] at hi
      simp only [System.act, hc, hi]
      exact h
    | some c =>
      rw [hc, Option.map_some] at hi
      have hm := c.step_age k t s.gil
      rw [← h.gil] at hm
      simp only [System.act, hc, hi]
      refine ⟨by rw [stepCall_gil, stepCall_gil, hm]; rfl, fun j => ?_⟩
      by_cases hj : j = t.me
      · simp [hj, hm, Move.image, Progress.next?_image]
      · simp [hj, h.calls j]
  | rouse i =>
    refine ⟨?_, h.calls⟩
    simp only [System.act, h.gil]
    rfl

end System

end Gil

end InterpreterLock
