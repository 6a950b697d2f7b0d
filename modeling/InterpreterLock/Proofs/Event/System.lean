import InterpreterLock.Proofs.Event.Signals
import InterpreterLock.Proofs.Parking
import InterpreterLock.Proofs.Run

/-!
# Threads at an event

Any number of threads wait on one event, each for as long as it likes, with a ticket that was taken
before, by whomever. Signals and interruptions are sent at any moment, and a sleeper may be woken
for no reason.

Beside the event a state keeps what the event was sent so far. Every ticket has this from the moment
when it was taken, and every wait that has returned from the moment when it did.
-/

set_option autoImplicit false

namespace InterpreterLock

namespace Event

structure Sent where
  ones : ℕ := 0
  alls : ℕ := 0
  interrupts : ℕ := 0

structure Issued where
  ticket : Ticket
  sent : Sent

structure Stay where
  issued : Issued
  timeout : Timeout
  place : Wait
  hasSlept : Bool := false

structure Return where
  thread : Ident
  issued : Issued
  timeout : Timeout
  outcome : WaitOutcome
  sent : Sent

inductive Action
  | prepare
  | wait (i : Ident) (n : ℕ) (timeout : Timeout)
  | step (t : Turn)
  | signalOne (pick : ℕ)
  | signalAll
  | interrupt
  | rouse (i : Ident)

def Action.isStepOf (i : Ident) : Action → Bool
  | .step t => t.me = i
  | _ => false

structure System where
  event : Event
  sent : Sent := {}
  issued : List Issued := []
  stays : Ident → Option Stay := fun _ => none
  returns : List Return := []

namespace System

variable (s : System)

def start (backend : Backend) : System := { event := .new backend }

def enter (i : Ident) (p : Issued) (timeout : Timeout) : System :=
  let y : Stay := { issued := p, timeout := timeout, place := .start p.ticket timeout }
  { s with stays := Function.update s.stays i (some y) }

def move (i : Ident) (e : Event) (y : Stay) : System :=
  { s with event := e, stays := Function.update s.stays i (some y) }

def leave (i : Ident) (e : Event) (y : Stay) (o : WaitOutcome) : System :=
  { s with
    event := e
    stays := Function.update s.stays i none
    returns :=
      { thread := i, issued := y.issued, timeout := y.timeout, outcome := o, sent := s.sent } ::
        s.returns }

def stepWait (t : Turn) (y : Stay) : System :=
  match y.place.step t s.event with
  | (e, .going w) => s.move t.me e { y with place := w, hasSlept := y.hasSlept || w.isAsleep }
  | (e, .done o) => s.leave t.me e y o
  | (_, .unwound _) => s

def act : Action → System
  | .prepare => { s with issued := s.issued ++ [⟨s.event.prepare, s.sent⟩] }
  | .wait i n timeout =>
    match s.stays i, s.issued[n]? with
    | none, some p => s.enter i p timeout
    | _, _ => s
  | .step t =>
    match s.stays t.me with
    | none => s
    | some y => s.stepWait t y
  | .signalOne pick =>
    { s with event := s.event.signalOne pick, sent := { s.sent with ones := s.sent.ones + 1 } }
  | .signalAll =>
    { s with event := s.event.signalAll, sent := { s.sent with alls := s.sent.alls + 1 } }
  | .interrupt =>
    { s with
      event := s.event.interrupt
      sent := { s.sent with interrupts := s.sent.interrupts + 1 } }
  | .rouse i => { s with event := s.event.rouse i }

def run (acts : List Action) : System := acts.foldl act s

def stance : Ident → Parking.Stance := Parking.standing (fun y : Stay => .ofWait y.place) s.stays

section

variable (p : Issued) (timeout : Timeout) (e : Event) (y : Stay) (o : WaitOutcome)
  {s : System} {i j : Ident}

@[simp]
theorem stays_enter_of_ne (hj : j ≠ i) : (s.enter i p timeout).stays j = s.stays j :=
  Function.update_of_ne hj ..

@[simp]
theorem stays_move_self : (s.move i e y).stays i = some y := Function.update_self ..

@[simp]
theorem stays_move_of_ne (hj : j ≠ i) : (s.move i e y).stays j = s.stays j :=
  Function.update_of_ne hj ..

@[simp]
theorem stays_leave_of_ne (hj : j ≠ i) : (s.leave i e y o).stays j = s.stays j :=
  Function.update_of_ne hj ..

theorem stance_of_none (hi : s.stays i = none) : s.stance i = .apart := by
  simp [stance, Parking.standing, hi]

theorem stance_of_stays {y : Stay} (hi : s.stays i = some y) : s.stance i = .ofWait y.place := by
  simp [stance, Parking.standing, hi]

theorem stance_enter :
    (s.enter i p timeout).stance = Function.update s.stance i (.waiting p.ticket false) :=
  Parking.standing_update ..

theorem stance_move :
    (s.move i e y).stance = Function.update s.stance i (.ofWait y.place) :=
  Parking.standing_update ..

theorem stance_leave : (s.leave i e y o).stance = Function.update s.stance i .apart :=
  Parking.standing_update ..

end

inductive Acts : Action → System → Prop
  | prepare : Acts .prepare { s with issued := s.issued ++ [⟨s.event.prepare, s.sent⟩] }
  | refuse (i : Ident) (n : ℕ) (timeout : Timeout) : Acts (.wait i n timeout) s
  | enter (i : Ident) (n : ℕ) (timeout : Timeout) (p : Issued) (hi : s.stays i = none)
      (hp : p ∈ s.issued) : Acts (.wait i n timeout) (s.enter i p timeout)
  | idle (t : Turn) (ht : s.stays t.me = none) : Acts (.step t) s
  | begin (t : Turn) (y : Stay) (ticket : Ticket) (timeout : Timeout) (ht : s.stays t.me = some y)
      (hy : y.place = .start ticket timeout) :
      Acts (.step t) (s.move t.me s.event
        { y with place := .check ticket timeout (s.event.signals.deadline timeout t.now) })
  | hear (t : Turn) (y : Stay) (ticket : Ticket) (timeout : Timeout) (deadline : Option Instant)
      (o : WaitOutcome) (left : Signals) (ht : s.stays t.me = some y)
      (hy : y.place = .check ticket timeout deadline)
      (hl : s.event.signals.look ticket = (some o, left)) :
      Acts (.step t) (s.leave t.me { s.event with signals := left } y o)
  | expire (t : Turn) (y : Stay) (ticket : Ticket) (timeout : Timeout) (deadline : Option Instant)
      (ht : s.stays t.me = some y) (hy : y.place = .check ticket timeout deadline)
      (hl : (s.event.signals.look ticket).1 = none)
      (hd : (timeout.isNonBlocking || Wait.reached t.now deadline) = true) :
      Acts (.step t) (s.leave t.me s.event y .timedOut)
  | sleep (t : Turn) (y : Stay) (ticket : Ticket) (timeout : Timeout) (deadline : Option Instant)
      (ht : s.stays t.me = some y) (hy : y.place = .check ticket timeout deadline)
      (hl : (s.event.signals.look ticket).1 = none) :
      Acts (.step t) (s.move t.me (s.event.sleep t.me)
        { y with place := .asleep ticket timeout deadline, hasSlept := true })
  | rest (t : Turn) (y : Stay) (ht : s.stays t.me = some y) (hy : y.place.isAsleep = true)
      (hm : t.me ∈ s.event.sleepers) :
      Acts (.step t) (s.move t.me s.event { y with hasSlept := true })
  | wake (t : Turn) (y : Stay) (ticket : Ticket) (timeout : Timeout) (deadline : Option Instant)
      (ht : s.stays t.me = some y) (hy : y.place = .asleep ticket timeout deadline) :
      Acts (.step t) (s.move t.me (s.event.rouse t.me)
        { y with place := .check ticket timeout deadline })
  | signalOne (pick : ℕ) : Acts (.signalOne pick)
      { s with event := s.event.signalOne pick, sent := { s.sent with ones := s.sent.ones + 1 } }
  | signalAll : Acts .signalAll
      { s with event := s.event.signalAll, sent := { s.sent with alls := s.sent.alls + 1 } }
  | interrupt : Acts .interrupt
      { s with
        event := s.event.interrupt
        sent := { s.sent with interrupts := s.sent.interrupts + 1 } }
  | rouse (i : Ident) : Acts (.rouse i) { s with event := s.event.rouse i }

variable {s} {t : Turn} {y : Stay} {e : Event}

theorem stepWait_going {w : Wait} (h : y.place.step t s.event = (e, .going w)) :
    s.stepWait t y =
      s.move t.me e { y with place := w, hasSlept := y.hasSlept || w.isAsleep } := by
  simp only [stepWait, h]

theorem stepWait_done {o : WaitOutcome} (h : y.place.step t s.event = (e, .done o)) :
    s.stepWait t y = s.leave t.me e y o := by
  simp only [stepWait, h]

theorem acts_step (ht : s.stays t.me = some y) : s.Acts (.step t) (s.stepWait t y) := by
  cases hy : y.place with
  | start ticket timeout =>
    have hstep : y.place.step t s.event =
        (s.event, .going (.check ticket timeout (s.event.signals.deadline timeout t.now))) := by
      rw [hy]
      rfl
    rw [stepWait_going hstep, Wait.isAsleep, Bool.or_false]
    exact .begin t y ticket timeout ht hy
  | check ticket timeout deadline =>
    cases hl : s.event.signals.look ticket with
    | mk found left =>
      cases found with
      | some o =>
        have hstep : y.place.step t s.event = ({ s.event with signals := left }, .done o) := by
          simp only [hy, Wait.step, hl]
        rw [stepWait_done hstep]
        exact .hear t y ticket timeout deadline o left ht hy hl
      | none =>
        have hnone : (s.event.signals.look ticket).1 = none := by rw [hl]
        by_cases hd : (timeout.isNonBlocking || Wait.reached t.now deadline) = true
        · have hstep : y.place.step t s.event = (s.event, .done .timedOut) := by
            simp only [hy, Wait.step, hl, hd, if_true]
          rw [stepWait_done hstep]
          exact .expire t y ticket timeout deadline ht hy hnone hd
        · have hstep : y.place.step t s.event =
              (s.event.sleep t.me, .going (.asleep ticket timeout deadline)) := by
            simp only [hy, Wait.step, hl, hd, if_false, Bool.false_eq_true]
          rw [stepWait_going hstep, Wait.isAsleep, Bool.or_true]
          exact .sleep t y ticket timeout deadline ht hy hnone
  | asleep ticket timeout deadline =>
    by_cases hr : (s.event.sleepers.contains t.me && !Wait.reached t.now deadline) = true
    · have hstep : y.place.step t s.event = (s.event, .going y.place) := by
        simp only [hy, Wait.step, hr, if_true]
      have hasleep : y.place.isAsleep = true := by rw [hy, Wait.isAsleep]
      have hm : t.me ∈ s.event.sleepers :=
        List.contains_iff_mem.mp (Bool.and_eq_true_iff.mp hr).1
      rw [stepWait_going hstep, hasleep, Bool.or_true]
      exact .rest t y ht hasleep hm
    · have hstep : y.place.step t s.event =
          (s.event.rouse t.me, .going (.check ticket timeout deadline)) := by
        simp only [hy, Wait.step, hr, if_false, Bool.false_eq_true]
      rw [stepWait_going hstep, Wait.isAsleep, Bool.or_false]
      exact .wake t y ticket timeout deadline ht hy

theorem act_cases (s : System) (a : Action) : s.Acts a (s.act a) := by
  cases a with
  | prepare => exact .prepare
  | wait i n timeout =>
    cases hi : s.stays i with
    | some y => simpa [act, hi] using Acts.refuse i n timeout
    | none =>
      cases hp : s.issued[n]? with
      | none => simpa [act, hi, hp] using Acts.refuse i n timeout
      | some p =>
        simpa [act, hi, hp] using Acts.enter i n timeout p hi (List.mem_of_getElem? hp)
  | step t =>
    cases ht : s.stays t.me with
    | none => simpa [act, ht] using Acts.idle t ht
    | some y => simpa [act, ht] using acts_step ht
  | signalOne pick => exact .signalOne pick
  | signalAll => exact .signalAll
  | interrupt => exact .interrupt
  | rouse i => exact .rouse i

end System

end Event

end InterpreterLock
