import InterpreterLock.Event
import InterpreterLock.Progress

/-!
# Waiting on an event

A wait fixes its deadline, then looks at the event; if it finds nothing it goes to sleep, and looks
again whenever it wakes. Looking and falling asleep are one step.
-/

set_option autoImplicit false

namespace InterpreterLock

inductive Wait
  | start (ticket : Ticket) (timeout : Timeout)
  | check (ticket : Ticket) (timeout : Timeout) (deadline : Option Instant)
  | asleep (ticket : Ticket) (timeout : Timeout) (deadline : Option Instant)
deriving DecidableEq

namespace Wait

def reached (now : Instant) : Option Instant → Bool
  | none => false
  | some d => d ≤ now

def step (t : Turn) (e : Event) : Wait → Event × Progress Wait WaitOutcome
  | .start ticket timeout =>
    (e, .going (.check ticket timeout (e.signals.deadline timeout t.now)))
  | .check ticket timeout deadline =>
    match e.signals.look ticket with
    | (some outcome, left) => ({ e with signals := left }, .done outcome)
    | (none, _) =>
      if timeout.isNonBlocking || reached t.now deadline then (e, .done .timedOut)
      else (e.sleep t.me, .going (.asleep ticket timeout deadline))
  | .asleep ticket timeout deadline =>
    if e.sleepers.contains t.me && !reached t.now deadline then
      (e, .going (.asleep ticket timeout deadline))
    else (e.rouse t.me, .going (.check ticket timeout deadline))

def isResting (t : Turn) (e : Event) : Wait → Bool
  | .asleep _ _ deadline => e.sleepers.contains t.me && !reached t.now deadline
  | _ => false

def deadline? : Wait → Option Instant
  | .start .. => none
  | .check _ _ d => d
  | .asleep _ _ d => d

theorem step_of_isResting (t : Turn) (e : Event) (w : Wait) (h : w.isResting t e = true) :
    w.step t e = (e, .going w) := by
  cases w <;> simp_all [isResting, step]

end Wait

end InterpreterLock
