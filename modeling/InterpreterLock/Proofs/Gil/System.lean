import InterpreterLock.Gil.Call
import InterpreterLock.Proofs.Parking
import InterpreterLock.Proofs.Run

/-!
# Threads at the interpreter lock

Any number of threads, one for each ident, call one lock. A thread that is in no call may begin
one, a thread in a call takes its steps in any turns, and a sleeper may be woken for no reason. A
block without the lock is entered by a release and left by an acquire, whatever its body calls in
between and however it ends; a thread that leaves without having entered only adds runs.

A state also remembers of each thread whether it has taken the lock word and not freed it since,
and how many wakeup signals it has missed since it took its ticket.
-/

set_option autoImplicit false

namespace InterpreterLock.Gil

open Parking (Stance Notice Lot)

def lot (g : Gil) : Lot := ⟨g.word == Mode.freeWord, g.waiters, g.wakeup⟩

namespace Acquire

def stance : Acquire → Stance
  | .checkHolder | .tryWord | .readClock | .enlist _ => .apart
  | .prepare _ => .trying none
  | .retry _ ticket => .trying (some ticket)
  | .wait _ w => .ofWait w
  | .unlist _ => .leaving
  | .setHolder _ | .count _ | .announce _ | .record _ => .apart

def notice : Acquire → Notice
  | .prepare _ => .ticketTaken
  | _ => .none

def takes (g : Gil) : Acquire → Bool
  | .tryWord | .retry .. => g.word == Mode.freeWord
  | _ => false

end Acquire

namespace Release

def stance : Release → Stance
  | .checkHolder | .clearHolder | .clearWord => .apart
  | .lookForWaiters | .signal => .releasing

def notice : Release → Notice
  | .signal => .signalSent
  | _ => .none

def frees : Release → Bool
  | .clearWord => true
  | _ => false

end Release

namespace Yield

/-- A yielder waits on another event than those that contend. -/
def stance : Yield → Stance
  | .release _ _ r => r.stance
  | .acquire a => a.stance
  | _ => .apart

def notice : Yield → Notice
  | .release _ _ r => r.notice
  | .acquire a => a.notice
  | _ => .none

def takes (g : Gil) : Yield → Bool
  | .acquire a => a.takes g
  | _ => false

def frees : Yield → Bool
  | .release _ _ r => r.frees
  | _ => false

end Yield

namespace Call

def stance : Call → Stance
  | .acquire a => a.stance
  | .release r => r.stance
  | .yield y => y.stance
  | .reinit _ | .store _ => .apart

def notice : Call → Notice
  | .acquire a => a.notice
  | .release r => r.notice
  | .yield y => y.notice
  | .reinit _ | .store _ => .none

def takes (g : Gil) : Call → Bool
  | .acquire a => a.takes g
  | .yield y => y.takes g
  | .release _ | .reinit _ | .store _ => false

def frees : Call → Bool
  | .release r => r.frees
  | .yield y => y.frees
  | .acquire _ | .reinit _ | .store _ => false

end Call

inductive Op
  | acquire
  | release
  | yield
  | enter
  | leave
  | reinit
  | store (word : Int)
deriving DecidableEq

namespace Op

def call : Op → Call
  | .acquire | .leave => .toAcquire
  | .release | .enter => .toRelease
  | .yield => .toYield
  | .reinit => .toReinit
  | .store word => .store word

def isOrdinary : Op → Bool
  | .reinit | .store _ => false
  | _ => true

theorem call_cases {op : Op} (ho : op.isOrdinary = true) :
    op.call = .toAcquire ∨ op.call = .toRelease ∨ op.call = .toYield := by
  cases op with
  | acquire => exact .inl rfl
  | leave => exact .inl rfl
  | release => exact .inr (.inl rfl)
  | enter => exact .inr (.inl rfl)
  | yield => exact .inr (.inr rfl)
  | reinit => cases ho
  | store word => cases ho

end Op

inductive Action
  | begin (i : Ident) (op : Op)
  | step (t : Turn)
  | rouse (i : Ident)

def Action.isOrdinary : Action → Bool
  | .begin _ op => op.isOrdinary
  | _ => true

structure System where
  gil : Gil
  metrics : Metrics := {}
  calls : Ident → Option Call := fun _ => none
  /-- The thread has taken the word and not freed it since. -/
  inside : Ident → Bool := fun _ => false
  missed : Ident → ℕ := fun _ => 0

namespace System

def start (mode : Mode) (backend : Backend) (patience : Duration) : System :=
  { gil := .new mode backend patience }

def stance (s : System) : Ident → Stance := Parking.standing Call.stance s.calls

def beginCall (s : System) (i : Ident) (c : Call) : System :=
  { s with calls := Function.update s.calls i (some c) }

def stepCall (s : System) (t : Turn) (c : Call) : System :=
  let m := c.step t s.gil
  { gil := m.state
    metrics := s.metrics.recordOpt m.note
    calls := Function.update s.calls t.me m.progress.next?
    inside := Function.update s.inside t.me (c.takes s.gil || s.inside t.me && !c.frees)
    missed := c.notice.missed t.me s.stance s.missed }

section

variable (s : System) (t : Turn) (c : Call)

@[simp] theorem beginCall_calls (i : Ident) :
    (s.beginCall i c).calls = Function.update s.calls i (some c) := rfl

@[simp] theorem stepCall_gil : (s.stepCall t c).gil = (c.step t s.gil).state := rfl

@[simp] theorem stepCall_calls :
    (s.stepCall t c).calls = Function.update s.calls t.me (c.step t s.gil).progress.next? := rfl

@[simp] theorem stepCall_inside :
    (s.stepCall t c).inside =
      Function.update s.inside t.me (c.takes s.gil || s.inside t.me && !c.frees) := rfl

@[simp] theorem stepCall_missed :
    (s.stepCall t c).missed = c.notice.missed t.me s.stance s.missed := rfl

end

def act (s : System) : Action → System
  | .begin i op =>
    match s.calls i with
    | none => s.beginCall i op.call
    | some _ => s
  | .step t =>
    match s.calls t.me with
    | none => s
    | some c => s.stepCall t c
  | .rouse i =>
    { s with
      gil := { s.gil with wakeup := s.gil.wakeup.rouse i, handoff := s.gil.handoff.rouse i } }

def run (s : System) (acts : List Action) : System := acts.foldl act s

end System

end InterpreterLock.Gil
