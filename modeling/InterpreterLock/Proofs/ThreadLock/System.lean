import InterpreterLock.Proofs.Parking
import InterpreterLock.Proofs.Run
import InterpreterLock.ThreadLock

/-!
# Threads at a general lock

Any number of threads acquire and release one lock, each acquire on its own terms, and any thread
may release. A waiter's deadline passes when the clock of its turn says so. The waiters may be
interrupted at any moment, and a sleeper may be woken for no reason.
-/

set_option autoImplicit false

namespace InterpreterLock.ThreadLock

open Parking (Stance Notice Lot)

def lot (l : ThreadLock) : Lot := ⟨!l.locked, l.waiters, l.event⟩

namespace Acquire

def stance : Acquire → Stance
  | .tryLock | .readClock | .enlist _ => .apart
  | .prepare _ => .trying none
  | .retry _ ticket => .trying (some ticket)
  | .checkDeadline _ ticket => .deciding ticket
  | .wait _ w => .ofWait w
  | .unlist .. => .leaving
  | .recordContention _ | .checkLocked _ | .lookForWaiters _ | .passOn _ | .recordStatus _ => .apart

def notice : Acquire → Notice
  | .prepare _ => .ticketTaken
  | .passOn _ => .signalSent
  | _ => .none

end Acquire

namespace Release

def stance : Release → Stance
  | .unlock => .apart
  | .lookForWaiters | .signal => .releasing

def notice : Release → Notice
  | .signal => .signalSent
  | _ => .none

end Release

inductive Call
  | acquire (terms : Terms) (place : Acquire)
  | release (place : Release)

namespace Call

def step (t : Turn) (l : ThreadLock) : Call → Move ThreadLock Call (LockStatus ⊕ Bool)
  | .acquire terms a =>
    let m := a.step terms t l
    ⟨m.state, m.progress.within (.acquire terms) fun status => .done (.inl status), m.note⟩
  | .release r =>
    let m := r.step t l
    ⟨m.state, m.progress.within .release fun wasLocked => .done (.inr wasLocked), m.note⟩

def stance : Call → Stance
  | .acquire _ a => a.stance
  | .release r => r.stance

def notice : Call → Notice
  | .acquire _ a => a.notice
  | .release r => r.notice

end Call

inductive Op
  | acquire (terms : Terms)
  | release

def Op.call : Op → Call
  | .acquire terms => .acquire terms .tryLock
  | .release => .release .unlock

inductive Action
  | begin (i : Ident) (op : Op)
  | step (t : Turn)
  | interrupt
  | rouse (i : Ident)

structure System where
  lock : ThreadLock
  metrics : Metrics := {}
  calls : Ident → Option Call := fun _ => none
  missed : Ident → ℕ := fun _ => 0

namespace System

def start (backend : Backend) : System := { lock := .new backend }

def stance (s : System) : Ident → Stance := Parking.standing Call.stance s.calls

def beginCall (s : System) (i : Ident) (c : Call) : System :=
  { s with calls := Function.update s.calls i (some c) }

def stepCall (s : System) (t : Turn) (c : Call) : System :=
  let m := c.step t s.lock
  { lock := m.state
    metrics := s.metrics.recordOpt m.note
    calls := Function.update s.calls t.me m.progress.next?
    missed := c.notice.missed t.me s.stance s.missed }

@[simp] theorem stepCall_missed (s : System) (t : Turn) (c : Call) :
    (s.stepCall t c).missed = c.notice.missed t.me s.stance s.missed := rfl

def act (s : System) : Action → System
  | .begin i op =>
    match s.calls i with
    | none => s.beginCall i op.call
    | some _ => s
  | .step t =>
    match s.calls t.me with
    | none => s
    | some c => s.stepCall t c
  | .interrupt => { s with lock := s.lock.interrupt }
  | .rouse i => { s with lock := { s.lock with event := s.lock.event.rouse i } }

def run (s : System) (acts : List Action) : System := acts.foldl act s

end System

end InterpreterLock.ThreadLock
