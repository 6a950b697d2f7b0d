import InterpreterLock.Gil.Call
import InterpreterLock.Interpreter

/-!
# Calls of an interpreter

An interpreter tells its collector when a thread has taken the lock: after an acquire, after a yield
that gave the lock up, and after a fork. A block that runs without the lock reports on every exit,
also when it could not be entered and when the lock could not be taken again.
-/

set_option autoImplicit false

namespace InterpreterLock.Interpreter

inductive Call
  | acquire (place : Gil.Acquire)
  | release (place : Gil.Release)
  | yield (place : Gil.Yield)
  | enter (place : Gil.Release)
  | leave (place : Gil.Acquire)
  | reinit (place : Gil.Reinit)
  | announceFork
  | forgetThreads
  | report (ending : Except Panic Bool)
  | beforeFork

namespace Call

def toAcquire : Call := .acquire .checkHolder

def toRelease : Call := .release .checkHolder

def toYield : Call := .yield .checkHolder

def toEnter : Call := .enter .checkHolder

def toLeave : Call := .leave .checkHolder

def toAfterFork : Call := .reinit .clearWaiters

def onGil {σ α : Type} (s : Interpreter) (m : Move Gil σ α) (inside : σ → Call)
    (after : α → Progress Call Bool) (cutOff : Panic → Progress Call Bool) :
    Interpreter × Progress Call Bool :=
  ({ s with gil := m.state, metrics := s.metrics.recordOpt m.note },
    match m.progress with
    | .going s => .going (inside s)
    | .done a => after a
    | .unwound p => cutOff p)

def step (t : Turn) (s : Interpreter) : Call → Interpreter × Progress Call Bool
  | .acquire a =>
    onGil s (a.step t s.gil) .acquire (fun _ => .going (.report (.ok true))) .unwound
  | .release r => onGil s (r.step t s.gil) .release (fun _ => .done false) .unwound
  | .yield y =>
    onGil s (y.step t s.gil) .yield
      (fun ran => if ran then .going (.report (.ok true)) else .done false) .unwound
  | .enter r =>
    onGil s (r.step t s.gil) .enter (fun _ => .done false) fun p => .going (.report (.error p))
  | .leave a =>
    onGil s (a.step t s.gil) .leave (fun _ => .going (.report (.ok true)))
      fun p => .going (.report (.error p))
  | .reinit r => onGil s (r.step t s.gil) .reinit (fun _ => .going .announceFork) .unwound
  | .announceFork => (s.hear t.me (.afterFork t.me), .going .forgetThreads)
  | .forgetThreads =>
    ({ s with bootstrap := s.bootstrap.forgetThreads }, .going (.report (.ok true)))
  | .report ending =>
    (s.hear t.me (.run t.me),
      match ending with
      | .ok b => .done b
      | .error p => .unwound p)
  | .beforeFork => (s.hear t.me .beforeFork, .done false)

def isResting (t : Turn) (s : Interpreter) : Call → Bool
  | .acquire a | .leave a => a.isResting t s.gil
  | .yield y => y.isResting t s.gil
  | _ => false

def deadline? : Call → Option Instant
  | .acquire a | .leave a => a.deadline?
  | .yield y => y.deadline?
  | _ => none

end Call

end InterpreterLock.Interpreter
