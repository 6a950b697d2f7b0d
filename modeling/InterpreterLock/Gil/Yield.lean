import InterpreterLock.Gil.Acquire
import InterpreterLock.Gil.Release

/-!
# Yielding the interpreter lock

With no waiter a yield does nothing. Otherwise the holder notes how often the lock has been taken,
releases it, and waits until somebody has taken it since, until no waiter is left, or until its
patience is over; then it competes for the lock like any other thread. The answer says whether the
lock was given up at all.
-/

set_option autoImplicit false

namespace InterpreterLock.Gil

structure Watch where
  before : UInt64
  deadline : Instant
deriving DecidableEq

inductive Yield
  | checkHolder
  | record
  | lookForWaiters
  | readCount
  | prepare (before : UInt64)
  | release (before : UInt64) (ticket : Ticket) (inner : Release)
  | setDeadline (before : UInt64) (ticket : Ticket)
  | compareCount (watch : Watch) (ticket : Ticket)
  | recountWaiters (watch : Watch) (ticket : Ticket)
  | readClock (watch : Watch) (ticket : Ticket)
  | wait (watch : Watch) (wait : Wait)
  | renew (watch : Watch)
  | recordHandoff (completed : Bool)
  | acquire (inner : Acquire)
deriving DecidableEq

namespace Yield

def step (t : Turn) (g : Gil) : Yield → Move Gil Yield Bool
  | .checkHolder =>
    if g.isHeldBy t.me then ⟨g, .going .record, none⟩
    else ⟨g, .unwound (.violation .yieldedUnheld), none⟩
  | .record => ⟨g, .going .lookForWaiters, some .yielded⟩
  | .lookForWaiters =>
    if g.waiters = 0 then ⟨g, .done false, none⟩ else ⟨g, .going .readCount, none⟩
  | .readCount => ⟨g, .going (.prepare g.acquisitions), none⟩
  | .prepare before => ⟨g, .going (.release before g.handoff.prepare .checkHolder), none⟩
  | .release before ticket inner =>
    let m := inner.step t g
    ⟨m.state, m.progress.within (.release before ticket) fun _ =>
      .going (.setDeadline before ticket), m.note⟩
  | .setDeadline before ticket =>
    match t.now.add? g.patience with
    | some deadline => ⟨g, .going (.compareCount ⟨before, deadline⟩ ticket), none⟩
    | none => ⟨g, .unwound .clockOverflow, none⟩
  | .compareCount watch ticket =>
    if g.acquisitions ≠ watch.before then ⟨g, .going (.recordHandoff true), none⟩
    else ⟨g, .going (.recountWaiters watch ticket), none⟩
  | .recountWaiters watch ticket =>
    if g.waiters = 0 then ⟨g, .going (.recordHandoff false), none⟩
    else ⟨g, .going (.readClock watch ticket), none⟩
  | .readClock watch ticket =>
    if watch.deadline ≤ t.now then ⟨g, .going (.recordHandoff false), none⟩
    else
      ⟨g, .going (.wait watch (.start ticket (.ofDuration (watch.deadline.since t.now)))), none⟩
  | .wait watch w =>
    let (handoff, p) := w.step t g.handoff
    ⟨{ g with handoff }, p.within (.wait watch) fun _ => .going (.renew watch), none⟩
  | .renew watch => ⟨g, .going (.compareCount watch g.handoff.prepare), none⟩
  | .recordHandoff completed => ⟨g, .going (.acquire .checkHolder), some (.handoff completed)⟩
  | .acquire inner =>
    let m := inner.step t g
    ⟨m.state, m.progress.within .acquire fun _ => .done true, m.note⟩

def isResting (t : Turn) (g : Gil) : Yield → Bool
  | .wait _ w => w.isResting t g.handoff
  | .acquire inner => inner.isResting t g
  | _ => false

def deadline? : Yield → Option Instant
  | .wait _ w => w.deadline?
  | .acquire inner => inner.deadline?
  | _ => none

end Yield

end InterpreterLock.Gil
