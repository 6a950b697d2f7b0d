import InterpreterLock.Event.Wait
import InterpreterLock.Gil

/-!
# Acquiring the interpreter lock

A free lock is taken by one compare-and-swap. A thread that finds it locked enlists as a waiter and
then takes a ticket, retries, and waits, over and over; once it has the lock it tells a yielder that
somebody else got in. The waiter is counted before its retry that decides whether it sleeps, and a
releaser clears the word before it looks at the count, so one of the two sees the other.
-/

set_option autoImplicit false

namespace InterpreterLock.Gil

inductive Route
  | fast
  | contended (start : Instant)
deriving DecidableEq

inductive Acquire
  | checkHolder
  | tryWord
  | readClock
  | enlist (start : Instant)
  | prepare (start : Instant)
  | retry (start : Instant) (ticket : Ticket)
  | wait (start : Instant) (wait : Wait)
  | unlist (start : Instant)
  | setHolder (route : Route)
  | count (route : Route)
  | announce (start : Instant)
  | record (route : Route)
deriving DecidableEq

namespace Acquire

def step (t : Turn) (g : Gil) : Acquire → Move Gil Acquire Unit
  | .checkHolder =>
    if g.isHeldBy t.me then ⟨g, .unwound (.violation (.reentered t.me)), none⟩
    else ⟨g, .going .tryWord, none⟩
  | .tryWord =>
    match g.tryLock with
    | .ok (some g') => ⟨g', .going (.setHolder .fast), none⟩
    | .ok none => ⟨g, .going .readClock, none⟩
    | .error v => ⟨g, .unwound (.violation v), none⟩
  | .readClock => ⟨g, .going (.enlist t.now), none⟩
  | .enlist start => ⟨{ g with waiters := g.waiters + 1 }, .going (.prepare start), none⟩
  | .prepare start => ⟨g, .going (.retry start g.wakeup.prepare), none⟩
  | .retry start ticket =>
    match g.tryLock with
    | .ok (some g') => ⟨g', .going (.unlist start), none⟩
    | .ok none => ⟨g, .going (.wait start (.start ticket .infinite)), none⟩
    | .error v => ⟨g, .unwound (.violation v), none⟩
  | .wait start w =>
    let (wakeup, p) := w.step t g.wakeup
    ⟨{ g with wakeup }, p.within (.wait start) fun _ => .going (.prepare start), none⟩
  | .unlist start =>
    ⟨{ g with waiters := g.waiters - 1 }, .going (.setHolder (.contended start)), none⟩
  | .setHolder route => ⟨{ g with holder := some t.me }, .going (.count route), none⟩
  | .count .fast => ⟨{ g with acquisitions := g.acquisitions + 1 }, .going (.record .fast), none⟩
  | .count (.contended start) =>
    ⟨{ g with acquisitions := g.acquisitions + 1 }, .going (.announce start), none⟩
  | .announce start =>
    ⟨{ g with handoff := g.handoff.signalAll }, .going (.record (.contended start)), none⟩
  | .record .fast => ⟨g, .done (), some .fastAcquire⟩
  | .record (.contended start) => ⟨g, .done (), some (.slowAcquire (t.now.since start))⟩

def isResting (t : Turn) (g : Gil) : Acquire → Bool
  | .wait _ w => w.isResting t g.wakeup
  | _ => false

def deadline? : Acquire → Option Instant
  | .wait _ w => w.deadline?
  | _ => none

end Acquire

end InterpreterLock.Gil
