import InterpreterLock.Event.Wait

/-!
# General locks

A lock that no thread owns: any thread may release it, and a release of an unlocked lock is an
error. Its waiters may give up after a timeout or on an interruption, and one that does passes the
wakeup on that it may have taken from another waiter.
-/

set_option autoImplicit false

namespace InterpreterLock

structure ThreadLock where
  locked : Bool := false
  waiters : UInt64 := 0
  event : Event
deriving DecidableEq

namespace ThreadLock

def new (backend : Backend) : ThreadLock := { event := .new backend }

structure Terms where
  timeout : Timeout
  interruptible : Bool
deriving DecidableEq

def Terms.blocking : Terms := ⟨.infinite, false⟩

def Terms.polling : Terms := ⟨.nonBlocking, false⟩

def Terms.timed (timeout : Timeout) : Terms := ⟨timeout, true⟩

structure Span where
  start : Instant
  deadline : Option Instant
deriving DecidableEq

inductive Acquire
  | tryLock
  | readClock
  | enlist (span : Span)
  | prepare (span : Span)
  | retry (span : Span) (ticket : Ticket)
  | checkDeadline (span : Span) (ticket : Ticket)
  | wait (span : Span) (wait : Wait)
  | unlist (span : Span) (status : LockStatus)
  | recordContention (span : Span)
  | checkLocked (status : LockStatus)
  | lookForWaiters (status : LockStatus)
  | passOn (status : LockStatus)
  | recordStatus (status : LockStatus)
deriving DecidableEq

namespace Acquire

def afterWait (terms : Terms) (span : Span) (outcome : WaitOutcome) : Acquire :=
  if outcome = .interrupted ∧ terms.interruptible then .unlist span .interrupted
  else .prepare span

def step (terms : Terms) (t : Turn) (l : ThreadLock) : Acquire → Move ThreadLock Acquire LockStatus
  | .tryLock =>
    if !l.locked then ⟨{ l with locked := true }, .going (.recordStatus .acquired), none⟩
    else if terms.timeout.isNonBlocking then ⟨l, .going (.recordStatus .failure), none⟩
    else ⟨l, .going .readClock, none⟩
  | .readClock => ⟨l, .going (.enlist ⟨t.now, terms.timeout.deadlineFrom t.now⟩), none⟩
  | .enlist span => ⟨{ l with waiters := l.waiters + 1 }, .going (.prepare span), none⟩
  | .prepare span => ⟨l, .going (.retry span l.event.prepare), none⟩
  | .retry span ticket =>
    if !l.locked then ⟨{ l with locked := true }, .going (.unlist span .acquired), none⟩
    else ⟨l, .going (.checkDeadline span ticket), none⟩
  | .checkDeadline span ticket =>
    match span.deadline with
    | none => ⟨l, .going (.wait span (.start ticket .infinite)), none⟩
    | some d =>
      if d ≤ t.now then ⟨l, .going (.unlist span .failure), none⟩
      else ⟨l, .going (.wait span (.start ticket (.ofDuration (d.since t.now)))), none⟩
  | .wait span w =>
    let (event, p) := w.step t l.event
    ⟨{ l with event }, p.within (.wait span) fun o => .going (afterWait terms span o), none⟩
  | .unlist span .acquired =>
    ⟨{ l with waiters := l.waiters - 1 }, .going (.recordContention span), none⟩
  | .unlist _ status => ⟨{ l with waiters := l.waiters - 1 }, .going (.checkLocked status), none⟩
  | .recordContention span =>
    ⟨l, .going (.recordStatus .acquired), some (.lockContention (t.now.since span.start))⟩
  | .checkLocked status =>
    if l.locked then ⟨l, .going (.recordStatus status), none⟩
    else ⟨l, .going (.lookForWaiters status), none⟩
  | .lookForWaiters status =>
    if l.waiters = 0 then ⟨l, .going (.recordStatus status), none⟩
    else ⟨l, .going (.passOn status), none⟩
  | .passOn status =>
    ⟨{ l with event := l.event.signalOne t.pick }, .going (.recordStatus status), none⟩
  | .recordStatus status => ⟨l, .done status, some (.lockStatus status)⟩

def isResting (t : Turn) (l : ThreadLock) : Acquire → Bool
  | .wait _ w => w.isResting t l.event
  | _ => false

def deadline? : Acquire → Option Instant
  | .wait _ w => w.deadline?
  | _ => none

end Acquire

inductive Release
  | unlock
  | lookForWaiters
  | signal
deriving DecidableEq

def Release.step (t : Turn) (l : ThreadLock) : Release → Move ThreadLock Release Bool
  | .unlock =>
    if l.locked then ⟨{ l with locked := false }, .going .lookForWaiters, none⟩
    else ⟨l, .done false, none⟩
  | .lookForWaiters =>
    if l.waiters = 0 then ⟨l, .done true, none⟩ else ⟨l, .going .signal, none⟩
  | .signal => ⟨{ l with event := l.event.signalOne t.pick }, .done true, none⟩

def tryAcquire (l : ThreadLock) : ThreadLock × Bool := ({ l with locked := true }, !l.locked)

def interrupt (l : ThreadLock) : ThreadLock := { l with event := l.event.interrupt }

end ThreadLock

end InterpreterLock
