import InterpreterLock.Backend
import InterpreterLock.Ident
import InterpreterLock.Time

/-!
# Wait events

Threads park on an event and are woken by signals. A thread first takes a ticket, then checks what
it waits for, and only then waits with that ticket, so that a signal in between is not lost.

A counting event compares the ticket with a counter of signals and one of interruptions. An
auto-reset event keeps one signal until a waiter takes it, counts broadcasts, and knows no
interruptions. The threads that are asleep are listed with the one that parked first in front.
-/

set_option autoImplicit false

namespace InterpreterLock

inductive Signals
  | counting (signals interrupts : UInt64)
  | autoReset (pending : Bool) (broadcasts : UInt64)
deriving DecidableEq, Repr

structure Ticket where
  signals : UInt64 := 0
  interrupts : UInt64 := 0
deriving DecidableEq, Repr, Inhabited

inductive WaitOutcome
  | signaled
  | timedOut
  | interrupted
deriving DecidableEq, Repr

namespace Signals

def ticket : Signals → Ticket
  | .counting s i => ⟨s, i⟩
  | .autoReset _ b => ⟨b, 0⟩

def look (t : Ticket) : Signals → Option WaitOutcome × Signals
  | .counting s i =>
    (if s ≠ t.signals then some .signaled
      else if i ≠ t.interrupts then some .interrupted
      else none, .counting s i)
  | .autoReset true b => (some .signaled, .autoReset false b)
  | .autoReset false b => (if b ≠ t.signals then some .signaled else none, .autoReset false b)

def afterSignalOne : Signals → Signals
  | .counting s i => .counting (s + 1) i
  | .autoReset _ b => .autoReset true b

def afterSignalAll : Signals → Signals
  | .counting s i => .counting (s + 1) i
  | .autoReset p b => .autoReset p (b + 1)

def afterInterrupt : Signals → Signals
  | .counting s i => .counting s (i + 1)
  | .autoReset p b => .autoReset p b

/-- When a wait that starts now is over; an auto-reset wait lasts whole milliseconds. -/
def deadline (t : Timeout) (now : Instant) : Signals → Option Instant
  | .counting .. => t.deadlineFrom now
  | .autoReset .. => t.waitMillis.bind fun ms => now.add? (.ofMillis ms)

end Signals

structure Event where
  signals : Signals
  sleepers : List Ident := []
deriving DecidableEq, Repr

namespace Event

def new : Backend → Event
  | .posix => ⟨.counting 0 0, []⟩
  | .windows => ⟨.autoReset false 0, []⟩

def prepare (e : Event) : Ticket := e.signals.ticket

def signalOne (pick : Nat) (e : Event) : Event :=
  { signals := e.signals.afterSignalOne
    sleepers := e.sleepers.eraseIdx (pick % e.sleepers.length) }

def signalAll (e : Event) : Event := ⟨e.signals.afterSignalAll, []⟩

def interrupt (e : Event) : Event :=
  match e.signals with
  | .counting .. => ⟨e.signals.afterInterrupt, []⟩
  | .autoReset .. => e

def sleep (me : Ident) (e : Event) : Event := { e with sleepers := e.sleepers ++ [me] }

def rouse (me : Ident) (e : Event) : Event := { e with sleepers := e.sleepers.erase me }

end Event

end InterpreterLock
