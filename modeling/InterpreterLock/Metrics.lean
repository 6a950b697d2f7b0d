import InterpreterLock.LockStatus
import InterpreterLock.Time

/-!
# Counters

Fourteen counters of machine words, in three groups. Each record raises those it names; counters
that run over start again at zero.
-/

set_option autoImplicit false

namespace InterpreterLock

structure LockWordCounts where
  fastAcquires : UInt64 := 0
  slowAcquires : UInt64 := 0
  contentionMicros : UInt64 := 0
  yields : UInt64 := 0
  handoffs : UInt64 := 0
  handoffTimeouts : UInt64 := 0
deriving DecidableEq, Repr, Inhabited

structure LockCounts where
  acquired : UInt64 := 0
  failures : UInt64 := 0
  interrupts : UInt64 := 0
  contentions : UInt64 := 0
  contentionMicros : UInt64 := 0
deriving DecidableEq, Repr, Inhabited

structure ThreadCounts where
  spawned : UInt64 := 0
  exited : UInt64 := 0
  spawnFailures : UInt64 := 0
deriving DecidableEq, Repr, Inhabited

structure Metrics where
  gil : LockWordCounts := {}
  locks : LockCounts := {}
  threads : ThreadCounts := {}
deriving DecidableEq, Repr, Inhabited

namespace Metrics

inductive Record
  | fastAcquire
  | slowAcquire (waited : Duration)
  | yielded
  | handoff (completed : Bool)
  | lockStatus (status : LockStatus)
  | lockContention (waited : Duration)
  | threadSpawned
  | threadExited
  | spawnFailure
deriving DecidableEq, Repr

def microsWord (d : Duration) : UInt64 := UInt64.ofNat d.micros

def record (m : Metrics) : Record → Metrics
  | .fastAcquire => { m with gil.fastAcquires := m.gil.fastAcquires + 1 }
  | .slowAcquire d =>
    { m with
      gil.slowAcquires := m.gil.slowAcquires + 1
      gil.contentionMicros := m.gil.contentionMicros + microsWord d }
  | .yielded => { m with gil.yields := m.gil.yields + 1 }
  | .handoff true => { m with gil.handoffs := m.gil.handoffs + 1 }
  | .handoff false => { m with gil.handoffTimeouts := m.gil.handoffTimeouts + 1 }
  | .lockStatus .acquired => { m with locks.acquired := m.locks.acquired + 1 }
  | .lockStatus .failure => { m with locks.failures := m.locks.failures + 1 }
  | .lockStatus .interrupted => { m with locks.interrupts := m.locks.interrupts + 1 }
  | .lockContention d =>
    { m with
      locks.contentions := m.locks.contentions + 1
      locks.contentionMicros := m.locks.contentionMicros + microsWord d }
  | .threadSpawned => { m with threads.spawned := m.threads.spawned + 1 }
  | .threadExited => { m with threads.exited := m.threads.exited + 1 }
  | .spawnFailure => { m with threads.spawnFailures := m.threads.spawnFailures + 1 }

def recordOpt (m : Metrics) : Option Record → Metrics
  | none => m
  | some r => m.record r

inductive Counter
  | gilFastAcquires
  | gilSlowAcquires
  | gilContentionMicros
  | gilYields
  | gilHandoffs
  | gilHandoffTimeouts
  | lockAcquired
  | lockFailures
  | lockInterrupts
  | lockContentions
  | lockContentionMicros
  | threadsSpawned
  | threadsExited
  | spawnFailures
deriving DecidableEq, Repr

namespace Counter

def all : List Counter :=
  [.gilFastAcquires, .gilSlowAcquires, .gilContentionMicros, .gilYields, .gilHandoffs,
   .gilHandoffTimeouts, .lockAcquired, .lockFailures, .lockInterrupts, .lockContentions,
   .lockContentionMicros, .threadsSpawned, .threadsExited, .spawnFailures]

def group : Counter → String
  | .gilFastAcquires | .gilSlowAcquires | .gilContentionMicros | .gilYields | .gilHandoffs
  | .gilHandoffTimeouts => "gil"
  | .lockAcquired | .lockFailures | .lockInterrupts | .lockContentions
  | .lockContentionMicros => "locks"
  | .threadsSpawned | .threadsExited | .spawnFailures => "threads"

def label : Counter → String
  | .gilFastAcquires => "fast_acquires"
  | .gilSlowAcquires => "slow_acquires"
  | .gilContentionMicros => "contention_total_us"
  | .gilYields => "yields"
  | .gilHandoffs => "handoffs"
  | .gilHandoffTimeouts => "handoff_timeouts"
  | .lockAcquired => "acquired"
  | .lockFailures => "failures"
  | .lockInterrupts => "interrupts"
  | .lockContentions => "contention_count"
  | .lockContentionMicros => "contention_total_us"
  | .threadsSpawned => "spawned"
  | .threadsExited => "exited"
  | .spawnFailures => "spawn_failures"

end Counter

def get (m : Metrics) : Counter → UInt64
  | .gilFastAcquires => m.gil.fastAcquires
  | .gilSlowAcquires => m.gil.slowAcquires
  | .gilContentionMicros => m.gil.contentionMicros
  | .gilYields => m.gil.yields
  | .gilHandoffs => m.gil.handoffs
  | .gilHandoffTimeouts => m.gil.handoffTimeouts
  | .lockAcquired => m.locks.acquired
  | .lockFailures => m.locks.failures
  | .lockInterrupts => m.locks.interrupts
  | .lockContentions => m.locks.contentions
  | .lockContentionMicros => m.locks.contentionMicros
  | .threadsSpawned => m.threads.spawned
  | .threadsExited => m.threads.exited
  | .spawnFailures => m.threads.spawnFailures

def set (m : Metrics) (n : UInt64) : Counter → Metrics
  | .gilFastAcquires => { m with gil.fastAcquires := n }
  | .gilSlowAcquires => { m with gil.slowAcquires := n }
  | .gilContentionMicros => { m with gil.contentionMicros := n }
  | .gilYields => { m with gil.yields := n }
  | .gilHandoffs => { m with gil.handoffs := n }
  | .gilHandoffTimeouts => { m with gil.handoffTimeouts := n }
  | .lockAcquired => { m with locks.acquired := n }
  | .lockFailures => { m with locks.failures := n }
  | .lockInterrupts => { m with locks.interrupts := n }
  | .lockContentions => { m with locks.contentions := n }
  | .lockContentionMicros => { m with locks.contentionMicros := n }
  | .threadsSpawned => { m with threads.spawned := n }
  | .threadsExited => { m with threads.exited := n }
  | .spawnFailures => { m with threads.spawnFailures := n }

def changes (before after : Metrics) : List (Counter × UInt64) :=
  (Counter.all.filter fun c => before.get c ≠ after.get c).map fun c => (c, after.get c)

theorem get_set_self (m : Metrics) (n : UInt64) (c : Counter) : (m.set n c).get c = n := by
  cases c <;> rfl

theorem get_set_of_ne (m : Metrics) (n : UInt64) (c d : Counter) (h : c ≠ d) :
    (m.set n c).get d = m.get d := by
  cases c <;> cases d <;> simp_all [get, set]

theorem changes_self (m : Metrics) : m.changes m = [] := by simp [changes]

end Metrics

end InterpreterLock
