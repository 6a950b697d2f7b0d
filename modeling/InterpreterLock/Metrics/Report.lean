import InterpreterLock.Metrics

/-!
# Reports of the counters

A report for people has a line for each group, with every number right-aligned in its own width. A
report for programs is an object of three objects. The time spent in contended general locks is in
the second only.
-/

set_option autoImplicit false

namespace InterpreterLock.Metrics

def column (width : Nat) (n : UInt64) : String := Text.padLeft width (Text.decimal n.toNat)

def display (m : Metrics) : String :=
  "Runtime Metrics:\n"
    ++ "  GIL:     fast: " ++ column 10 m.gil.fastAcquires
    ++ ", slow: " ++ column 8 m.gil.slowAcquires
    ++ ", waited: " ++ column 10 m.gil.contentionMicros ++ " us\n"
    ++ "  Yields:  total: " ++ column 9 m.gil.yields
    ++ ", handoffs: " ++ column 8 m.gil.handoffs
    ++ ", timeouts: " ++ column 6 m.gil.handoffTimeouts ++ "\n"
    ++ "  Locks:   acquired: " ++ column 6 m.locks.acquired
    ++ ", failed: " ++ column 6 m.locks.failures
    ++ ", interrupted: " ++ column 6 m.locks.interrupts
    ++ ", contended: " ++ column 6 m.locks.contentions ++ "\n"
    ++ "  Threads: spawned: " ++ column 7 m.threads.spawned
    ++ ", exited: " ++ column 7 m.threads.exited
    ++ ", spawn failures: " ++ column 4 m.threads.spawnFailures ++ "\n"

def groupJson (m : Metrics) (cs : List Counter) : Json :=
  .object (cs.map fun c => (c.label, .word (m.get c)))

def inGroup (name : String) : List Counter := Counter.all.filter (·.group == name)

def toJson (m : Metrics) : Json :=
  .object (["gil", "locks", "threads"].map fun g => (g, m.groupJson (inGroup g)))

end InterpreterLock.Metrics
