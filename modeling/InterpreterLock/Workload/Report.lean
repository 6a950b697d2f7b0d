import InterpreterLock.Metrics.Report
import InterpreterLock.Workload

/-!
# Workload reports

What a workload that came to its end reports: its settings, the sections its workers passed, how
often two were found in one at the same time or a worker ended in a panic, and the counters.
-/

set_option autoImplicit false

namespace InterpreterLock.Workload

structure Report where
  mode : Mode
  backend : Backend
  threads : Nat
  iterations : Nat
  elapsedMillis : Nat
  sections : UInt64
  violations : UInt64
  metrics : Metrics
deriving DecidableEq

namespace Report

def toJson (r : Report) : Json :=
  .object
    [("mode", r.mode.toJson), ("backend", r.backend.toJson), ("threads", .integer r.threads),
     ("iterations", .integer r.iterations), ("elapsed_ms", .integer r.elapsedMillis),
     ("critical_sections", .word r.sections), ("exclusion_violations", .word r.violations),
     ("metrics", r.metrics.toJson)]

def display (r : Report) : String :=
  Text.decimal r.threads ++ " threads x " ++ Text.decimal r.iterations ++ " iterations ("
    ++ r.mode.name ++ " mode, " ++ r.backend.name ++ " backend) in "
    ++ Text.decimal r.elapsedMillis ++ " ms\n"
    ++ "critical sections: " ++ Text.decimal r.sections.toNat ++ ", exclusion violations: "
    ++ Text.decimal r.violations.toNat ++ "\n"
    ++ r.metrics.display

def acquires (r : Report) : UInt64 :=
  r.metrics.gil.fastAcquires + r.metrics.gil.slowAcquires - r.metrics.gil.handoffs
    - r.metrics.gil.handoffTimeouts

end Report

namespace State

def report (p : Plan) (s : State) (elapsedMillis : Nat) : Report where
  mode := s.interpreter.gil.mode
  backend := s.interpreter.bootstrap.backend
  threads := p.threads
  iterations := p.iterations
  elapsedMillis := elapsedMillis
  sections := s.sections
  violations := s.violations + UInt64.ofNat s.panics
  metrics := s.interpreter.metrics

end State

def configure (env : Environment) (mode : Option Mode) (backend : Option Backend) : Config :=
  let c := Config.ofEnvironment env
  { c with mode := mode.getD c.mode, backend := backend.getD c.backend }

/-- The manager keeps a handle of so many bytes for every worker, all in one list. -/
def handleSize : Nat := 32

def largestList : Nat := UInt64.size / 2 - 1

inductive Failure
  | thread (e : ThreadError)
  | panic (p : Panic)
  | outOfMemory (bytes : Nat)
deriving DecidableEq

def makeRoom (host : Host) (threads : Nat) : Except Failure Unit :=
  let bytes := threads * handleSize
  if largestList < bytes then .error (.panic .capacityOverflow)
  else if host.memory ≤ bytes then .error (.outOfMemory bytes)
  else .ok ()

def finalState (host : Host) (c : Config) (p : Plan) (now : Instant) : Except Failure State := do
  let interpreter ← (Interpreter.build c).mapError Failure.thread
  makeRoom host p.threads
  let s := (State.start p interpreter).run host p now
  match s.manager with
  | .failed e => throw (.thread e)
  | .panicked e => throw (.panic e)
  | _ => pure s

end InterpreterLock.Workload
