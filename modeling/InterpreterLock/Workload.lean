import InterpreterLock.Bootstrap.Spawn
import InterpreterLock.Interpreter.Call

/-!
# The contention workload

A manager starts workers one after the other and then waits for all of them. Each worker takes the
interpreter lock so many times, passes through a critical section, every so often yields, and gives
the lock back. The section notes when a worker finds another one inside.

A schedule is a list of choices of who takes the next step. The workload is over when the manager
has started all workers and every one of them is gone; a run by one schedule is given below.
-/

set_option autoImplicit false

namespace InterpreterLock

namespace Workload

structure Plan where
  threads : Nat
  iterations : Nat
  yieldEvery : Nat
deriving DecidableEq, Repr

def Plan.yieldsAfter (p : Plan) (n : Nat) : Bool := p.yieldEvery != 0 && n % p.yieldEvery == 0

inductive Place
  | wrapper (w : Wrapper)
  | acquire (c : Interpreter.Call)
  | enter
  | pass
  | leave
  | yield (c : Interpreter.Call)
  | release (c : Interpreter.Call)
  | gone (ending : Option Panic)

structure Worker where
  ident : Ident
  round : Nat := 0
  place : Place := .wrapper .install

def Worker.isGone (w : Worker) : Bool :=
  match w.place with
  | .gone _ => true
  | _ => false

inductive Manager
  | spawning (n : Nat) (place : Spawn)
  | joining
  | failed (e : ThreadError)
  | panicked (p : Panic)

structure State where
  interpreter : Interpreter
  idents : IdentSource
  manager : Manager
  workers : List Worker := []
  inside : UInt64 := 0
  sections : UInt64 := 0
  violations : UInt64 := 0

/-- What happens next: a step of the manager, a step of worker number `k` at a reading of the clock
and with a choice of the sleeper that a wake-one would wake, or a sleep of that worker that ends for
no reason. -/
inductive Choice
  | manager
  | worker (k : Nat) (now : Instant) (pick : Nat)
  | rouse (k : Nat)
deriving DecidableEq

def workerName (n : Nat) : String := "worker-" ++ Text.decimal n

namespace State

def start (p : Plan) (interpreter : Interpreter) : State where
  interpreter := interpreter
  idents := ({} : IdentSource).take.2
  manager := if p.threads = 0 then .joining else .spawning 0 .reserve

def stepManager (host : Host) (p : Plan) (s : State) : State :=
  match s.manager with
  | .spawning n place =>
    let before : Nursery := ⟨s.interpreter.bootstrap, s.idents⟩
    let name := some (workerName n)
    let m := place.step host name before
    let started := (place.launches? host name before).map fun i => ({ ident := i } : Worker)
    let s : State :=
      { s with
        interpreter :=
          { s.interpreter with
            bootstrap := m.state.bootstrap
            metrics := s.interpreter.metrics.recordOpt m.note }
        idents := m.state.idents
        workers := s.workers ++ started.toList }
    match m.progress with
    | .going place => { s with manager := .spawning n place }
    | .done (.ok _) =>
      { s with manager := if n + 1 < p.threads then .spawning (n + 1) .reserve else .joining }
    | .done (.error e) => { s with manager := .failed e }
    | .unwound e => { s with manager := .panicked e }
  | _ => s

def nextRound (p : Plan) (w : Worker) : Worker :=
  if w.round < p.iterations then
    { w with round := w.round + 1, place := .acquire .toAcquire }
  else { w with place := .wrapper (.deregister none) }

def inInterpreter (t : Turn) (s : State) (w : Worker) (c : Interpreter.Call)
    (inside : Interpreter.Call → Place) (after : Worker) : State × Worker :=
  let (interpreter, p) := c.step t s.interpreter
  let s := { s with interpreter }
  match p with
  | .going c => (s, { w with place := inside c })
  | .done _ => (s, after)
  | .unwound e => (s, { w with place := .wrapper (.deregister (some e)) })

def stepWorker (p : Plan) (now : Instant) (pick : Nat) (s : State) (w : Worker) : State × Worker :=
  let t : Turn := ⟨w.ident, now, pick⟩
  match w.place with
  | .wrapper c =>
    let m := c.step w.ident s.interpreter.bootstrap
    let s :=
      { s with
        interpreter :=
          { s.interpreter with
            bootstrap := m.state, metrics := s.interpreter.metrics.recordOpt m.note } }
    match m.progress with
    | .going .entry => (s, nextRound p w)
    | .going c => (s, { w with place := .wrapper c })
    | .done ending => (s, { w with place := .gone ending })
    | .unwound e => (s, { w with place := .gone (some e) })
  | .acquire c => s.inInterpreter t w c .acquire { w with place := .enter }
  | .enter =>
    ({ s with
        inside := s.inside + 1
        violations := if s.inside ≠ 0 then s.violations + 1 else s.violations },
      { w with place := .pass })
  | .pass => ({ s with sections := s.sections + 1 }, { w with place := .leave })
  | .leave =>
    ({ s with inside := s.inside - 1 },
      { w with
        place := if p.yieldsAfter w.round then .yield .toYield else .release .toRelease })
  | .yield c => s.inInterpreter t w c .yield { w with place := .release .toRelease }
  | .release c => s.inInterpreter t w c .release (nextRound p w)
  | .gone _ => (s, w)

def rouseWorker (s : State) (i : Ident) : State :=
  { s with
    interpreter.gil.wakeup := s.interpreter.gil.wakeup.rouse i
    interpreter.gil.handoff := s.interpreter.gil.handoff.rouse i }

def step (host : Host) (p : Plan) (s : State) : Choice → State
  | .manager => s.stepManager host p
  | .worker k now pick =>
    match s.workers[k]? with
    | none => s
    | some w =>
      let (s, w) := s.stepWorker p now pick w
      { s with workers := s.workers.set k w }
  | .rouse k =>
    match s.workers[k]? with
    | none => s
    | some w => s.rouseWorker w.ident

def follow (host : Host) (p : Plan) (s : State) : List Choice → State
  | [] => s
  | c :: rest => follow host p (s.step host p c) rest

theorem follow_append (host : Host) (p : Plan) (s : State) (xs ys : List Choice) :
    s.follow host p (xs ++ ys) = (s.follow host p xs).follow host p ys := by
  induction xs generalizing s with
  | nil => rfl
  | cons x xs ih => exact ih _

def isOver (s : State) : Bool :=
  match s.manager with
  | .joining => s.workers.all Worker.isGone
  | _ => false

def panics (s : State) : Nat :=
  (s.workers.filter fun w => match w.place with | .gone (some _) => true | _ => false).length

def runManager (host : Host) (p : Plan) : Nat → State → State
  | 0, s => s
  | bound + 1, s =>
    match s.manager with
    | .spawning .. => runManager host p bound (s.step host p .manager)
    | _ => s

def runWorker (host : Host) (p : Plan) (now : Instant) (k : Nat) : Nat → State → State
  | 0, s => s
  | bound + 1, s =>
    if (s.workers[k]?).all Worker.isGone then s
    else runWorker host p now k bound (s.step host p (.worker k now 0))

def runWorkers (host : Host) (p : Plan) (now : Instant) (bound : Nat) (s : State) : State :=
  (List.range s.workers.length).foldl (fun s k => runWorker host p now k bound s) s

def run (host : Host) (p : Plan) (now : Instant) (s : State) : State :=
  runWorkers host p now (32 * (p.iterations + 1)) (runManager host p (8 * (p.threads + 1)) s)

end State

end Workload

end InterpreterLock
