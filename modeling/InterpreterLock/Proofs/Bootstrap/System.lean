import InterpreterLock.Bootstrap.Spawn
import InterpreterLock.Proofs.Interpreter.Call
import InterpreterLock.Proofs.Run

/-!
# Threads that a bootstrap starts

Any number of threads work on one interpreter: threads of other origin, which arrive as they like,
and those that threads start here. A thread calls the interpreter, spawns, calls the collector's
hooks, sets the stack size or resets the count, in any order; the entry of one that was started here
may return or panic whenever it is in the middle of none of these. The operating system may refuse
to start a thread in any step. To join or to detach a handle touches nothing that is modelled here.

A thread has a number, its place in the list, so that two threads with one ident are still two.
Beside the interpreter a state keeps a ledger of the slots, the answers of the spawns, and what each
thread has been seen to do.
-/

set_option autoImplicit false

namespace InterpreterLock

namespace Bootstrap

structure Course where
  found : ℕ := 0
  era : ℕ := 0
  reserved : ℕ := 0
  returned : ℕ := 0
  launched : Option ℕ := none

structure Answer where
  course : Course
  result : Except Panic (Except ThreadError Ident)

inductive Activity
  | idle
  | call (c : Interpreter.Call)
  | spawn (name : Option String) (c : Spawn) (course : Course)

/-- Where a thread is in its wrapper, with the resets there had been when its slot was reserved. A
thread of other origin has no wrapper. -/
inductive Stage
  | plain
  | wrapper (era : ℕ) (c : Wrapper)
  | gone

structure Worker where
  ident : Ident
  stage : Stage := .plain
  doing : Activity := .idle

inductive Deed
  | wrapper (c : HookCall)
  | own (c : Option HookCall)
  | slotReturned
deriving DecidableEq

inductive Mark
  | still
  | reserved
  | returned (era : ℕ)
  | dropped (era : ℕ)
  | reset

structure Ledger where
  resets : ℕ := 0
  passed : ℕ := 0
  returned : ℕ := 0
  dropped : ℕ := 0
  /-- Since the last reset, old slots whose return has lowered the count. -/
  stolen : ℕ := 0
  /-- Since the last reset, new slots whose return has found the count at zero. -/
  spared : ℕ := 0

namespace Ledger

def takeBack (l : Ledger) (live era : ℕ) : Ledger :=
  if era = l.resets then { l with spared := l.spared + if live = 0 then 1 else 0 }
  else { l with stolen := l.stolen + if live = 0 then 0 else 1 }

def enter (l : Ledger) (live : ℕ) : Mark → Ledger
  | .still => l
  | .reserved => { l with passed := l.passed + 1 }
  | .returned era => { l.takeBack live era with returned := l.returned + 1 }
  | .dropped era => { l.takeBack live era with dropped := l.dropped + 1 }
  | .reset => { l with resets := l.resets + 1, stolen := 0, spared := 0 }

end Ledger

def resized (b : Bootstrap) (size : ℕ) : Bootstrap :=
  match b.setStackSize size with
  | .ok (_, b) => b
  | .error _ => b

inductive Next
  | call (op : Interpreter.Op)
  | spawn (name : Option String)
  | hook (c : HookCall)
  | setStackSize (size : ℕ)
  | reset
  | finish (ending : Option Panic)
  | step (host : Host) (now : Instant) (pick : ℕ)

inductive Action
  | arrive (i : Ident)
  | rouse (i : Ident)
  | thread (n : ℕ) (next : Next)

structure Change where
  interpreter : Interpreter
  idents : IdentSource
  worker : Worker
  started : Option Worker := none
  mark : Mark := .still
  answer : Option Answer := none
  deed : Option Deed := none

structure System where
  interpreter : Interpreter
  idents : IdentSource := {}
  workers : List Worker := []
  ledger : Ledger := {}
  answers : List Answer := []
  deeds : List (ℕ × Deed) := []

end Bootstrap

namespace Spawn

def holds : Spawn → Bool
  | .takeIdent | .launch _ | .abandon _ => true
  | _ => false

def mark (era : ℕ) : Spawn → Progress Spawn (Except ThreadError Ident) → Bootstrap.Mark
  | .reserve, .going .takeIdent => .reserved
  | .abandon _, _ => .dropped era
  | _, _ => .still

def course (host : Host) (name : Option String) (n : Nursery) (resets fresh : ℕ)
    (r : Bootstrap.Course) (c : Spawn) : Bootstrap.Course :=
  let before := n.bootstrap.live
  let after := (c.step host name n).state.bootstrap.live
  match c with
  | .reserve => { r with found := before, era := resets, reserved := after - before }
  | .launch _ => { r with launched := (c.launches? host name n).map fun _ => fresh }
  | .abandon _ => { r with returned := before - after }
  | _ => r

end Spawn

namespace Wrapper

def holds : Wrapper → Bool
  | .recordExit _ => false
  | _ => true

def mark (era : ℕ) : Wrapper → Bootstrap.Mark
  | .giveBack _ => .returned era
  | _ => .still

def hook? (me : Ident) : Wrapper → Option HookCall
  | .register => some (.register me)
  | .deregister _ => some (.deregister me)
  | _ => none

def deed? (attached : Bool) (me : Ident) : Wrapper → Option Bootstrap.Deed
  | .giveBack _ => some .slotReturned
  | c => if attached then (c.hook? me).map .wrapper else none

end Wrapper

namespace Bootstrap

def Activity.ofCall : Option Interpreter.Call → Activity
  | none => .idle
  | some c => .call c

def Activity.ofSpawn (name : Option String) (r : Course) : Option Spawn → Activity
  | none => .idle
  | some c => .spawn name c r

def Stage.ofWrapper (era : ℕ) : Option Wrapper → Stage
  | none => .gone
  | some c => .wrapper era c

def Stage.isPlain : Stage → Bool
  | .plain => true
  | _ => false

def Stage.isOpen : Stage → Bool
  | .plain | .wrapper _ .entry => true
  | _ => false

namespace System

variable (s : System) (w : Worker)

def start (r : Interpreter) : System := { interpreter := r }

def attached : Bool := s.interpreter.bootstrap.collector.isSome

def ownDeed (c : Option HookCall) : Deed := .own (if s.attached then c else none)

def still : Change := { interpreter := s.interpreter, idents := s.idents, worker := w }

def doing (a : Activity) : Change :=
  { s.still { w with doing := a } with deed := s.ownDeed none }

def callHook (c : HookCall) : Change :=
  { s.still w with interpreter := s.interpreter.hear w.ident c, deed := s.ownDeed c }

def resize (size : ℕ) : Change :=
  { s.still w with
    interpreter :=
      { s.interpreter with bootstrap := s.interpreter.bootstrap.resized size }
    deed := s.ownDeed none }

def resetCount : Change :=
  { s.still w with
    interpreter :=
      { s.interpreter with bootstrap := s.interpreter.bootstrap.forgetThreads }
    mark := .reset
    deed := s.ownDeed none }

def endEntry (era : ℕ) (ending : Option Panic) : Change :=
  s.still { w with stage := .wrapper era (.deregister ending) }

def stepCall (t : Turn) (c : Interpreter.Call) : Change :=
  { s.still { w with doing := .ofCall (c.step t s.interpreter).2.next? } with
    interpreter := (c.step t s.interpreter).1
    mark := if c.forgets then .reset else .still
    deed := s.ownDeed (c.hook? t.me) }

def nursery : Nursery := ⟨s.interpreter.bootstrap, s.idents⟩

def stepSpawn (host : Host) (name : Option String) (c : Spawn) (r : Course) : Change :=
  let m := c.step host name s.nursery
  let r' := c.course host name s.nursery s.ledger.resets s.workers.length r
  { interpreter :=
      { s.interpreter with
        bootstrap := m.state.bootstrap
        metrics := s.interpreter.metrics.recordOpt m.note }
    idents := m.state.idents
    worker := { w with doing := .ofSpawn name r' m.progress.next? }
    started :=
      (c.launches? host name s.nursery).map fun i =>
        { ident := i, stage := .wrapper r.era .install }
    mark := c.mark r.era m.progress
    answer := m.progress.result?.map fun result => ⟨r', result⟩
    deed := s.ownDeed none }

def stepWrapper (era : ℕ) (c : Wrapper) : Change :=
  let m := c.step w.ident s.interpreter.bootstrap
  { s.still { w with stage := .ofWrapper era m.progress.next? } with
    interpreter :=
      { s.interpreter with
        bootstrap := m.state
        metrics := s.interpreter.metrics.recordOpt m.note }
    mark := c.mark era
    deed := c.deed? s.attached w.ident }

def own? (next : Next) : Option Change :=
  match w.doing, next with
  | .idle, .call op => some (s.doing w (.call op.call))
  | .idle, .spawn name => some (s.doing w (.spawn name .reserve {}))
  | .idle, .hook c => some (s.callHook w c)
  | .idle, .setStackSize size => some (s.resize w size)
  | .idle, .reset => some (s.resetCount w)
  | .call c, .step _ now pick => some (s.stepCall w ⟨w.ident, now, pick⟩ c)
  | .spawn name c r, .step host _ _ => some (s.stepSpawn w host name c r)
  | _, _ => none

def change? (next : Next) : Option Change :=
  match w.stage, next with
  | .gone, _ => none
  | .plain, next => s.own? w next
  | .wrapper era .entry, .finish ending =>
    match w.doing with
    | .idle => some (s.endEntry w era ending)
    | _ => none
  | .wrapper _ .entry, next => s.own? w next
  | .wrapper era c, .step .. => some (s.stepWrapper w era c)
  | .wrapper _ _, _ => none

def commit (n : ℕ) (ch : Change) : System where
  interpreter := ch.interpreter
  idents := ch.idents
  workers := s.workers.set n ch.worker ++ ch.started.toList
  ledger := s.ledger.enter s.interpreter.bootstrap.live ch.mark
  answers := ch.answer.toList ++ s.answers
  deeds := (ch.deed.map fun d => (n, d)).toList ++ s.deeds

def rouse (i : Ident) : System :=
  let g := s.interpreter.gil
  { s with
    interpreter :=
      { s.interpreter with
        gil := { g with wakeup := g.wakeup.rouse i, handoff := g.handoff.rouse i } } }

def act : Action → System
  | .arrive i => { s with workers := s.workers ++ [{ ident := i }] }
  | .rouse i => s.rouse i
  | .thread n next =>
    match (s.workers[n]?).bind fun w => s.change? w next with
    | none => s
    | some ch => s.commit n ch

def run (acts : List Action) : System := acts.foldl act s

end System

end Bootstrap

end InterpreterLock
