import InterpreterLock.Proofs.Gil.Custody
import InterpreterLock.Proofs.Interpreter.Call

/-!
# Threads that call an interpreter

Any number of threads, one for each ident, call one interpreter. A block without the lock is entered
by one call and left by another, whatever its body calls in between and however it ends. After a
fork the forking thread is the only one there is: all others are gone wherever they were, and the
thread makes the lock its own before it lets any other thread arrive.

A state also remembers of each thread whether it has taken the lock and not freed it since, how
often it has obtained the lock, and how often a block was refused to it.
-/

set_option autoImplicit false

namespace InterpreterLock.Interpreter

namespace Call

def atLock? : Call → Option Gil.Call
  | .acquire a | .leave a => some (.acquire a)
  | .release r | .enter r => some (.release r)
  | .yield y => some (.yield y)
  | .reinit _ | .announceFork | .forgetThreads | .report _ | .beforeFork => none

def obtains (g : Gil) : Call → Bool
  | .acquire a | .leave a => a.takes g
  | .yield y => y.takes g
  | .reinit .setHolder => true
  | _ => false

def frees : Call → Bool
  | .release r | .enter r => r.frees
  | .yield y => y.frees
  | _ => false

def refuses (me : Ident) (g : Gil) : Call → Bool
  | .enter .checkHolder => !g.isHeldBy me
  | .leave .checkHolder => g.isHeldBy me
  | _ => false

end Call

inductive Action
  | begin (i : Ident) (op : Op)
  | step (t : Turn)
  | rouse (i : Ident)
  | fork (i : Ident)
  | arrive (parent child : Ident)

def Action.isLawful : Action → Bool
  | .begin _ .afterFork => false
  | _ => true

structure System where
  interpreter : Interpreter
  calls : Ident → Option Call := fun _ => none
  /-- The thread did not survive a fork; a call it was in never ends. -/
  gone : Ident → Bool := fun _ => false
  inside : Ident → Bool := fun _ => false
  obtained : Ident → ℕ := fun _ => 0
  refused : Ident → ℕ := fun _ => 0

namespace System

def start (r : Interpreter) : System := { interpreter := r }

def isIdle (s : System) (i : Ident) : Bool := !s.gone i && (s.calls i).isNone

def beginCall (s : System) (i : Ident) (c : Call) : System :=
  { s with calls := Function.update s.calls i (some c) }

def stepCall (s : System) (t : Turn) (c : Call) : System :=
  let (interpreter, p) := c.step t s.interpreter
  let g := s.interpreter.gil
  { s with
    interpreter
    calls := Function.update s.calls t.me p.next?
    inside := Function.update s.inside t.me (c.obtains g || s.inside t.me && !c.frees)
    obtained := Function.update s.obtained t.me (s.obtained t.me + (c.obtains g).toNat)
    refused := Function.update s.refused t.me (s.refused t.me + (c.refuses t.me g).toNat) }

def forkTo (s : System) (i : Ident) : System :=
  { s with
    calls := Function.update s.calls i (some .toAfterFork)
    gone := Function.update (fun _ => true) i false
    inside := Function.update (fun _ => false) i (s.inside i) }

def rouse (s : System) (i : Ident) : System :=
  let g := s.interpreter.gil
  { s with
    interpreter :=
      { s.interpreter with
        gil := { g with wakeup := g.wakeup.rouse i, handoff := g.handoff.rouse i } } }

def act (s : System) : Action → System
  | .begin i op => if s.isIdle i then s.beginCall i op.call else s
  | .step t =>
    match s.calls t.me with
    | none => s
    | some c => if s.gone t.me then s else s.stepCall t c
  | .rouse i => s.rouse i
  | .fork i => if s.isIdle i then s.forkTo i else s
  | .arrive parent child =>
    if s.isIdle parent && (s.calls child).isNone then
      { s with gone := Function.update s.gone child false }
    else s

def run (s : System) (acts : List Action) : System := acts.foldl act s

end System

end InterpreterLock.Interpreter
