import InterpreterLock.Bootstrap.Spawn
import InterpreterLock.Interpreter.Call
import InterpreterLock.Session.Shelf
import InterpreterLock.Session.Statement
import InterpreterLock.ThreadLocal
import InterpreterLock.ThreadLock

/-!
# The world of a session

All that the threads of a session share, and where each of them is: the call it is in the middle of,
and the blocks that are open around it. A thread without a call is idle. Calls and open blocks know
locks and events by number, so a name that is given to a new one takes nothing from them.
-/

set_option autoImplicit false

namespace InterpreterLock.Session

inductive Scope
  | allow (n : Nat) (hooked : Bool)
  | guard (lock : Nat)
deriving DecidableEq, Repr

inductive Call
  | single (s : Statement)
  | interpreter (n : Nat) (c : Interpreter.Call)
  | gil (n : Nat) (c : Gil.Call)
  | lock (lock : Nat) (terms : ThreadLock.Terms) (c : ThreadLock.Acquire)
  | unlock (lock : Nat) (c : ThreadLock.Release)
  | wait (event : Nat) (w : Wait)
  | spawn (n : Nat) (who : String) (name : Option String) (c : Spawn)
  | awaitEntry (i : Ident)
  | awaitEnd (i : Ident)
  | wrapper (n : Nat) (c : Wrapper)

inductive Purpose
  | plain
  | asFlag
  | opens (scope : Scope) (body : List Statement) (panic : Option String)
  | closes (result : Except Panic Reply)

structure OpenBlock where
  scope : Scope
  rest : List Statement
  replies : List Reply := []
  panic : Option String

structure Thread where
  ident : Ident
  own : Option Ident := none
  label : Option String := none
  home : Option Nat := none
  locals : Locals String := {}
  blocks : List OpenBlock := []
  doing : Option (Call × Purpose) := none
  stopped : Nat := 0

structure SharedLock where
  lock : ThreadLock
  owner : Option Nat

structure World where
  now : Instant
  idents : IdentSource := {}
  interpreters : List Interpreter
  locks : Shelf SharedLock := {}
  events : Shelf Event := {}
  tickets : Table String Ticket := {}
  cells : Table String LocalRef := {}
  keys : LocalKeys := {}
  threads : Table Ident Thread := {}
  names : Table String Ident := {}
  handles : Table String Ident := {}
  endings : Table Ident (Option Panic) := {}
  stops : Nat := 0
  replies : List (Ident × Reply) := []

namespace World

def turnOf (w : World) (me : Ident) : Turn := ⟨me, w.now, 0⟩

def modifyInterpreter (w : World) (n : Nat) (f : Interpreter → Interpreter) : World :=
  { w with interpreters := w.interpreters.modify n f }

def setInterpreter (w : World) (n : Nat) (r : Interpreter) : World :=
  { w with interpreters := w.interpreters.set n r }

def countOn (w : World) (owner : Option Nat) (note : Option Metrics.Record) : World :=
  match owner with
  | none => w
  | some n => w.modifyInterpreter n fun r => { r with metrics := r.metrics.recordOpt note }

def setThread (w : World) (th : Thread) : World :=
  { w with threads := w.threads.insert th.ident th }

def threadOf? (w : World) (i : Ident) : Option Thread := w.threads.get? i

def threadNamed? (w : World) (name : String) : Option Thread :=
  (w.names.get? name).bind w.threadOf?

def nameOf? (w : World) (i : Ident) : Option String :=
  (w.names.entries.find? fun e => e.2 = i).map Prod.fst

def enroll (w : World) (name : String) (th : Thread) : World :=
  { w.setThread th with names := w.names.insert name th.ident }

def newThread (w : World) (name : String) : World × Thread :=
  let (i, idents) := w.idents.take
  let th : Thread := { ident := i, own := some i }
  ({ w with idents }.enroll name th, th)

def inEntry (w : World) (i : Ident) : Bool :=
  match (w.threadOf? i).map Thread.doing with
  | some (some (.wrapper .., _)) => false
  | some _ => true
  | none => false

end World

end InterpreterLock.Session
