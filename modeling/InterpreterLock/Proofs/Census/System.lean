import InterpreterLock.Proofs.Bootstrap.System

/-!
# Threads and their idents

Threads of any origin come and go, ask for their idents as they like, and start threads by any
number of bootstraps; all of them take idents from one source. A thread of other origin has no ident
until it first asks. The operating system may refuse to start a thread in any step, and the entry of
one that was started may return or panic whenever it is not in the middle of a spawn.

A thread has a number, its place in the list. Beside the threads a state keeps the idents that the
source has handed out, the idents that threads have got when they asked, the answers of the spawns
and the calls of hooks that wrappers have made, each the latest first.
-/

set_option autoImplicit false

namespace InterpreterLock

namespace Census

structure Used where
  ident : Option Ident := none
  launched : Option ℕ := none
deriving DecidableEq

structure Answer where
  used : Used
  result : Except Panic (Except ThreadError Ident)

structure Errand where
  home : ℕ
  name : Option String
  place : Spawn := .reserve
  used : Used := {}

inductive Stage
  | plain
  | spawned (home : ℕ) (given : Ident) (place : Option Wrapper)
deriving DecidableEq

structure Member where
  stage : Stage := .plain
  own : Option Ident := none
  errand : Option Errand := none

structure Told where
  thread : ℕ
  home : ℕ
  call : HookCall
deriving DecidableEq

inductive Next
  | ask
  | spawn (home : ℕ) (name : Option String)
  | finish (ending : Option Panic)
  | step (host : Host)

inductive Action
  | arrive
  | thread (n : ℕ) (next : Next)

structure Change where
  idents : IdentSource
  homes : ℕ → Bootstrap
  member : Member
  started : Option Member := none
  handed : Option Ident := none
  said : Option Ident := none
  answer : Option Answer := none
  told : Option Told := none

structure System where
  idents : IdentSource := {}
  homes : ℕ → Bootstrap
  members : List Member := []
  handed : List Ident := []
  said : List (ℕ × Ident) := []
  answers : List Answer := []
  told : List Told := []

end Census

namespace Spawn

def takes? (n : Nursery) : Spawn → Option Ident
  | .takeIdent => some n.idents.take.1
  | _ => none

def use (host : Host) (name : Option String) (n : Nursery) (fresh : ℕ) (u : Census.Used)
    (c : Spawn) : Census.Used :=
  match c with
  | .takeIdent => { u with ident := c.takes? n }
  | .launch _ => { u with launched := (c.launches? host name n).map fun _ => fresh }
  | _ => u

end Spawn

namespace Census

def Stage.asks : Stage → Bool
  | .spawned _ _ none | .spawned _ _ (some .install) => false
  | _ => true

def Stage.isOpen : Stage → Bool
  | .plain | .spawned _ _ (some .entry) => true
  | _ => false

namespace System

variable (s : System) (n : ℕ) (w : Member)

def start (homes : ℕ → Bootstrap) : System := { homes := homes }

def still : Change := { idents := s.idents, homes := s.homes, member := w }

def ask : Change :=
  let a := s.idents.ask w.own
  { s.still { w with own := a.2.1 } with
    idents := a.2.2
    handed := if w.own.isNone then some a.1 else none
    said := some a.1 }

def beginSpawn (home : ℕ) (name : Option String) : Change :=
  s.still { w with errand := some { home := home, name := name } }

def stepSpawn (host : Host) (e : Errand) : Change :=
  let nursery : Nursery := ⟨s.homes e.home, s.idents⟩
  let m := e.place.step host e.name nursery
  let used := e.place.use host e.name nursery s.members.length e.used
  { idents := m.state.idents
    homes := Function.update s.homes e.home m.state.bootstrap
    member := { w with errand := m.progress.next?.map fun c => { e with place := c, used := used } }
    started :=
      (e.place.launches? host e.name nursery).map fun i =>
        { stage := .spawned e.home i (some .install) }
    handed := e.place.takes? nursery
    answer := m.progress.result?.map fun result => ⟨used, result⟩ }

def endEntry (home : ℕ) (given : Ident) (ending : Option Panic) : Change :=
  s.still { w with stage := .spawned home given (some (.deregister ending)) }

def stepWrapper (home : ℕ) (given : Ident) (c : Wrapper) : Change :=
  let m := c.step given (s.homes home)
  { s.still
      { w with
        stage := .spawned home given m.progress.next?
        own := c.remembered given w.own } with
    homes := Function.update s.homes home m.state
    told :=
      if (s.homes home).collector.isSome then
        (c.hook? given).map fun call => { thread := n, home := home, call := call }
      else none }

def change? (next : Next) : Option Change :=
  match next with
  | .ask => if w.stage.asks then some (s.ask w) else none
  | .spawn home name =>
    if w.stage.isOpen && w.errand.isNone then some (s.beginSpawn w home name) else none
  | .finish ending =>
    match w.stage, w.errand with
    | .spawned home given (some .entry), none => some (s.endEntry w home given ending)
    | _, _ => none
  | .step host =>
    match w.errand, w.stage with
    | some e, _ => some (s.stepSpawn w host e)
    | none, .spawned home given (some c) => some (s.stepWrapper n w home given c)
    | none, _ => none

def commit (ch : Change) : System where
  idents := ch.idents
  homes := ch.homes
  members := s.members.set n ch.member ++ ch.started.toList
  handed := ch.handed.toList ++ s.handed
  said := (ch.said.map fun i => (n, i)).toList ++ s.said
  answers := ch.answer.toList ++ s.answers
  told := ch.told.toList ++ s.told

def act : Action → System
  | .arrive => { s with members := s.members ++ [{}] }
  | .thread n next =>
    match (s.members[n]?).bind fun w => s.change? n w next with
    | none => s
    | some ch => s.commit n ch

def run (acts : List Action) : System := acts.foldl act s

end System

end Census

end InterpreterLock
