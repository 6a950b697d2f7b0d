import InterpreterLock.Ident
import InterpreterLock.Table

/-!
# The thread registry

The registry knows the threads whose stacks a collector scans, the roots, and how often each has
run since it registered. It is told of lifecycle events by hook calls. A guard is a registration
that ends with its scope, however the scope is left.
-/

set_option autoImplicit false

namespace InterpreterLock

inductive HookCall
  | register (i : Ident)
  | deregister (i : Ident)
  | run (i : Ident)
  | beforeFork
  | afterFork (survivor : Ident)
deriving DecidableEq, Repr

structure Root where
  registrar : Ident
  runs : UInt64 := 0
deriving DecidableEq, Repr

structure Registry where
  table : Table Ident Root := {}
deriving DecidableEq, Repr, Inhabited

namespace Registry

def hear (caller : Ident) (r : Registry) : HookCall → Registry
  | .register i => ⟨r.table.insert i { registrar := caller }⟩
  | .deregister i => ⟨r.table.erase i⟩
  | .run i => ⟨r.table.modify i fun e => { e with runs := e.runs + 1 }⟩
  | .beforeFork => r
  | .afterFork survivor => ⟨r.table.retain survivor⟩

def roots (r : Registry) : List Ident := r.table.keys

def count (r : Registry) : Nat := r.table.size

def isRegistered (r : Registry) (i : Ident) : Bool := r.table.contains i

def get? (r : Registry) (i : Ident) : Option Root := r.table.get? i

def runs (r : Registry) : List (Ident × UInt64) := r.table.entries.map fun e => (e.1, e.2.runs)

structure Guarded where
  registry : Registry := {}
  guards : Table String Ident := {}
deriving DecidableEq, Inhabited

inductive Op
  | hook (c : HookCall)
  | guard (name : String) (i : Ident)
  | drop (name : String)
deriving DecidableEq

namespace Guarded

def hear (caller : Ident) (s : Guarded) (c : HookCall) : Guarded :=
  { s with registry := s.registry.hear caller c }

def step (caller : Ident) (s : Guarded) : Op → Guarded
  | .hook c => s.hear caller c
  | .guard name i =>
    let registered := { s.hear caller (.register i) with guards := s.guards.insert name i }
    match s.guards.get? name with
    | none => registered
    | some old => registered.hear caller (.deregister old)
  | .drop name =>
    match s.guards.get? name with
    | none => s
    | some i => { s.hear caller (.deregister i) with guards := s.guards.erase name }

def run (s : Guarded) : List (Ident × Op) → Guarded
  | [] => s
  | (caller, op) :: rest => run (s.step caller op) rest

theorem run_append (s : Guarded) (xs ys : List (Ident × Op)) :
    s.run (xs ++ ys) = (s.run xs).run ys := by
  induction xs generalizing s with
  | nil => rfl
  | cons x xs ih => exact ih _

end Guarded

end Registry

structure Collector where
  registry : Registry := {}
  heard : List HookCall := []
deriving DecidableEq, Inhabited

def Collector.hear (caller : Ident) (c : Collector) (h : HookCall) : Collector :=
  ⟨c.registry.hear caller h, h :: c.heard⟩

end InterpreterLock
