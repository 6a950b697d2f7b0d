import InterpreterLock.Bootstrap
import InterpreterLock.Interpreter.Config

/-!
# Interpreters

An interpreter joins its lock, the bootstrap of its threads with their collector, and the
counters both write to.
-/

set_option autoImplicit false

namespace InterpreterLock

structure Interpreter where
  gil : Gil
  bootstrap : Bootstrap
  metrics : Metrics := {}
deriving DecidableEq

namespace Interpreter

def build (c : Config) : Except ThreadError Interpreter :=
  let bootstrap : Bootstrap :=
    { backend := c.backend
      collector := if c.collector then some {} else none
      limit := c.maxThreads }
  (bootstrap.setStackSize c.stackSize).map fun (_, bootstrap) =>
    { gil := .new c.mode c.backend c.patience, bootstrap }

def hear (caller : Ident) (c : HookCall) (s : Interpreter) : Interpreter :=
  { s with bootstrap := s.bootstrap.hear caller c }

def heard (s : Interpreter) : List HookCall :=
  match s.bootstrap.collector with
  | none => []
  | some c => c.heard

end Interpreter

end InterpreterLock
