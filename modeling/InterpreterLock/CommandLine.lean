import InterpreterLock.CommandLine.Arguments
import InterpreterLock.Workload.Report

/-!
# The command line

Reads the arguments, runs the workload they ask for, and writes its report. The exit code is zero if
every worker had its section for itself, two if not or if the arguments cannot be read, one if a
thread could not be started, and a hundred and one after a panic. A program that is aborted has no
exit code.
-/

set_option autoImplicit false

namespace InterpreterLock.CommandLine

structure Output where
  code : Option Nat
  out : String := ""
  err : String := ""
deriving DecidableEq, Repr

def Arguments.plan (a : Arguments) : Workload.Plan := ⟨a.threads, a.iterations, a.yieldEvery⟩

def Arguments.config (a : Arguments) (env : Environment) : Config :=
  Workload.configure env a.mode a.backend

def Refusal.output (env : Environment) (r : Refusal) : Output :=
  match r with
  | .help | .version => { code := some 0, out := r.written env }
  | _ => { code := some 2, err := r.written env }

def failureOutput : Workload.Failure → Output
  | .thread e => { code := some 1, err := "Error running workload: " ++ e.message ++ "\n" }
  | .panic p => { code := some 101, err := "\nthread 'main' panicked:\n" ++ p.message ++ "\n" }
  | .outOfMemory bytes =>
    { code := none, err := "memory allocation of " ++ Text.decimal bytes ++ " bytes failed\n" }

def reportOutput (json : Bool) (r : Workload.Report) : Output where
  code := some (if r.violations = 0 then 0 else 2)
  out := if json then r.toJson.pretty ++ "\n" else r.display

def outcome (env : Environment) (args : List String) (now : Instant) :
    Except Output (Arguments × Workload.State) :=
  match readLine args with
  | .error r => .error (r.output env)
  | .ok a =>
    match Workload.finalState (.ofEnvironment env) (a.config env) a.plan now with
    | .error e => .error (failureOutput e)
    | .ok s => .ok (a, s)

def finish (elapsedMillis : Nat) : Except Output (Arguments × Workload.State) → Output
  | .error o => o
  | .ok (a, s) => reportOutput a.json (s.report a.plan elapsedMillis)

def run (env : Environment) (args : List String) (now : Instant) (elapsedMillis : Nat) : Output :=
  finish elapsedMillis (outcome env args now)

end InterpreterLock.CommandLine
