import InterpreterLock.CommandLine

/-!
# The program

Reads the environment, the arguments and the clock, and prints what the command line leaves.
-/

set_option autoImplicit false

namespace InterpreterLock

def variableNames : List String :=
  [Config.Variable.mode, Config.Variable.backend, Config.Variable.collector,
   Config.Variable.stackSize, Config.Variable.maxThreads, Config.Variable.patience,
   Host.stackVariable] ++ CommandLine.styleVariables

def readEnvironment : IO Environment := do
  let pairs ← variableNames.mapM fun v => do pure (v, ← IO.getEnv v)
  pure fun v => (pairs.find? fun e => e.1 == v).bind Prod.snd

def abortCode : Nat := 134

end InterpreterLock

open InterpreterLock in
def main (args : List String) : IO UInt32 := do
  let env ← readEnvironment
  let start ← IO.monoNanosNow
  let output ←
    match CommandLine.outcome env args ⟨start⟩ with
    | .error o => pure o
    | .ok r => do
      let stop ← IO.monoNanosNow
      pure (CommandLine.finish ((stop - start) / 1000000) (.ok r))
  IO.print output.out
  IO.eprint output.err
  pure (output.code.getD abortCode).toUInt32
