/-!
# Names on the command line

Five options take a value and three flags take none. Each has a long name; the value's place in a
message is the long name in capitals.
-/

set_option autoImplicit false

namespace InterpreterLock.CommandLine

inductive Setting
  | threads
  | iterations
  | yieldEvery
  | mode
  | backend
deriving DecidableEq, Repr

inductive Flag
  | json
  | help
  | version
deriving DecidableEq, Repr

inductive Name
  | setting (s : Setting)
  | flag (f : Flag)
deriving DecidableEq, Repr

def Setting.long : Setting → String
  | .threads => "threads"
  | .iterations => "iterations"
  | .yieldEvery => "yield-every"
  | .mode => "mode"
  | .backend => "backend"

def Flag.long : Flag → String
  | .json => "json"
  | .help => "help"
  | .version => "version"

def Setting.shown : Setting → String
  | .threads => "--threads <THREADS>"
  | .iterations => "--iterations <ITERATIONS>"
  | .yieldEvery => "--yield-every <YIELD_EVERY>"
  | .mode => "--mode <MODE>"
  | .backend => "--backend <BACKEND>"

namespace Name

def settings : List Setting := [.threads, .iterations, .yieldEvery, .mode, .backend]

def flags : List Flag := [.json, .help, .version]

def ofLong? (s : String) : Option Name :=
  match settings.find? (·.long == s) with
  | some o => some (.setting o)
  | none => (flags.find? (·.long == s)).map .flag

def ofShort? : Char → Option Name
  | 't' => some (.setting .threads)
  | 'i' => some (.setting .iterations)
  | 'y' => some (.setting .yieldEvery)
  | 'h' => some (.flag .help)
  | 'V' => some (.flag .version)
  | _ => none

def shown : Name → String
  | .setting s => s.shown
  | .flag f => "--" ++ f.long

end Name

end InterpreterLock.CommandLine
