import InterpreterLock.CommandLine.Name
import InterpreterLock.Environment
import InterpreterLock.Text.Plain

/-!
# Refused command lines

Why a line is not run, and the message that says so. A message is put together with escape sequences
that set off what is quoted, and then made plain, so that what an argument would do to a terminal is
left out. An escape sequence that an argument leaves open ends where the next piece is set off. When
a message is written, variables of the environment may ask for it as it was put together.
-/

set_option autoImplicit false

namespace InterpreterLock.CommandLine

inductive Refusal
  | help
  | version
  | valueMissing (s : Setting)
  | valueInvalid (s : Setting) (value reason : String)
  | repeated (n : Name)
  | valueUnwanted (f : Flag) (value : String)
  | unknown (argument : String)
deriving DecidableEq, Repr

def about : String := "Run a GIL contention workload and report lock metrics"

def versionLine : String := "fastgil 0.1.0"

def demandVariable : String := "CLICOLOR_FORCE"

def banVariable : String := "NO_COLOR"

def styleVariables : List String := [demandVariable, banVariable]

inductive Piece
  | error
  | words (s : String)
  | wrong (s : String)
  | name (s : String)
deriving DecidableEq, Repr

namespace Piece

def reset : String := "\x1b[0m"

def styled : Piece → String
  | error => "\x1b[1m\x1b[31merror:" ++ reset ++ " "
  | words s => s
  | wrong s => "\x1b[33m" ++ s ++ reset
  | name s => "\x1b[1m" ++ s ++ reset

end Piece

namespace Refusal

def sentence : Refusal → List Piece
  | .help => [.words about]
  | .version => [.words versionLine]
  | .valueMissing s =>
    [.error, .words "a value is required for '", .wrong s.shown,
     .words "' but none was supplied"]
  | .valueInvalid s value reason =>
    [.error, .words "invalid value '", .wrong value, .words "' for '", .name s.shown,
     .words "': ", .words reason]
  | .repeated n =>
    [.error, .words "the argument '", .wrong n.shown, .words "' cannot be used multiple times"]
  | .valueUnwanted f value =>
    [.error, .words "unexpected value '", .wrong value, .words "' for '",
     .name (Name.flag f).shown, .words "' found; no more were expected"]
  | .unknown argument => [.error, .words "unexpected argument '", .wrong argument, .words "' found"]

def advice : Refusal → List Piece
  | .help | .version => [.words "\n"]
  | _ => [.words "\n\nFor more information, try '", .name "--help", .words "'.\n"]

def styled (r : Refusal) : String := String.join ((r.sentence ++ r.advice).map Piece.styled)

def message (r : Refusal) : String := Text.plain .text r.styled

def wantsStyles (env : Environment) : Bool := env.isOn demandVariable && !env.isOn banVariable

def written (env : Environment) (r : Refusal) : String :=
  if wantsStyles env then r.styled else Text.plain .stream r.styled

end Refusal

end InterpreterLock.CommandLine
