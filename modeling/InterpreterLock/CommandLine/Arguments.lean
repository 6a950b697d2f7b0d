import InterpreterLock.Backend
import InterpreterLock.CommandLine.Refusal
import InterpreterLock.Mode

/-!
# Arguments of the command line

An option's value is attached or the next argument. An argument that begins with a hyphen is never
the value of the option before it. A value is looked at when the next option is met or the line
ends, so that an argument nobody knows is found out first.
-/

set_option autoImplicit false

namespace InterpreterLock.CommandLine

structure Arguments where
  threads : Nat := 4
  iterations : Nat := 10000
  yieldEvery : Nat := 100
  mode : Option Mode := none
  backend : Option Backend := none
  json : Bool := false
deriving DecidableEq, Repr, Inhabited

structure Reading where
  arguments : Arguments := {}
  seen : List Name := []
  pending : Option (Setting × Option String) := none
  escaped : Bool := false
deriving DecidableEq, Repr, Inhabited

namespace Reading

def setNumber (s : Setting) (value : String) (set : Nat → Arguments) : Except Refusal Arguments :=
  match Text.readWord value with
  | .ok n => .ok (set n)
  | .error e => .error (.valueInvalid s value e.message)

def setValue (a : Arguments) (s : Setting) (value : String) : Except Refusal Arguments :=
  match s with
  | .threads => setNumber s value fun n => { a with threads := n }
  | .iterations => setNumber s value fun n => { a with iterations := n }
  | .yieldEvery => setNumber s value fun n => { a with yieldEvery := n }
  | .mode =>
    match Mode.ofName value with
    | .ok m => .ok { a with mode := some m }
    | .error e => .error (.valueInvalid s value e.message)
  | .backend =>
    match Backend.ofName value with
    | .ok b => .ok { a with backend := some b }
    | .error e => .error (.valueInvalid s value e.message)

def mark (r : Reading) (n : Name) : Except Refusal Reading :=
  if r.seen.contains n then .error (.repeated n) else .ok { r with seen := n :: r.seen }

def give (r : Reading) (s : Setting) : Option String → Except Refusal Reading
  | none => .error (.valueMissing s)
  | some value => do
    let r ← r.mark (.setting s)
    let arguments ← setValue r.arguments s value
    pure { r with arguments }

def resolve (r : Reading) : Except Refusal Reading :=
  match r.pending with
  | none => .ok r
  | some (s, value) => { r with pending := none }.give s value

def meetSetting (r : Reading) (s : Setting) (value : Option String) : Except Refusal Reading := do
  let r ← r.resolve
  match value with
  | some v => r.give s (some v)
  | none => pure { r with pending := some (s, none) }

def meetFlag (r : Reading) (f : Flag) : Except Refusal Reading := do
  let r ← r.resolve
  match f with
  | .help => throw .help
  | .version => throw .version
  | .json =>
    let r ← r.mark (.flag .json)
    pure { r with arguments := { r.arguments with json := true } }

def meetLong (r : Reading) (name : String) (value : Option String) : Except Refusal Reading :=
  match Name.ofLong? name with
  | none => .error (.unknown ("--" ++ name))
  | some (.setting s) => r.meetSetting s value
  | some (.flag f) =>
    match value with
    | some v => .error (.valueUnwanted f v)
    | none => r.meetFlag f

def attached : List Char → Option String
  | [] => none
  | '=' :: rest => some (String.ofList rest)
  | cs => some (String.ofList cs)

def meetShort (r : Reading) : List Char → Except Refusal Reading
  | [] => .ok r
  | c :: rest =>
    match Name.ofShort? c with
    | none => .error (.unknown (String.ofList ['-', c]))
    | some (.setting s) => r.meetSetting s (attached rest)
    | some (.flag f) => do
      let r ← r.meetFlag f
      meetShort r rest

def meetOther (r : Reading) (arg : String) : Except Refusal Reading :=
  match r.pending with
  | some (s, none) => .ok { r with pending := some (s, some arg) }
  | _ => .error (.unknown arg)

def splitEquals : List Char → List Char × Option (List Char)
  | [] => ([], none)
  | '=' :: rest => ([], some rest)
  | c :: rest => (c :: (splitEquals rest).1, (splitEquals rest).2)

def meet (r : Reading) (arg : String) : Except Refusal Reading :=
  if r.escaped then .error (.unknown arg)
  else
    match arg.toList with
    | ['-', '-'] => .ok { r with escaped := true }
    | '-' :: '-' :: name =>
      let (name, value) := splitEquals name
      r.meetLong (String.ofList name) (value.map String.ofList)
    | '-' :: c :: rest => r.meetShort (c :: rest)
    | _ => r.meetOther arg

end Reading

def readLine (args : List String) : Except Refusal Arguments := do
  let r ← args.foldlM Reading.meet {}
  let r ← r.resolve
  pure r.arguments

def parse (words : List String) : Except Refusal Arguments := readLine words.tail

theorem parse_nil : parse [] = .ok {} := rfl

end InterpreterLock.CommandLine
