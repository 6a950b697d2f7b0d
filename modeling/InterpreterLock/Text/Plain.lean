/-!
# Plain text

What is left of a text without its control characters and escape sequences. Tabs, line feeds, form
feeds and carriage returns stay. An escape sequence is an escape character with what it controls:
one character, intermediates and a final one, a bracketed list of parameters with a final character,
a title that a bell ends, or a string that the byte of a string terminator ends. A sequence that is
not finished goes on to the next escape character; characters outside of ASCII neither carry it on
nor finish it.

Layout may interrupt the shorter kinds of sequence. A text forgets the sequence then; a stream takes
it up again at the next control character, unless a character outside of ASCII came before.
-/

set_option autoImplicit false

namespace InterpreterLock.Text

inductive Inside
  | text
  | escape
  | intermediates
  | parameters
  | title
  | device
  | deviceParameters
  | deviceIntermediates
  | string
deriving DecidableEq, Repr

def isLayout (c : Char) : Bool := c == '\t' || c == '\n' || c == '\x0c' || c == '\r'

def isShown (c : Char) : Bool := isLayout c || (' ' ≤ c && c != '\x7f')

def isIntermediate (c : Char) : Bool := ' ' ≤ c && c ≤ '/'

/-- The byte of a string terminator counts in whatever character it stands. -/
def holdsTerminator (c : Char) : Bool := (String.utf8EncodeChar c).contains 0x9c

def afterEscape (c : Char) : Inside :=
  if isIntermediate c then .intermediates
  else if c == '[' then .parameters
  else if c == ']' then .title
  else if c == 'P' then .device
  else if c == 'X' || c == '^' || c == '_' then .string
  else if '0' ≤ c && c ≤ '~' then .text
  else .escape

def hidden (c : Char) : Inside → Inside
  | .text => .text
  | .escape => afterEscape c
  | .intermediates => if '0' ≤ c && c ≤ '~' then .text else .intermediates
  | .parameters => if '@' ≤ c && c ≤ '~' then .text else .parameters
  | .title => if c == '\x07' then .text else .title
  | .device =>
    if isIntermediate c then .deviceIntermediates
    else if '0' ≤ c && c ≤ '?' then .deviceParameters
    else if '@' ≤ c && c ≤ '~' then .string
    else .device
  | .deviceParameters =>
    if isIntermediate c then .deviceIntermediates
    else if '0' ≤ c && c ≤ ';' then .deviceParameters
    else if '<' ≤ c && c ≤ '~' then .string
    else .deviceParameters
  | .deviceIntermediates => if '0' ≤ c && c ≤ '~' then .string else .deviceIntermediates
  | .string => if holdsTerminator c then .text else .string

def hidesLayout : Inside → Bool
  | .text | .escape | .intermediates | .parameters => false
  | _ => true

inductive Reader
  | text
  | stream
deriving DecidableEq, Repr

def Reader.after (r : Reader) (c : Char) (i : Inside) : Inside :=
  match r with
  | .text => .text
  | .stream => if c ≤ '\x7f' then i else .text

/-- The Boolean tells whether the character before was shown: what is open waits then. An escape
character begins anew wherever it stands, and a cancel or a substitute ends all. -/
def plainChars (r : Reader) : Bool → Inside → List Char → List Char
  | _, _, [] => []
  | waits, i, c :: rest =>
    if c == '\x1b' then plainChars r false .escape rest
    else if c == '\x18' || c == '\x1a' then plainChars r false .text rest
    else if isShown c && (waits || i == .text || (isLayout c && !hidesLayout i)) then
      c :: plainChars r true (r.after c i) rest
    else plainChars r false (hidden c i) rest

/-- What an escape character begins does not depend on what it ends. -/
theorem plainChars_escape (r : Reader) (v w : Bool) (i j : Inside) (rest : List Char) :
    plainChars r v i ('\x1b' :: rest) = plainChars r w j ('\x1b' :: rest) := by simp [plainChars]

def plain (r : Reader) (s : String) : String :=
  String.ofList (plainChars r false .text s.toList)

theorem isShown_of_mem_plainChars (r : Reader) (waits : Bool) (i : Inside) (cs : List Char) :
    ∀ c ∈ plainChars r waits i cs, isShown c = true := by
  induction cs generalizing waits i with
  | nil => simp [plainChars]
  | cons d rest ih =>
    intro c hc
    unfold plainChars at hc
    split at hc
    · exact ih _ _ c hc
    split at hc
    · exact ih _ _ c hc
    split at hc
    · rename_i hd
      rcases List.mem_cons.1 hc with rfl | hc
      · exact (Bool.and_eq_true_iff.1 hd).1
      · exact ih _ _ c hc
    · exact ih _ _ c hc

end InterpreterLock.Text
