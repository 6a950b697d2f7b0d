import InterpreterLock.Text.CaseTable

/-!
# Full lower-casing

Every character is replaced on its own, with two exceptions: the dotted capital I becomes two
characters, and a capital sigma becomes the final form when it ends a word. Names are compared
after lower-casing, and quoted lower-cased when they are refused.
-/

set_option autoImplicit false

namespace InterpreterLock.Text

def isCased (c : Char) : Bool := inRanges casedRanges c

def isCaseIgnorable (c : Char) : Bool := inRanges caseIgnorableRanges c

def meetsLetter : List Char → Bool
  | [] => false
  | c :: rest => if isCaseIgnorable c then meetsLetter rest else isCased c

def endsWord (before after : List Char) : Bool :=
  meetsLetter before && !meetsLetter after

def shiftedBy (c : Char) (shift : Int) : Char :=
  Char.ofNat ((c.toNat : Int) + shift).toNat

def lowerChar (c : Char) : List Char :=
  if c = 'İ' then ['i', '\u0307']
  else match caseShifts.find? (·.covers c.toNat) with
    | some r => [shiftedBy c r.shift]
    | none => [c]

def lowerAfter (before : List Char) : List Char → List Char
  | [] => []
  | c :: rest =>
    let here := if c = 'Σ' && endsWord before rest then ['ς'] else lowerChar c
    here ++ lowerAfter (c :: before) rest

def lower (s : String) : String :=
  String.ofList (lowerAfter [] s.toList)

def readLowered {α ε : Type} (ofLowered? : String → Option α) (refuse : String → ε) (s : String) :
    Except ε α :=
  match ofLowered? (lower s) with
  | some a => .ok a
  | none => .error (refuse (lower s))

theorem lowerAfter_nil (before : List Char) : lowerAfter before [] = [] := rfl

theorem lower_empty : lower "" = "" := rfl

end InterpreterLock.Text
