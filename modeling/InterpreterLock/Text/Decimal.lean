/-!
# Unsigned decimal numbers

Numbers are written with the fewest digits. A number is read from an optional plus sign and one or
more digits; leading zeros are allowed, and the value has to fit in a machine word.
-/

set_option autoImplicit false

namespace InterpreterLock.Text

def digitChar (d : Nat) : Char := Char.ofNat ('0'.toNat + d)

def digitValue? (c : Char) : Option Nat :=
  if '0' ≤ c && c ≤ '9' then some (c.toNat - '0'.toNat) else none

def digits (n : Nat) : List Char :=
  if n < 10 then [digitChar n] else digits (n / 10) ++ [digitChar (n % 10)]
termination_by n

def decimal (n : Nat) : String := String.ofList (digits n)

def wordLimit : Nat := UInt64.size

inductive NumberFault
  | empty
  | notADigit
  | tooLarge
deriving DecidableEq, Repr

def NumberFault.message : NumberFault → String
  | .empty => "cannot parse integer from empty string"
  | .notADigit => "invalid digit found in string"
  | .tooLarge => "number too large to fit in target type"

def readDigits : Nat → List Char → Except NumberFault Nat
  | acc, [] => .ok acc
  | acc, c :: rest =>
    match digitValue? c with
    | none => .error .notADigit
    | some d =>
      let next := acc * 10 + d
      if next < wordLimit then readDigits next rest else .error .tooLarge

def readWordChars : List Char → Except NumberFault Nat
  | [] => .error .empty
  | ['+'] => .error .notADigit
  | '+' :: rest => readDigits 0 rest
  | cs => readDigits 0 cs

def readWord (s : String) : Except NumberFault Nat := readWordChars s.toList

theorem digits_of_lt {n : Nat} (h : n < 10) : digits n = [digitChar n] := by
  rw [digits, if_pos h]

theorem digits_of_ge {n : Nat} (h : ¬ n < 10) :
    digits n = digits (n / 10) ++ [digitChar (n % 10)] := by
  rw [digits, if_neg h]

theorem digits_ne_nil (n : Nat) : digits n ≠ [] := by
  rw [digits]; split <;> simp

theorem readDigits_lt {acc n : Nat} {cs : List Char} (h : readDigits acc cs = .ok n)
    (hacc : acc < wordLimit) : n < wordLimit := by
  induction cs generalizing acc with
  | nil =>
    cases h
    exact hacc
  | cons c rest ih =>
    cases hc : digitValue? c with
    | none => simp [readDigits, hc] at h
    | some d =>
      by_cases hd : acc * 10 + d < wordLimit
      · exact ih (by simpa [readDigits, hc, hd] using h) hd
      · simp [readDigits, hc, hd] at h

/-- What is read from a text fits in a machine word. -/
theorem readWord_lt {s : String} {n : Nat} (h : readWord s = .ok n) : n < wordLimit := by
  have hzero : 0 < wordLimit := by decide
  unfold readWord readWordChars at h
  split at h
  · cases h
  · cases h
  · exact readDigits_lt h hzero
  · exact readDigits_lt h hzero

def padLeft (width : Nat) (s : String) : String :=
  String.ofList (List.replicate (width - s.length) ' ' ++ s.toList)

end InterpreterLock.Text
