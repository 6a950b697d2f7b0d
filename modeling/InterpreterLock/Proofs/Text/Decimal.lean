import InterpreterLock.Text.Blank
import InterpreterLock.Text.Decimal
import Mathlib.Data.Nat.Digits.Defs

/-!
# Numerals

A numeral is one or more digits, with or without a plus sign before them. It stands for the sum of
its digits, each weighed by its place. What can be read is just the numerals of machine words, and a
number is written by its digits with any zeros before them.
-/

set_option autoImplicit false

namespace InterpreterLock.Text

def place (ds : List Char) : ℕ := Nat.ofDigits 10 (ds.reverse.map fun c => c.toNat - '0'.toNat)

theorem place_nil : place [] = 0 := rfl

theorem place_cons (c : Char) (ds : List Char) :
    place (c :: ds) = (c.toNat - '0'.toNat) * 10 ^ ds.length + place ds := by
  simp only [place, List.reverse_cons, List.map_append, Nat.ofDigits_append, List.map_singleton,
    Nat.ofDigits_singleton, List.length_map, List.length_reverse]
  ring

theorem place_concat (ds : List Char) (c : Char) :
    place (ds ++ [c]) = 10 * place ds + (c.toNat - '0'.toNat) := by
  simp only [place, List.reverse_append, List.reverse_singleton, List.singleton_append,
    List.map_cons, Nat.ofDigits_cons]
  ring

theorem place_zeros (k : ℕ) (ds : List Char) : place (List.replicate k '0' ++ ds) = place ds := by
  induction k with
  | zero => rfl
  | succ k ih =>
    rw [List.replicate_succ, List.cons_append, place_cons, ih]
    simp

theorem digitValue?_eq (c : Char) :
    digitValue? c = if c.isDigit then some (c.toNat - '0'.toNat) else none := rfl

theorem digitChar_spec : ∀ d < 10, (digitChar d).isDigit = true ∧
    (digitChar d).toNat - '0'.toNat = d := by decide

theorem isDigit_of_mem_digits (n : ℕ) : ∀ c ∈ digits n, c.isDigit = true := by
  induction n using digits.induct with
  | case1 n h =>
    rw [digits_of_lt h]
    intro c hc
    rw [List.mem_singleton.mp hc]
    exact (digitChar_spec n h).1
  | case2 n h ih =>
    rw [digits_of_ge h]
    intro c hc
    rcases List.mem_append.mp hc with hfront | hlast
    · exact ih c hfront
    · rw [List.mem_singleton.mp hlast]
      exact (digitChar_spec (n % 10) (Nat.mod_lt n (by decide))).1

theorem place_digits (n : ℕ) : place (digits n) = n := by
  induction n using digits.induct with
  | case1 n h =>
    rw [digits_of_lt h, place_cons, (digitChar_spec n h).2]
    simp [place_nil]
  | case2 n h ih =>
    rw [digits_of_ge h, place_concat, ih, (digitChar_spec (n % 10) (Nat.mod_lt n (by decide))).2]
    exact Nat.div_add_mod n 10

structure Spells (n : ℕ) (ds : List Char) : Prop where
  ne_nil : ds ≠ []
  digits : ∀ c ∈ ds, c.isDigit = true
  value : place ds = n

def IsNumeral (n : ℕ) (cs : List Char) : Prop := Spells n cs ∨ ∃ ds, cs = '+' :: ds ∧ Spells n ds

def WritesOut (n : ℕ) (cs : List Char) : Prop :=
  ∃ k, cs = List.replicate k '0' ++ digits n ∨ cs = '+' :: (List.replicate k '0' ++ digits n)

theorem spells_zeros (k n : ℕ) : Spells n (List.replicate k '0' ++ digits n) where
  ne_nil := by simp [digits_ne_nil]
  digits c hc := by
    rcases List.mem_append.mp hc with hzero | hdigit
    · rw [List.eq_of_mem_replicate hzero]
      rfl
    · exact isDigit_of_mem_digits n c hdigit
  value := by rw [place_zeros, place_digits]

theorem WritesOut.isNumeral {n : ℕ} {cs : List Char} (h : WritesOut n cs) : IsNumeral n cs := by
  obtain ⟨k, rfl | rfl⟩ := h
  · exact .inl (spells_zeros k n)
  · exact .inr ⟨_, rfl, spells_zeros k n⟩

theorem not_spells_plus {n : ℕ} {ds : List Char} : ¬ Spells n ('+' :: ds) := by
  intro h
  have hplus : '+'.isDigit = true := h.digits '+' List.mem_cons_self
  exact absurd hplus (by decide)

theorem isNumeral_plus {n : ℕ} {ds : List Char} : IsNumeral n ('+' :: ds) ↔ Spells n ds := by
  constructor
  · rintro (h | ⟨ds', he, h⟩)
    · exact absurd h not_spells_plus
    · rwa [(List.cons.inj he).2]
  · exact fun h => .inr ⟨ds, rfl, h⟩

theorem isNumeral_of_no_plus {n : ℕ} {cs : List Char} (h : ∀ ds, cs ≠ '+' :: ds) :
    IsNumeral n cs ↔ Spells n cs := by
  constructor
  · rintro (hs | ⟨ds, he, -⟩)
    · exact hs
    · exact absurd he (h ds)
  · exact Or.inl

theorem isBlank_of_isDigit {c : Char} (h : c.isDigit = true) : isBlank c = false := by
  simp only [Char.isDigit, Bool.and_eq_true, decide_eq_true_eq] at h
  have hlow : 48 ≤ c.toNat := h.1
  have hhigh : c.toNat ≤ 57 := h.2
  simp only [isBlank, Bool.or_eq_false_iff, Bool.and_eq_false_iff, decide_eq_false_iff_not,
    beq_eq_false_iff_ne]
  omega

theorem IsNumeral.isBlank {n : ℕ} {cs : List Char} (h : IsNumeral n cs) :
    ∀ c ∈ cs, isBlank c = false := by
  obtain h | ⟨ds, rfl, h⟩ := h
  · exact fun c hc => isBlank_of_isDigit (h.digits c hc)
  · intro c hc
    rcases List.mem_cons.mp hc with rfl | hdigit
    · rfl
    · exact isBlank_of_isDigit (h.digits c hdigit)

theorem readDigits_eq_ok_iff {acc n : ℕ} {cs : List Char} (hacc : acc < wordLimit) :
    readDigits acc cs = .ok n ↔
      (∀ c ∈ cs, c.isDigit = true) ∧ acc * 10 ^ cs.length + place cs = n ∧ n < wordLimit := by
  induction cs generalizing acc with
  | nil =>
    simp only [readDigits, Except.ok.injEq, place_nil]
    constructor
    · rintro rfl
      simpa using hacc
    · rintro ⟨-, hvalue, -⟩
      simpa using hvalue
  | cons c rest ih =>
    have hvalue : ∀ d, (acc * 10 + d) * 10 ^ rest.length + place rest =
        acc * 10 ^ (c :: rest).length + (d * 10 ^ rest.length + place rest) := by
      intro d
      rw [List.length_cons]
      ring
    by_cases hc : c.isDigit = true
    · rw [readDigits, digitValue?_eq, if_pos hc]
      by_cases hnext : acc * 10 + (c.toNat - '0'.toNat) < wordLimit
      · simp only [if_pos hnext, ih hnext, List.forall_mem_cons, hc, true_and, place_cons, hvalue]
      · -- what follows only makes the number larger
        have hgrows : acc * 10 + (c.toNat - '0'.toNat) ≤
            acc * 10 ^ (c :: rest).length + place (c :: rest) := by
          rw [place_cons, ← hvalue]
          exact (Nat.le_mul_of_pos_right _ (by positivity)).trans (Nat.le_add_right _ _)
        simp only [if_neg hnext, reduceCtorEq, false_iff]
        rintro ⟨-, rfl, hfits⟩
        omega
    · rw [readDigits, digitValue?_eq, if_neg hc]
      simp [hc]

theorem readDigits_zero_eq_ok_iff {n : ℕ} {ds : List Char} (hne : ds ≠ []) :
    readDigits 0 ds = .ok n ↔ Spells n ds ∧ n < wordLimit := by
  rw [readDigits_eq_ok_iff (by decide), Nat.zero_mul, Nat.zero_add, ← and_assoc]
  exact and_congr_left' ⟨fun h => ⟨hne, h.1, h.2⟩, fun h => ⟨h.digits, h.value⟩⟩

theorem readWordChars_eq_ok_iff {n : ℕ} {cs : List Char} :
    readWordChars cs = .ok n ↔ IsNumeral n cs ∧ n < wordLimit := by
  unfold readWordChars
  split
  · simp only [reduceCtorEq, false_iff]
    rintro ⟨h, -⟩
    exact ((isNumeral_of_no_plus fun ds he => by cases he).mp h).ne_nil rfl
  · simp only [reduceCtorEq, false_iff]
    rintro ⟨h, -⟩
    exact (isNumeral_plus.mp h).ne_nil rfl
  · rename_i rest hrest
    rw [isNumeral_plus]
    exact readDigits_zero_eq_ok_iff fun he => hrest he
  · rename_i hnil hplus hsign
    rw [isNumeral_of_no_plus hsign]
    exact readDigits_zero_eq_ok_iff hnil

theorem readWord_eq_ok_iff {n : ℕ} {s : String} :
    readWord s = .ok n ↔ IsNumeral n s.toList ∧ n < wordLimit :=
  readWordChars_eq_ok_iff

end InterpreterLock.Text
