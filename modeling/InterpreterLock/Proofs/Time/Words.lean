import InterpreterLock.Time
import Mathlib.Data.Nat.Basic

/-!
# Timeouts in machine words

A duration is a 64-bit word of seconds and a 32-bit word of nanoseconds, its microseconds are
counted in 128 bits, a timeout is a signed 64-bit word, and a native wait takes a 32-bit word of
milliseconds. Here the conversions are done on the words, and each gives the number that the
conversion of numbers gives: no product is too large for its width, no narrowing drops a digit and
no change of sign is seen.
-/

set_option autoImplicit false

namespace InterpreterLock

namespace Duration

variable (d : Duration)

def secondsWord : UInt64 := .ofNat d.seconds

def subsecondWord : UInt32 := .ofNat d.subsecond

def wideMicros : BitVec 128 :=
  d.secondsWord.toBitVec.setWidth 128 * 1000000#128 + (d.subsecondWord / 1000).toBitVec.setWidth 128

theorem toNat_secondsWord (h : d.seconds < UInt64.size) : d.secondsWord.toNat = d.seconds :=
  UInt64.toNat_ofNat_of_lt' h

theorem toNat_subsecondWord : d.subsecondWord.toNat = d.subsecond := by
  have h : d.subsecond < UInt32.size := by
    simp only [subsecond, UInt32.size]
    omega
  exact UInt32.toNat_ofNat_of_lt' h

theorem toNat_wideMicros (h : d.seconds < UInt64.size) : d.wideMicros.toNat = d.micros := by
  have hseconds : d.secondsWord.toBitVec.toNat = d.seconds := d.toNat_secondsWord h
  have hrest : (d.subsecondWord / 1000).toBitVec.toNat = d.subsecond / 1000 := by
    change (d.subsecondWord / 1000).toNat = _
    rw [UInt32.toNat_div, toNat_subsecondWord]
    rfl
  have hparts : d.seconds * 1000000 + d.subsecond / 1000 = d.micros := by
    simp only [seconds, subsecond, micros]
    omega
  have hfits : d.seconds * 1000000 + d.subsecond / 1000 < 2 ^ 128 := by
    have hsub : d.subsecond < 1000000000 := Nat.mod_lt _ (by decide)
    have hsize : UInt64.size = 2 ^ 64 := rfl
    omega
  have hproduct : d.seconds * 1000000 < 2 ^ 128 := Nat.lt_of_le_of_lt (Nat.le_add_right _ _) hfits
  have hthousands : (1000000#128).toNat = 1000000 := rfl
  rw [wideMicros, BitVec.toNat_add, BitVec.toNat_mul, BitVec.toNat_setWidth_of_le (by decide),
    BitVec.toNat_setWidth_of_le (by decide), hseconds, hrest, hthousands,
    Nat.mod_eq_of_lt hproduct, Nat.mod_eq_of_lt hfits, hparts]

end Duration

namespace Timeout

def word (t : Timeout) : Int64 := .ofInt t.micros

theorem toInt_word (t : Timeout) : t.word.toInt = t.micros := by
  have hl := t.lower
  have hu := t.upper
  exact Int64.toInt_ofInt_of_le (by omega) (by omega)

theorem word_injective : Function.Injective word := by
  intro t u h
  have hm : t.micros = u.micros := by rw [← t.toInt_word, ← u.toInt_word, h]
  cases t
  cases u
  simpa using hm

theorem word_eq_iff (t : Timeout) (w : Int64) : t.word = w ↔ t.micros = w.toInt := by
  rw [← Int64.toInt_inj, toInt_word]

namespace Word

/-- The low half of a 128-bit word as a signed word, or the largest signed word if it does not fit
in one. -/
def ofWide (n : BitVec 128) : Int64 :=
  if n ≤ Int64.maxValue.toBitVec.setWidth 128 then ⟨⟨n.setWidth 64⟩⟩ else Int64.maxValue

def ofDuration (d : Duration) : Int64 := ofWide d.wideMicros

def saturatingMul (a b : Int64) : Int64 :=
  if a.toInt * b.toInt < Int64.minValue.toInt then Int64.minValue
  else if Int64.maxValue.toInt < a.toInt * b.toInt then Int64.maxValue
  else a * b

def ofMillis (m : Int64) : Int64 := if m < 0 then -1 else saturatingMul m 1000

def micros? (w : Int64) : Option UInt64 := if w < 0 then none else some w.toUInt64

def ceilDiv (a b : UInt64) : UInt64 := if a % b = 0 then a / b else a / b + 1

def maxWaitMillis : UInt32 := 0xFFFFFFFE

def narrow (n : UInt64) : UInt32 :=
  (if n ≤ maxWaitMillis.toUInt64 then n else maxWaitMillis.toUInt64).toUInt32

def waitMillis? (w : Int64) : Option UInt32 := (micros? w).map fun n => narrow (ceilDiv n 1000)

theorem toInt_ofWide (n : BitVec 128) : (ofWide n).toInt = min n.toNat maxMicros := by
  have hmax : (Int64.maxValue.toBitVec.setWidth 128).toNat = 9223372036854775807 := rfl
  unfold ofWide
  split
  · rename_i hle
    rw [BitVec.le_def, hmax] at hle
    have hlow : (n.setWidth 64).toNat = n.toNat := by
      rw [BitVec.toNat_setWidth]
      omega
    change (n.setWidth 64).toInt = _
    rw [BitVec.toInt_eq_toNat_cond, hlow]
    simp only [maxMicros]
    omega
  · rename_i hgt
    rw [BitVec.le_def, hmax] at hgt
    rw [Int64.toInt_maxValue]
    simp only [maxMicros]
    omega

theorem toInt_saturatingMul (a b : Int64) : (saturatingMul a b).toInt =
    max (-9223372036854775808) (min (a.toInt * b.toInt) 9223372036854775807) := by
  have hmin : Int64.minValue.toInt = -9223372036854775808 := rfl
  have hmax : Int64.maxValue.toInt = 9223372036854775807 := rfl
  unfold saturatingMul
  rw [hmin, hmax]
  split
  · rw [hmin]
    omega
  · split
    · rw [hmax]
      omega
    · rw [Int64.toInt_mul, Int.bmod_eq_of_le (by omega) (by omega)]
      omega

theorem toNat_ceilDiv (a : UInt64) : (ceilDiv a 1000).toNat = (a.toNat + 999) / 1000 := by
  have ha := a.toNat_lt
  have hdiv : (a / 1000).toNat = a.toNat / 1000 := UInt64.toNat_div a 1000
  have hmod : (a % 1000).toNat = a.toNat % 1000 := UInt64.toNat_mod a 1000
  unfold ceilDiv
  split
  · rename_i h
    rw [← UInt64.toNat_inj, hmod] at h
    rw [hdiv]
    change a.toNat % 1000 = 0 at h
    omega
  · rename_i h
    rw [← UInt64.toNat_inj, hmod] at h
    change ¬ a.toNat % 1000 = 0 at h
    rw [UInt64.toNat_add, hdiv]
    change (a.toNat / 1000 + 1) % 2 ^ 64 = _
    omega

theorem toNat_narrow (n : UInt64) : (narrow n).toNat = min n.toNat Timeout.maxWaitMillis := by
  have hmax : maxWaitMillis.toUInt64.toNat = 4294967294 := rfl
  unfold narrow
  split
  · rename_i h
    rw [UInt64.le_iff_toNat_le, hmax] at h
    rw [UInt64.toNat_toUInt32]
    simp only [Timeout.maxWaitMillis]
    omega
  · rename_i h
    rw [UInt64.le_iff_toNat_le, hmax] at h
    rw [UInt64.toNat_toUInt32, hmax]
    simp only [Timeout.maxWaitMillis]
    omega

end Word

theorem word_neg_iff (t : Timeout) : t.word < 0 ↔ t.micros < 0 := by
  rw [Int64.lt_iff_toInt_lt, toInt_word]
  rfl

/-- A timeout that is not infinite is the same number without its sign. -/
theorem toNat_toUInt64_word (t : Timeout) (h : 0 ≤ t.micros) :
    t.word.toUInt64.toNat = t.micros.toNat := by
  have hword : 0 ≤ t.word := by
    rw [Int64.le_iff_toInt_le, toInt_word]
    exact h
  rw [Int64.toNat_toUInt64_of_le hword, Int64.toNatClampNeg, toInt_word]

theorem word_ofDuration (d : Duration) (h : d.seconds < UInt64.size) :
    (ofDuration d).word = Word.ofDuration d := by
  rw [word_eq_iff, Word.ofDuration, Word.toInt_ofWide, d.toNat_wideMicros h]
  simp only [Timeout.ofDuration, Timeout.ofNat]
  omega

theorem word_ofMillis (m : Int64) : (ofMillis m.toInt).word = Word.ofMillis m := by
  have hneg : m < 0 ↔ m.toInt < 0 := Int64.lt_iff_toInt_lt
  have hthousand : (1000 : Int64).toInt = 1000 := rfl
  rw [word_eq_iff]
  unfold ofMillis Word.ofMillis
  by_cases h : m.toInt < 0
  · rw [if_pos h, if_pos (hneg.mpr h)]
    rfl
  · rw [if_neg h, if_neg (mt hneg.mp h), Word.toInt_saturatingMul, hthousand]
    simp only [ofNat, maxMicros]
    omega

theorem duration?_eq_word (t : Timeout) :
    t.duration? = (Word.micros? t.word).map fun n => .ofMicros n.toNat := by
  unfold duration? Word.micros? isInfinite
  by_cases h : t.micros < 0
  · simp [h, t.word_neg_iff.mpr h]
  · simp [h, mt t.word_neg_iff.mp h, t.toNat_toUInt64_word (by omega)]

theorem waitMillis_eq_word (t : Timeout) :
    t.waitMillis = (Word.waitMillis? t.word).map UInt32.toNat := by
  unfold waitMillis Word.waitMillis? Word.micros? isInfinite
  by_cases h : t.micros < 0
  · simp [h, t.word_neg_iff.mpr h]
  · simp only [h, mt t.word_neg_iff.mp h, decide_false, Bool.false_eq_true, if_false,
      Option.map_some, Word.toNat_narrow, Word.toNat_ceilDiv, t.toNat_toUInt64_word (by omega)]

end Timeout

end InterpreterLock
