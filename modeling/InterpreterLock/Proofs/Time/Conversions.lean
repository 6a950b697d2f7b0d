import InterpreterLock.Proofs.Time.Words
import Mathlib.Algebra.Order.Floor.Div

/-!
# Conversions of timeouts

A timeout is made from a duration, from milliseconds or from microseconds, and it is turned back
into a duration or into the milliseconds of a native wait. A duration is rounded down on its way in
and a timeout is rounded up on its way out; both are cut down to the longest that there is, and
never to what stands for waiting forever.
-/

set_option autoImplicit false

namespace InterpreterLock.Timeout

structure OfDuration (d : Duration) : Prop where
  finite : (ofDuration d).isInfinite = false
  rounded : (ofDuration d).duration? = some (.ofMicros (min d.micros maxMicros))
  monotone : ∀ e : Duration, d.nanoseconds ≤ e.nanoseconds →
    (ofDuration d).micros ≤ (ofDuration e).micros
  wide : d.wideMicros.toNat = d.micros
  word : (ofDuration d).word = Word.ofDuration d

structure OfMillis (m : Int64) : Prop where
  endless : m < 0 → ofMillis m.toInt = infinite
  agrees : 0 ≤ m → ofMillis m.toInt = ofDuration (.ofMillis m.toInt.toNat)
  saturated : 0 ≤ m → (ofMillis m.toInt).micros = min (m.toInt * 1000) maxMicros
  word : (ofMillis m.toInt).word = Word.ofMillis m

variable (d : Duration) (t : Timeout) (m : Int64)

theorem micros_ofDuration : (ofDuration d).micros = min (d.micros : ℤ) maxMicros := rfl

theorem micros_ofDuration_nonneg : 0 ≤ (ofDuration d).micros := by
  rw [micros_ofDuration]
  omega

theorem isInfinite_ofDuration : (ofDuration d).isInfinite = false := by
  have h := micros_ofDuration_nonneg d
  simp only [isInfinite, decide_eq_false_iff_not]
  omega

theorem ofDuration_agrees (hd : d.seconds < UInt64.size) : OfDuration d where
  finite := isInfinite_ofDuration d
  rounded := by
    have hback : (ofDuration d).micros.toNat = min d.micros maxMicros := by
      rw [micros_ofDuration]
      omega
    simp [duration?, isInfinite_ofDuration, hback]
  monotone e h := by
    have hmicros : d.micros ≤ e.micros := Nat.div_le_div_right h
    rw [micros_ofDuration, micros_ofDuration]
    omega
  wide := d.toNat_wideMicros hd
  word := word_ofDuration d hd

theorem ofMillis_of_nonneg (h : 0 ≤ m.toInt) :
    (ofMillis m.toInt).micros = min (m.toInt * 1000) maxMicros := by
  unfold ofMillis
  rw [if_neg (by omega)]
  simp only [ofNat]
  omega

theorem ofMillis_agrees : OfMillis m where
  endless h := by
    rw [Int64.lt_iff_toInt_lt] at h
    exact if_pos h
  agrees h := by
    rw [Int64.le_iff_toInt_le] at h
    change 0 ≤ m.toInt at h
    have hmicros : (Duration.ofMillis m.toInt.toNat).micros = m.toInt.toNat * 1000 := by
      simp only [Duration.micros, Duration.ofMillis]
      omega
    rw [ofMillis, if_neg (by omega), ofDuration, hmicros]
  saturated h := by
    rw [Int64.le_iff_toInt_le] at h
    exact ofMillis_of_nonneg m h
  word := word_ofMillis m

structure Converts (t : Timeout) : Prop where
  regained : 0 ≤ t.micros → t.duration?.map ofDuration = some t
  endless : t.waitMillis = none ↔ t.isInfinite = true
  monotone : ∀ u : Timeout, 0 ≤ t.micros → t.micros ≤ u.micros →
    ∃ m n, t.waitMillis = some m ∧ u.waitMillis = some n ∧ m ≤ n
  zero : t.waitMillis = some 0 ↔ t.micros = 0
  covers : ∀ ms, t.waitMillis = some ms → ms ≠ maxWaitMillis →
    t.micros ≤ 1000 * ms ∧ 1000 * (ms : ℤ) - t.micros < 1000
  capped : t.waitMillis = some maxWaitMillis ↔
    0 ≤ t.micros ∧ maxWaitMillis ≤ t.micros.toNat ⌈/⌉ 1000
  unsigned : 0 ≤ t.micros → (t.word.toUInt64.toNat : ℤ) = t.micros
  durationWord : t.duration? = (Word.micros? t.word).map fun n => .ofMicros n.toNat
  waitWord : t.waitMillis = (Word.waitMillis? t.word).map UInt32.toNat

variable {t}

theorem waitMillis_of_nonneg (h : 0 ≤ t.micros) :
    t.waitMillis = some (min (t.micros.toNat ⌈/⌉ 1000) maxWaitMillis) := by
  have hfinite : ¬ t.micros < 0 := by omega
  simp [waitMillis, isInfinite, hfinite, Nat.ceilDiv_eq_add_pred_div]

theorem nonneg_of_waitMillis {ms : ℕ} (h : t.waitMillis = some ms) : 0 ≤ t.micros := by
  by_contra hneg
  have hinfinite : t.micros < 0 := by omega
  simp [waitMillis, isInfinite, hinfinite] at h

theorem converts (t : Timeout) : Converts t where
  regained h := by
    have hfinite : ¬ t.micros < 0 := by omega
    have hupper := t.upper
    have hmicros : (Duration.ofMicros t.micros.toNat).micros = t.micros.toNat :=
      Nat.mul_div_cancel _ (by decide)
    have hback : ofDuration (.ofMicros t.micros.toNat) = t := by
      apply word_injective
      rw [← Int64.toInt_inj, toInt_word, toInt_word, micros_ofDuration, hmicros]
      simp only [maxMicros]
      omega
    simp [duration?, isInfinite, hfinite, hback]
  endless := by
    by_cases h : t.micros < 0
    · simp [waitMillis, isInfinite, h]
    · simp [waitMillis, isInfinite, h]
  monotone u ht hu := by
    refine ⟨_, _, waitMillis_of_nonneg ht, waitMillis_of_nonneg (ht.trans hu), ?_⟩
    rw [Nat.ceilDiv_eq_add_pred_div, Nat.ceilDiv_eq_add_pred_div]
    omega
  zero := by
    constructor
    · intro h
      have hnonneg := nonneg_of_waitMillis h
      rw [waitMillis_of_nonneg hnonneg, Nat.ceilDiv_eq_add_pred_div] at h
      have hmin := Option.some.inj h
      simp only [maxWaitMillis] at hmin
      omega
    · intro h
      rw [waitMillis_of_nonneg h.ge, h]
      rfl
  covers ms h hne := by
    have hnonneg := nonneg_of_waitMillis h
    rw [waitMillis_of_nonneg hnonneg, Nat.ceilDiv_eq_add_pred_div] at h
    have hmin := Option.some.inj h
    constructor <;> omega
  capped := by
    constructor
    · intro h
      have hnonneg := nonneg_of_waitMillis h
      rw [waitMillis_of_nonneg hnonneg] at h
      have hmin := Option.some.inj h
      exact ⟨hnonneg, by omega⟩
    · rintro ⟨hnonneg, hcap⟩
      rw [waitMillis_of_nonneg hnonneg, Nat.min_eq_right hcap]
  unsigned h := by
    rw [toNat_toUInt64_word t h]
    omega
  durationWord := t.duration?_eq_word
  waitWord := t.waitMillis_eq_word

/-- The conversions agree with one another for every duration, every number of milliseconds and
every timeout, and on words they give what they give on numbers. -/
theorem conversions_agree (d : Duration) (hd : d.seconds < UInt64.size) (m : Int64) (t : Timeout) :
    OfDuration d ∧ OfMillis m ∧ Converts t :=
  ⟨ofDuration_agrees d hd, ofMillis_agrees m, converts t⟩

/-- The longest duration, the first number of milliseconds that is cut down, and the first timeout
that is. -/
theorem conversions_agree_longest :
    let d : Duration := .ofParts 18446744073709551615 999999999
    let m : Int64 := 9223372036854776
    let t : Timeout := .ofNat 4294967293001
    d.seconds < UInt64.size ∧ (OfDuration d ∧ OfMillis m ∧ Converts t) ∧
      (ofDuration d).micros = maxMicros ∧ (ofMillis m.toInt).micros = maxMicros ∧
      t.waitMillis = some maxWaitMillis := by
  intro d m t
  have hd : d.seconds < UInt64.size := by decide
  exact ⟨hd, conversions_agree d hd m t, by decide, by decide, by decide⟩

end InterpreterLock.Timeout
