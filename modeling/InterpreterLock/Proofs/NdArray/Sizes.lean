import InterpreterLock.NdArray
import Mathlib.Algebra.BigOperators.Ring.List
import Mathlib.Algebra.Order.BigOperators.GroupWithZero.List
import Mathlib.Algebra.Order.Ring.Nat
import Mathlib.Data.List.TakeWhile

/-!
# Which shapes fit

The elements are counted from the first dimension on, in a machine word. A zero makes the count
zero, and then nothing can overflow any more; before it, the count of the dimensions in front must
fit. So the order of the dimensions matters, but only for a shape that has a zero in it.
-/

set_option autoImplicit false

namespace InterpreterLock

namespace NdArray

def leadingCount (dims : List ℕ) : ℕ := (dims.takeWhile (0 < ·)).prod

def Fits (dims : List ℕ) (e : Element) : Prop :=
  leadingCount dims ≤ lastWord ∧ dims.prod * e.size ≤ maxBytes

instance (dims : List ℕ) (e : Element) : Decidable (Fits dims e) :=
  inferInstanceAs (Decidable (_ ∧ _))

variable {dims dims' : List ℕ} {e : Element} {l : Layout}

theorem leadingCount_zero (ds : List ℕ) : leadingCount (0 :: ds) = 1 := by
  simp [leadingCount]

theorem leadingCount_cons {d : ℕ} (hd : 0 < d) (ds : List ℕ) :
    leadingCount (d :: ds) = d * leadingCount ds := by
  simp [leadingCount, hd]

theorem leadingCount_pos (dims : List ℕ) : 0 < leadingCount dims := by
  apply List.prod_pos
  intro d hd
  simpa using List.mem_takeWhile_imp hd

theorem leadingCount_of_positive (h : 0 ∉ dims) : leadingCount dims = dims.prod := by
  have hall : dims.takeWhile (0 < ·) = dims := by
    apply List.takeWhile_eq_self_iff.2
    intro d hd
    have hne : d ≠ 0 := fun h0 => h (h0 ▸ hd)
    simpa using Nat.pos_of_ne_zero hne
  rw [leadingCount, hall]

theorem countFrom_zero (dims : List ℕ) : countFrom 0 dims = some 0 := by
  induction dims with
  | nil => rfl
  | cons d ds ih => simpa [countFrom, checkedMul] using ih

theorem countFrom_eq (dims : List ℕ) {n : ℕ} (hn : n ≤ lastWord) :
    countFrom n dims =
      if n * leadingCount dims ≤ lastWord then some (n * dims.prod) else none := by
  induction dims generalizing n with
  | nil => simpa [countFrom, leadingCount] using hn
  | cons d ds ih =>
    by_cases hd : d = 0
    · subst hd
      simpa [countFrom, checkedMul, leadingCount_zero, hn] using countFrom_zero ds
    rw [leadingCount_cons (Nat.pos_of_ne_zero hd), ← Nat.mul_assoc, List.prod_cons,
      ← Nat.mul_assoc]
    by_cases hfit : n * d ≤ lastWord
    · rw [← ih hfit]
      simp [countFrom, checkedMul, hfit]
    · have hover : ¬ n * d * leadingCount ds ≤ lastWord := by
        have := Nat.le_mul_of_pos_right (n * d) (leadingCount_pos ds)
        omega
      simp [countFrom, checkedMul, hfit, hover]

theorem byteSize_eq (dims : List ℕ) (e : Element) :
    byteSize? dims e = if Fits dims e then some (dims.prod * e.size) else none := by
  have hone : 1 ≤ lastWord := by decide
  have hword : maxBytes ≤ lastWord := by decide
  rw [byteSize?, countFrom_eq dims hone, Nat.one_mul, Nat.one_mul]
  by_cases hlead : leadingCount dims ≤ lastWord
  · by_cases hbytes : dims.prod * e.size ≤ maxBytes
    · simp [Fits, checkedMul, hlead, hbytes, hbytes.trans hword]
    · by_cases hcount : dims.prod * e.size ≤ lastWord
      · simpa [Fits, checkedMul, hlead, hbytes, hcount] using Nat.lt_of_not_le hbytes
      · simp [Fits, checkedMul, hlead, hbytes, hcount]
  · simp [Fits, hlead]

theorem filled_of_fits (byte : UInt8) (h : Fits dims e) :
    filled byte dims e l = .ok
      { dims, strides := stridesFor dims e.size l, element := e, layout := l,
        bytes := List.replicate (dims.prod * e.size) byte } := by
  simp [filled, byteSize_eq, h]

theorem filled_of_not_fits (byte : UInt8) (h : ¬ Fits dims e) :
    filled byte dims e l = .error ⟨dims, e.size⟩ := by
  simp [filled, byteSize_eq, h]

theorem empty_ok_iff : (∃ a, empty dims e l = .ok a) ↔ Fits dims e := by
  constructor
  · rintro ⟨a, ha⟩
    by_contra h
    rw [empty, filled_of_not_fits _ h] at ha
    cases ha
  · intro h
    exact ⟨_, filled_of_fits _ h⟩

theorem zeroFilled_ok_iff : (∃ a, zeroFilled dims e l = .ok a) ↔ Fits dims e := by
  rw [← empty_ok_iff (l := l), zeroFilled]
  cases empty dims e l <;> simp [Except.map]

/-- A shape without a zero fits when its bytes do. -/
theorem fits_of_positive (h : 0 ∉ dims) : Fits dims e ↔ dims.prod * e.size ≤ maxBytes := by
  constructor
  · exact And.right
  · intro hbytes
    refine ⟨?_, hbytes⟩
    have hword : maxBytes ≤ lastWord := by decide
    have hcount := Nat.le_mul_of_pos_right dims.prod e.size_pos
    rw [leadingCount_of_positive h]
    omega

/-- A shape with a zero has no bytes, and fits when what stands in front of the zero can be
counted. -/
theorem fits_of_zero (h : 0 ∈ dims) : Fits dims e ↔ leadingCount dims ≤ lastWord := by
  have hnone : dims.prod = 0 := List.prod_eq_zero h
  simp [Fits, hnone]

theorem Fits.perm (h : dims.Perm dims') (hpos : 0 ∉ dims) : Fits dims e ↔ Fits dims' e := by
  have hpos' : 0 ∉ dims' := fun h0 => hpos (h.mem_iff.2 h0)
  rw [fits_of_positive hpos, fits_of_positive hpos', h.prod_eq]

/-- Fresh and zero-filled arrays are had for the same shapes: those that fit. The rest are refused
with the shape and the element size. The size in bytes alone decides, whatever the order of the
dimensions, unless a zero stands behind a count that is more than a machine word. -/
theorem fits_decides (dims : List ℕ) (e : Element) (l : Layout) :
    ((∃ a, empty dims e l = .ok a) ↔ Fits dims e) ∧
    ((∃ a, zeroFilled dims e l = .ok a) ↔ Fits dims e) ∧
    (¬ Fits dims e → empty dims e l = .error ⟨dims, e.size⟩ ∧
      zeroFilled dims e l = .error ⟨dims, e.size⟩) ∧
    (Fits dims e ↔ dims.prod * e.size ≤ maxBytes ∧ ¬ (0 ∈ dims ∧ lastWord < leadingCount dims)) ∧
    (0 ∉ dims → ∀ dims', dims.Perm dims' → (Fits dims' e ↔ Fits dims e)) := by
  refine ⟨empty_ok_iff, zeroFilled_ok_iff, fun h => ?_, ?_, fun hpos dims' h => ?_⟩
  · have hempty : empty dims e l = .error ⟨dims, e.size⟩ := filled_of_not_fits _ h
    exact ⟨hempty, by rw [zeroFilled, hempty]; rfl⟩
  · by_cases hzero : 0 ∈ dims
    · rw [fits_of_zero hzero, List.prod_eq_zero hzero, Nat.zero_mul]
      simp [hzero]
    · rw [fits_of_positive hzero]
      simp [hzero]
  · exact (Fits.perm h hpos).symm

/-- The same dimensions in another order: no bytes either way, and one of the two is refused. -/
theorem order_decides :
    (∀ d ∈ [18446744073709551615, 18446744073709551615, 0], d < UInt64.size) ∧
    [18446744073709551615, 18446744073709551615, 0].prod * Element.uint8.size ≤ maxBytes ∧
    empty [18446744073709551615, 18446744073709551615, 0] .uint8 .rowMajor =
      .error ⟨[18446744073709551615, 18446744073709551615, 0], 1⟩ ∧
    zeroFilled [18446744073709551615, 18446744073709551615, 0] .uint8 .rowMajor =
      .error ⟨[18446744073709551615, 18446744073709551615, 0], 1⟩ ∧
    ∃ a, empty [0, 18446744073709551615, 18446744073709551615] .uint8 .rowMajor = .ok a := by
  exact ⟨by decide, by decide, by decide, by decide, _, rfl⟩

end NdArray

end InterpreterLock
