import InterpreterLock.Proofs.NdArray.Sizes
import Mathlib.Data.List.Forall2
import Mathlib.Data.Set.Function
import Mathlib.Tactic.Ring

/-!
# Where the elements lie

An index tuple has one index below each dimension. Its offset is the sum of each index times its
stride, and its rank is the number of tuples before it when the first index varies fastest. In
column order the offset is the rank times the element size; row order is the same with shape, tuple
and strides reversed. So the offsets are the multiples of the element size below the size of the
buffer, each for one tuple, and they come in the order of the layout.

A stride stops at the last machine word. That is seen only in a shape with a zero, which has no
index tuples.
-/

set_option autoImplicit false

namespace InterpreterLock

namespace NdArray

def indices (dims : List ℕ) : Set (List ℕ) := {ix | List.Forall₂ (· < ·) ix dims}

def offset (a : NdArray) (ix : List ℕ) : ℕ := (List.zipWith (· * ·) ix a.strides).sum

/-- Tuples in the order in which the index that varies fastest counts least: the last one in row
order, the first one in column order. -/
def Before : Layout → List ℕ → List ℕ → Prop
  | .rowMajor, ix, jx => ix < jx
  | .columnMajor, ix, jx => ix.reverse < jx.reverse

def faster : Layout → List ℕ → ℕ → List ℕ
  | .rowMajor, dims, k => dims.drop (k + 1)
  | .columnMajor, dims, k => dims.take k

def rank : List ℕ → List ℕ → ℕ
  | d :: ds, i :: ix => i + d * rank ds ix
  | _, _ => 0

variable {dims ix jx : List ℕ} {e : Element} {l : Layout} {a : NdArray}

theorem reverse_mem_indices : ix.reverse ∈ indices dims.reverse ↔ ix ∈ indices dims :=
  List.forall₂_reverse_iff

theorem length_of_mem_indices (h : ix ∈ indices dims) : ix.length = dims.length :=
  List.Forall₂.length_eq h

theorem positive_of_mem_indices (h : ix ∈ indices dims) : 0 ∉ dims := by
  induction h with
  | nil => simp
  | cons hlt _ ih => simpa [ih] using (Nat.zero_lt_of_lt hlt).ne

theorem prod_pos_of_positive (h : 0 ∉ dims) : 0 < dims.prod := by
  rw [← leadingCount_of_positive h]
  exact leadingCount_pos dims

theorem rank_lt (h : ix ∈ indices dims) : rank dims ix < dims.prod := by
  induction h with
  | nil => simp [rank]
  | @cons i d ix ds hlt _ ih =>
    calc i + d * rank ds ix < d + d * rank ds ix := by omega
      _ = d * (rank ds ix + 1) := by ring
      _ ≤ d * ds.prod := Nat.mul_le_mul_left d ih
      _ = (d :: ds).prod := List.prod_cons.symm

theorem rank_injOn (dims : List ℕ) : Set.InjOn (rank dims) (indices dims) := by
  intro ix hix
  induction hix with
  | nil =>
    intro jx hjx _
    cases hjx
    rfl
  | @cons i d ix ds hi _ ih =>
    intro jx hjx heq
    cases hjx with
    | @cons j _ jx _ hj hjx =>
      have hhead : i = j := by
        have hmod := congrArg (· % d) heq
        simpa [rank, Nat.add_mul_mod_self_left, Nat.mod_eq_of_lt hi, Nat.mod_eq_of_lt hj] using hmod
      subst hhead
      have htail : rank ds ix = rank ds jx := by
        have hd : 0 < d := Nat.zero_lt_of_lt hi
        apply Nat.eq_of_mul_eq_mul_left hd
        simpa [rank] using heq
      rw [ih hjx htail]

/-- The tuple of a rank: the remainder by the first dimension, then the tuple of the quotient. -/
theorem exists_rank {r : ℕ} (h : r < dims.prod) : ∃ ix ∈ indices dims, rank dims ix = r := by
  induction dims generalizing r with
  | nil =>
    refine ⟨[], .nil, ?_⟩
    have hr : r = 0 := Nat.lt_one_iff.1 h
    simp [rank, hr]
  | cons d ds ih =>
    rw [List.prod_cons] at h
    have hd : 0 < d := by
      apply Nat.pos_of_ne_zero
      rintro rfl
      omega
    obtain ⟨ix, hix, hrank⟩ := ih (Nat.div_lt_of_lt_mul h)
    refine ⟨r % d :: ix, .cons (Nat.mod_lt r hd) hix, ?_⟩
    rw [rank, hrank, Nat.mod_add_div]

theorem concat_lt_concat {xs ys : List ℕ} {i j : ℕ} (hlen : xs.length = ys.length)
    (h : xs ++ [i] < ys ++ [j]) : xs < ys ∨ xs = ys ∧ i < j := by
  induction xs generalizing ys with
  | nil =>
    obtain rfl : ys = [] := List.length_eq_zero_iff.1 hlen.symm
    simpa [List.cons_lt_cons_iff] using h
  | cons x xs ih =>
    cases ys with
    | nil => cases hlen
    | cons y ys =>
      rcases List.cons_lt_cons_iff.1 h with hlt | ⟨rfl, hrest⟩
      · exact .inl (List.cons_lt_cons_iff.2 (.inl hlt))
      · rcases ih (Nat.succ.inj hlen) hrest with hlt | ⟨rfl, hij⟩
        · exact .inl (List.cons_lt_cons_iff.2 (.inr ⟨rfl, hlt⟩))
        · exact .inr ⟨rfl, hij⟩

/-- The last index weighs most: ranks are in the order of the reversed tuples. -/
theorem rank_lt_rank (hix : ix ∈ indices dims) (hjx : jx ∈ indices dims)
    (h : ix.reverse < jx.reverse) : rank dims ix < rank dims jx := by
  induction hix generalizing jx with
  | nil =>
    cases hjx
    simp at h
  | @cons i d ix ds hi hix ih =>
    cases hjx with
    | @cons j _ jx _ hj hjx =>
      have hlen : ix.reverse.length = jx.reverse.length := by
        rw [List.length_reverse, List.length_reverse, hix.length_eq, hjx.length_eq]
      rw [List.reverse_cons, List.reverse_cons] at h
      rcases concat_lt_concat hlen h with hlt | ⟨heq, hij⟩
      · calc i + d * rank ds ix < d + d * rank ds ix := by omega
          _ = d * (rank ds ix + 1) := by ring
          _ ≤ d * rank ds jx := Nat.mul_le_mul_left d (ih hjx hlt)
          _ ≤ j + d * rank ds jx := Nat.le_add_left _ _
      · obtain rfl := List.reverse_inj.1 heq
        exact Nat.add_lt_add_right hij _

theorem saturatingMul_of_le {step d : ℕ} {ds : List ℕ} (hpos : 0 ∉ d :: ds)
    (hfit : step * (d :: ds).prod ≤ lastWord) :
    saturatingMul step d = step * d ∧ step * d * ds.prod ≤ lastWord := by
  rw [List.prod_cons, ← Nat.mul_assoc] at hfit
  have hrest : 0 < ds.prod := prod_pos_of_positive (List.not_mem_of_not_mem_cons hpos)
  have hstep := Nat.le_mul_of_pos_right (step * d) hrest
  exact ⟨Nat.min_eq_left (hstep.trans hfit), hfit⟩

theorem getElem?_stridesFrom {step k : ℕ} (hpos : 0 ∉ dims) (hfit : step * dims.prod ≤ lastWord)
    (hk : k < dims.length) : (stridesFrom step dims)[k]? = some (step * (dims.take k).prod) := by
  induction dims generalizing step k with
  | nil => cases hk
  | cons d ds ih =>
    cases k with
    | zero => simp [stridesFrom]
    | succ k =>
      obtain ⟨hexact, hrest⟩ := saturatingMul_of_le hpos hfit
      rw [stridesFrom, hexact, List.getElem?_cons_succ,
        ih (List.not_mem_of_not_mem_cons hpos) hrest (Nat.lt_of_succ_lt_succ hk),
        List.take_succ_cons, List.prod_cons, Nat.mul_assoc]

theorem getElem?_stridesFor {size k : ℕ} (hpos : 0 ∉ dims) (hfit : size * dims.prod ≤ lastWord)
    (hk : k < dims.length) :
    (stridesFor dims size l)[k]? = some (size * (faster l dims k).prod) := by
  cases l with
  | columnMajor => exact getElem?_stridesFrom hpos hfit hk
  | rowMajor =>
    have hposr : 0 ∉ dims.reverse := by simpa using hpos
    have hfitr : size * dims.reverse.prod ≤ lastWord := by rwa [List.prod_reverse]
    have hkr : dims.length - 1 - k < dims.reverse.length := by
      rw [List.length_reverse]
      omega
    have hlen : (stridesFrom size dims.reverse).length = dims.length := by
      rw [length_stridesFrom, List.length_reverse]
    have hplace : dims.length - (dims.length - 1 - k) = k + 1 := by omega
    rw [stridesFor, List.getElem?_reverse (by omega), hlen, getElem?_stridesFrom hposr hfitr hkr,
      List.take_reverse, List.prod_reverse, hplace, faster]

theorem sum_stridesFrom {step : ℕ} (hix : ix ∈ indices dims) (hfit : step * dims.prod ≤ lastWord) :
    (List.zipWith (· * ·) ix (stridesFrom step dims)).sum = step * rank dims ix := by
  induction hix generalizing step with
  | nil => simp [rank]
  | @cons i d ix ds hi hix ih =>
    obtain ⟨hexact, hrest⟩ :=
      saturatingMul_of_le (positive_of_mem_indices (.cons hi hix)) hfit
    rw [stridesFrom, hexact, List.zipWith_cons_cons, List.sum_cons, ih hrest, rank]
    ring

theorem sum_zipWith_reverse {xs ys : List ℕ} (h : xs.length = ys.length) :
    (List.zipWith (· * ·) xs.reverse ys.reverse).sum = (List.zipWith (· * ·) xs ys).sum := by
  rw [← List.reverse_zipWith h, List.sum_reverse]

theorem fits_of_ok (h : empty dims e l = .ok a) : Fits dims e := empty_ok_iff.1 ⟨a, h⟩

theorem eq_of_ok (h : empty dims e l = .ok a) :
    a = { dims, strides := stridesFor dims e.size l, element := e, layout := l,
          bytes := List.replicate (dims.prod * e.size) freshByte } := by
  rw [empty, filled_of_fits _ (fits_of_ok h)] at h
  exact (Except.ok.inj h).symm

theorem Fits.bytes_le (h : Fits dims e) : e.size * dims.prod ≤ lastWord := by
  have hword : maxBytes ≤ lastWord := by decide
  rw [Nat.mul_comm]
  exact h.2.trans hword

def turned : Layout → List ℕ → List ℕ
  | .rowMajor, ix => ix.reverse
  | .columnMajor, ix => ix

theorem turned_mem_indices : turned l ix ∈ indices (turned l dims) ↔ ix ∈ indices dims := by
  cases l with
  | rowMajor => exact reverse_mem_indices
  | columnMajor => rfl

theorem prod_turned (l : Layout) (dims : List ℕ) : (turned l dims).prod = dims.prod := by
  cases l with
  | rowMajor => exact List.prod_reverse dims
  | columnMajor => rfl

theorem turned_turned (l : Layout) (ix : List ℕ) : turned l (turned l ix) = ix := by
  cases l with
  | rowMajor => exact List.reverse_reverse ix
  | columnMajor => rfl

theorem before_iff : Before l ix jx ↔ (turned l ix).reverse < (turned l jx).reverse := by
  cases l with
  | rowMajor => simp [Before, turned]
  | columnMajor => rfl

theorem offset_eq (h : empty dims e l = .ok a) (hix : ix ∈ indices dims) :
    a.offset ix = e.size * rank (turned l dims) (turned l ix) := by
  have hfit := (fits_of_ok h).bytes_le
  rw [eq_of_ok h, offset]
  cases l with
  | columnMajor => exact sum_stridesFrom hix hfit
  | rowMajor =>
    have hlen : ix.reverse.length = (stridesFrom e.size dims.reverse).length := by
      rw [length_stridesFrom, List.length_reverse, List.length_reverse, length_of_mem_indices hix]
    have hsum := sum_zipWith_reverse hlen
    rw [List.reverse_reverse] at hsum
    rw [stridesFor, hsum]
    apply sum_stridesFrom (reverse_mem_indices.2 hix)
    rwa [List.prod_reverse]

theorem byteCount_eq (h : empty dims e l = .ok a) : a.byteCount = e.size * dims.prod := by
  rw [eq_of_ok h, byteCount, List.length_replicate, Nat.mul_comm]

theorem length_eq (h : empty dims e l = .ok a) : a.length = dims.prod := by
  rw [length, byteCount_eq h, eq_of_ok h]
  exact Nat.mul_div_cancel_left _ e.size_pos

theorem offset_bijOn (h : empty dims e l = .ok a) :
    Set.BijOn a.offset (indices dims) {o | e.size ∣ o ∧ o < a.byteCount} := by
  rw [byteCount_eq h]
  refine ⟨fun ix hix => ?_, fun ix hix jx hjx heq => ?_, ?_⟩
  · rw [offset_eq h hix]
    refine ⟨Nat.dvd_mul_right _ _, Nat.mul_lt_mul_of_pos_left ?_ e.size_pos⟩
    rw [← prod_turned l]
    exact rank_lt (turned_mem_indices.2 hix)
  · rw [offset_eq h hix, offset_eq h hjx] at heq
    have hrank := Nat.eq_of_mul_eq_mul_left e.size_pos heq
    have hturned := rank_injOn _ (turned_mem_indices.2 hix) (turned_mem_indices.2 hjx) hrank
    rw [← turned_turned l ix, hturned, turned_turned]
  · rintro o ⟨⟨r, rfl⟩, hr⟩
    have hrank : r < (turned l dims).prod := by
      rw [prod_turned]
      exact Nat.lt_of_mul_lt_mul_left hr
    obtain ⟨ix, hix, rfl⟩ := exists_rank hrank
    have hmem : turned l ix ∈ indices dims := by
      rwa [← turned_mem_indices (l := l), turned_turned]
    refine ⟨turned l ix, hmem, ?_⟩
    rw [offset_eq h hmem, turned_turned]

theorem offset_lt_offset (h : empty dims e l = .ok a) (hix : ix ∈ indices dims)
    (hjx : jx ∈ indices dims) (hbefore : Before l ix jx) : a.offset ix < a.offset jx := by
  rw [offset_eq h hix, offset_eq h hjx]
  apply Nat.mul_lt_mul_of_pos_left _ e.size_pos
  exact rank_lt_rank (turned_mem_indices.2 hix) (turned_mem_indices.2 hjx) (before_iff.1 hbefore)

theorem prod_faster_le (hpos : 0 ∉ dims) (k : ℕ) : (faster l dims k).prod ≤ dims.prod := by
  apply Nat.le_of_dvd (prod_pos_of_positive hpos)
  cases l with
  | rowMajor => exact ⟨_, (List.prod_take_mul_prod_drop dims (k + 1)).symm.trans (Nat.mul_comm _ _)⟩
  | columnMajor => exact ⟨_, (List.prod_take_mul_prod_drop dims k).symm⟩

theorem stride_exact (h : empty dims e l = .ok a) (hpos : 0 ∉ dims) {k : ℕ}
    (hk : k < dims.length) :
    a.strides[k]? = some (e.size * (faster l dims k).prod) ∧
      e.size * (faster l dims k).prod < lastWord := by
  have hfit := fits_of_ok h
  constructor
  · rw [eq_of_ok h]
    exact getElem?_stridesFor hpos hfit.bytes_le hk
  · have hword : maxBytes < lastWord := by decide
    calc e.size * (faster l dims k).prod ≤ e.size * dims.prod :=
          Nat.mul_le_mul_left _ (prod_faster_le hpos k)
      _ = dims.prod * e.size := Nat.mul_comm _ _
      _ ≤ maxBytes := hfit.2
      _ < lastWord := hword

theorem strides_reversed (h : empty dims e .rowMajor = .ok a) :
    a.strides = (stridesFor dims.reverse e.size .columnMajor).reverse := by
  rw [eq_of_ok h]
  rfl

theorem zeroFilled_eq (h : empty dims e l = .ok a) : zeroFilled dims e l = .ok a.cleared := by
  rw [zeroFilled, h]
  rfl

theorem cleared_bytes (a : NdArray) : a.cleared.bytes = List.replicate a.byteCount 0 := by
  rw [cleared, List.map_const', byteCount]

theorem cleared_length (a : NdArray) : a.cleared.length = a.length := by
  rw [length, byteCount, cleared_bytes, List.length_replicate]
  rfl

/-- The strides address every element of the buffer once and in the order of the layout; they are
exact unless some dimension is zero; and the zero-filled array has the same shape. -/
theorem strides_address (h : empty dims e l = .ok a) :
    a.byteCount = e.size * dims.prod ∧ a.length = dims.prod ∧
    Set.BijOn a.offset (indices dims) {o | e.size ∣ o ∧ o < a.byteCount} ∧
    (∀ ix ∈ indices dims, ∀ jx ∈ indices dims, Before l ix jx → a.offset ix < a.offset jx) ∧
    (l = .rowMajor → a.strides = (stridesFor dims.reverse e.size .columnMajor).reverse) ∧
    (0 ∉ dims → ∀ k < dims.length, a.strides[k]? = some (e.size * (faster l dims k).prod) ∧
      e.size * (faster l dims k).prod < lastWord) ∧
    ∃ z, zeroFilled dims e l = .ok z ∧ z.dims = a.dims ∧ z.strides = a.strides ∧
      z.length = a.length ∧ z.bytes = List.replicate a.byteCount 0 := by
  refine ⟨byteCount_eq h, length_eq h, offset_bijOn h, ?_, ?_, ?_, ?_⟩
  · intro ix hix jx hjx hbefore
    exact offset_lt_offset h hix hjx hbefore
  · rintro rfl
    exact strides_reversed h
  · intro hpos k hk
    exact stride_exact h hpos hk
  · exact ⟨a.cleared, zeroFilled_eq h, rfl, rfl, cleared_length a, cleared_bytes a⟩

/-- Two rows of three columns of two bytes each, with a dimension of one between them. -/
theorem strides_address_matrix :
    ∃ a, empty [2, 1, 3] .int16 .rowMajor = .ok a ∧ a.strides = [6, 6, 2] ∧
      a.byteCount = 12 ∧ [1, 0, 2] ∈ indices [2, 1, 3] ∧ a.offset [1, 0, 2] = 10 ∧
      Set.BijOn a.offset (indices [2, 1, 3]) {o | 2 ∣ o ∧ o < 12} := by
  have h : empty [2, 1, 3] .int16 .rowMajor = .ok
      { dims := [2, 1, 3], strides := [6, 6, 2], element := .int16, layout := .rowMajor,
        bytes := List.replicate 12 freshByte } := by decide
  have hmem : [1, 0, 2] ∈ indices [2, 1, 3] := by simp [indices]
  exact ⟨_, h, rfl, rfl, hmem, rfl, (strides_address h).2.2.1⟩

end NdArray

end InterpreterLock
