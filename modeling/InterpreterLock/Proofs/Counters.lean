import Mathlib.Algebra.Group.Nat.Defs
import Mathlib.Data.Nat.Notation

/-!
# Counters in machine words

A machine word that counts shows the same twice if between the two moments it was counted on by a
multiple of what a word holds. So as long as it has not come round, it tells how often it was.
-/

set_option autoImplicit false

namespace InterpreterLock

variable {m n : ℕ}

theorem ofNat_eq_iff_dvd_sub (h : m ≤ n) :
    UInt64.ofNat m = UInt64.ofNat n ↔ 2 ^ 64 ∣ n - m := by
  rw [UInt64.ofNat_eq_iff_mod_eq_toNat, UInt64.toNat_ofNat']
  omega

theorem ofNat_eq_zero_iff (n : ℕ) : UInt64.ofNat n = 0 ↔ 2 ^ 64 ∣ n := by
  rw [eq_comm]
  exact ofNat_eq_iff_dvd_sub n.zero_le

/-- The counter has not come round between the two moments. -/
theorem eq_of_ofNat_eq (hle : m ≤ n) (hlt : n < m + 2 ^ 64)
    (h : UInt64.ofNat m = UInt64.ofNat n) : m = n := by
  rw [ofNat_eq_iff_dvd_sub hle] at h
  omega

theorem ofNat_inj_of_lt (hm : m < 2 ^ 64) (hn : n < 2 ^ 64)
    (h : UInt64.ofNat m = UInt64.ofNat n) : m = n := by
  rcases Nat.le_total m n with hle | hle
  · exact eq_of_ofNat_eq hle (by omega) h
  · exact (eq_of_ofNat_eq hle (by omega) h.symm).symm

theorem eq_zero_of_ofNat (hn : n < 2 ^ 64) (h : UInt64.ofNat n = 0) : n = 0 :=
  ofNat_inj_of_lt hn (by decide) h

theorem ofNat_succ (n : ℕ) : UInt64.ofNat n + 1 = UInt64.ofNat (n + 1) :=
  (UInt64.ofNat_add n 1).symm

end InterpreterLock
