/-
# Numbers close to one of `p` bits

A number within a relative distance `ε` of one of `p` bits rounds to it, where `ε * 2 ^ p < 1 / 2`
(`roundBits_of_close`): the distance is below half a last bit of either number, and neither lies
across a power of two from the other but for that power itself.
-/

import Canforge.Lib.Significand

namespace Canforge
namespace Lib

variable {p : ℕ} {q v : ℚ}

theorem zpow_two_pos (e : ℤ) : (0 : ℚ) < 2 ^ e := zpow_pos two_pos e

theorem lastBit_neg (p : ℕ) (q : ℚ) : lastBit p (-q) = lastBit p q := by
  rw [lastBit, lastBit, abs_neg]

/-- **Rounding is odd.** -/
theorem roundBits_neg (p : ℕ) (q : ℚ) : roundBits p (-q) = -roundBits p q := by
  rw [roundBits, roundBits, lastBit_neg, neg_div, roundHalfAway_neg, Int.cast_neg, neg_mul]

/-- No number has more than `p` bits in front of its last one. -/
theorem abs_lt_zpow_lastBit (p : ℕ) (q : ℚ) : |q| < 2 ^ (lastBit p q + p) := by
  have hlog := Int.lt_zpow_succ_log_self one_lt_two |q|
  push_cast at hlog
  rwa [lastBit, sub_add_cancel]

/-- A multiple of a power of two is one of every smaller power. -/
theorem exists_eq_mul_zpow {e f : ℤ} (m : ℤ) (h : f ≤ e) :
    ∃ n : ℤ, (m : ℚ) * 2 ^ e = n * 2 ^ f := by
  obtain ⟨d, hd⟩ := Int.eq_ofNat_of_zero_le (sub_nonneg.2 h)
  refine ⟨m * 2 ^ d, ?_⟩
  push_cast
  rw [mul_assoc, ← zpow_natCast, ← zpow_add₀ two_ne_zero, ← hd, sub_add_cancel]

/-- A number of `p` bits is a multiple of its own last one. -/
theorem HasBits.eq_mul_lastBit (h : HasBits p v) (hv : v ≠ 0) : ∃ n : ℤ, v = n * 2 ^ lastBit p v := by
  obtain ⟨m, e, hm, rfl⟩ := h
  refine exists_eq_mul_zpow m ?_
  have hmq : |(m : ℚ)| < 2 ^ (p : ℤ) := by
    rw [zpow_natCast]
    exact_mod_cast hm
  have hlt : |(m : ℚ) * 2 ^ e| < (2 : ℕ) ^ ((p : ℤ) + e) := by
    push_cast
    rw [abs_mul, abs_of_pos (zpow_two_pos e), zpow_add₀ two_ne_zero]
    exact mul_lt_mul_of_pos_right hmq (zpow_two_pos e)
  have hlog := (Int.lt_zpow_iff_log_lt one_lt_two (abs_pos.2 hv)).1 hlt
  unfold lastBit
  omega

/-- Two multiples of `2 ^ e` are that far apart. -/
theorem zpow_le_sub_of_lt {e : ℤ} {m n : ℤ} (h : (m : ℚ) * 2 ^ e < n * 2 ^ e) :
    (2 : ℚ) ^ e ≤ n * 2 ^ e - m * 2 ^ e := by
  have hmn : (m : ℚ) < n := lt_of_mul_lt_mul_right h (zpow_two_pos e).le
  have hone : (m : ℚ) + 1 ≤ n := by exact_mod_cast Int.add_one_le_iff.2 (by exact_mod_cast hmn)
  nlinarith [zpow_two_pos e]

variable {ε : ℚ}

/-- A number close to one of `p` bits is measured in units that divide it. -/
theorem eq_mul_lastBit_of_close (hv : HasBits p v) (hpos : 0 < v) (hq : 0 < q)
    (hε : ε * 2 ^ p < 1 / 2) (hclose : |q - v| ≤ ε * v) : ∃ n : ℤ, v = n * 2 ^ lastBit p q := by
  obtain ⟨n, hn⟩ := hv.eq_mul_lastBit hpos.ne'
  rcases le_or_gt (lastBit p q) (lastBit p v) with h | h
  · obtain ⟨k, hk⟩ := exists_eq_mul_zpow n h
    exact ⟨k, hn.trans hk⟩
  · -- `q` is past the next power of two, so a last place of `v` away
    exfalso
    have hlogv := Int.lt_zpow_succ_log_self one_lt_two |v|
    have hlogq := Int.zpow_log_le_self one_lt_two (abs_pos.2 hq.ne')
    have hvlt := abs_lt_zpow_lastBit p v
    rw [abs_of_pos hpos] at hlogv hvlt
    rw [abs_of_pos hq] at hlogq
    push_cast at hlogv hlogq
    have hle : Int.log 2 v + 1 ≤ Int.log 2 q := by
      unfold lastBit at h
      rw [abs_of_pos hpos, abs_of_pos hq] at h
      omega
    have hlow : lastBit p v ≤ Int.log 2 q := by
      unfold lastBit
      rw [abs_of_pos hpos]
      omega
    obtain ⟨k, hk⟩ := exists_eq_mul_zpow 1 hlow
    rw [Int.cast_one, one_mul] at hk
    have hlt : v < 2 ^ Int.log 2 q := hlogv.trans_le (zpow_le_zpow_right₀ one_le_two hle)
    have hgap := zpow_le_sub_of_lt (e := lastBit p v) (m := n) (n := k) (by rwa [← hn, ← hk])
    rw [← hn, ← hk] at hgap
    rw [zpow_add₀ two_ne_zero, zpow_natCast] at hvlt
    have hbound := (abs_le.1 hclose).2
    have hε0 : 0 ≤ ε := nonneg_of_mul_nonneg_left ((abs_nonneg _).trans hclose) hpos
    have hmul : ε * v ≤ ε * (2 ^ lastBit p v * 2 ^ p) := mul_le_mul_of_nonneg_left hvlt.le hε0
    nlinarith [zpow_two_pos (lastBit p v)]

/-- A number close to one of `p` bits leaves it at most `p` bits. -/
theorem le_zpow_of_close (hp : 1 ≤ p) (hv : HasBits p v) (hpos : 0 < v) (hq : 0 < q)
    (hε : ε * 2 ^ p < 1 / 2) (hclose : |q - v| ≤ ε * v) : v ≤ 2 ^ (lastBit p q + p) := by
  by_contra! hlt
  have hqlt := abs_lt_zpow_lastBit p q
  rw [abs_of_pos hq] at hqlt
  have hlog := (Int.zpow_le_iff_le_log one_lt_two (abs_pos.2 hpos.ne')).1
    (by rw [abs_of_pos hpos]; push_cast; exact hlt.le)
  have hlast : lastBit p q + 1 ≤ lastBit p v := by
    unfold lastBit at *
    omega
  obtain ⟨n, hn⟩ := hv.eq_mul_lastBit hpos.ne'
  obtain ⟨k, hk⟩ := exists_eq_mul_zpow n hlast
  rw [← hn] at hk
  obtain ⟨j, hj⟩ := exists_eq_mul_zpow (e := lastBit p q + p) (f := lastBit p q + 1) 1 (by omega)
  rw [Int.cast_one, one_mul] at hj
  have hgap := zpow_le_sub_of_lt (e := lastBit p q + 1) (m := j) (n := k) (by rwa [← hj, ← hk])
  rw [← hj, ← hk, zpow_add_one₀ two_ne_zero] at hgap
  rw [zpow_add₀ two_ne_zero, zpow_natCast] at hqlt hgap
  have hbound := (abs_le.1 hclose).1
  have hunit := zpow_two_pos (lastBit p q)
  have hpow : (2 : ℚ) ≤ 2 ^ p := by
    calc (2 : ℚ) = 2 ^ 1 := (pow_one 2).symm
      _ ≤ 2 ^ p := pow_le_pow_right₀ one_le_two hp
  have hε0 : 0 ≤ ε := nonneg_of_mul_nonneg_left ((abs_nonneg _).trans hclose) hpos
  have hε1 : ε ≤ 1 / 4 := by nlinarith
  -- `v` is below twice the power, so the distance below a unit
  have hv2 : v < 2 * (2 ^ lastBit p q * 2 ^ p) := by nlinarith
  have hmul : ε * v ≤ ε * (2 * (2 ^ lastBit p q * 2 ^ p)) := mul_le_mul_of_nonneg_left hv2.le hε0
  nlinarith

/-- **A number close to one of `p` bits rounds to it.** -/
theorem roundBits_of_close (hp : 1 ≤ p) (hv : HasBits p v) (hpos : 0 < v) (hε : ε * 2 ^ p < 1 / 2)
    (hclose : |q - v| ≤ ε * v) : roundBits p q = v := by
  have hpow : (2 : ℚ) ≤ 2 ^ p := by
    calc (2 : ℚ) = 2 ^ 1 := (pow_one 2).symm
      _ ≤ 2 ^ p := pow_le_pow_right₀ one_le_two hp
  have hε0 : 0 ≤ ε := nonneg_of_mul_nonneg_left ((abs_nonneg _).trans hclose) hpos
  have hq : 0 < q := by nlinarith [(abs_le.1 hclose).1]
  obtain ⟨n, hn⟩ := eq_mul_lastBit_of_close hv hpos hq hε hclose
  have hle := le_zpow_of_close hp hv hpos hq hε hclose
  have hunit := zpow_two_pos (lastBit p q)
  suffices h : roundHalfAway (q / 2 ^ lastBit p q) = n by rw [roundBits, h, ← hn]
  refine roundHalfAway_of_abs_lt ?_
  have hdiv : q / 2 ^ lastBit p q - n = (q - v) / 2 ^ lastBit p q := by
    rw [sub_div, hn, mul_div_cancel_right₀ _ hunit.ne']
  rw [hdiv, abs_div, abs_of_pos hunit, div_lt_iff₀ hunit]
  rw [zpow_add₀ two_ne_zero, zpow_natCast] at hle
  have hmul : ε * v ≤ ε * (2 ^ lastBit p q * 2 ^ p) := mul_le_mul_of_nonneg_left hle hε0
  nlinarith

end Lib
end Canforge
