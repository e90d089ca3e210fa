/-
# Numbers of a few significant bits

`HasBits p q`: `q` is an integer of at most `p` bits times a power of two, as the finite numbers
of a binary format are.  Integers below `2 ^ p` are such numbers, and cutting off the fraction of
one gives one again (`HasBits.trunc`).  `roundBits p` rounds to such a number (`roundBits_hasBits`)
and keeps those that are (`roundBits_eq`).
-/

import Canforge.Lib.Rounding

namespace Canforge
namespace Lib

/-- `q` has at most `p` significant bits. -/
def HasBits (p : ℕ) (q : ℚ) : Prop := ∃ m e : ℤ, |m| < 2 ^ p ∧ q = m * 2 ^ e

/-- The integer part of a number, towards zero. -/
def trunc (q : ℚ) : ℤ := if 0 ≤ q then ⌊q⌋ else ⌈q⌉

variable {p : ℕ} {q : ℚ}

theorem HasBits.neg (h : HasBits p q) : HasBits p (-q) := by
  obtain ⟨m, e, hm, rfl⟩ := h
  exact ⟨-m, e, by rwa [abs_neg], by push_cast; ring⟩

theorem hasBits_of_abs_lt {z : ℤ} (h : |z| < 2 ^ p) : HasBits p z := ⟨z, 0, h, by simp⟩

@[simp] theorem trunc_intCast (z : ℤ) : trunc z = z := by
  unfold trunc
  split_ifs
  · exact Int.floor_intCast z
  · exact Int.ceil_intCast z

theorem abs_trunc_le (q : ℚ) : |(trunc q : ℚ)| ≤ |q| := by
  unfold trunc
  split_ifs with h
  · rw [abs_of_nonneg h, abs_of_nonneg (by exact_mod_cast Int.floor_nonneg.2 h)]
    exact Int.floor_le q
  · have hneg : q ≤ 0 := (not_le.1 h).le
    have hceil : (⌈q⌉ : ℚ) ≤ 0 := by exact_mod_cast Int.ceil_le.2 (by simpa using hneg)
    rw [abs_of_nonpos hneg, abs_of_nonpos hceil]
    exact neg_le_neg (Int.le_ceil q)

theorem le_trunc {z : ℤ} (h : (z : ℚ) ≤ q) : z ≤ trunc q := by
  unfold trunc
  split_ifs
  · exact Int.le_floor.2 h
  · exact_mod_cast h.trans (Int.le_ceil q)

theorem trunc_lt {z : ℤ} (h : q < z) (hz : 0 ≤ z) : trunc q < z ∨ trunc q = 0 := by
  unfold trunc
  split_ifs with hq
  · exact .inl (Int.floor_lt.2 h)
  · have hceil : ⌈q⌉ ≤ 0 := Int.ceil_le.2 (by simpa using (not_le.1 hq).le)
    omega

/-- **The integer part of a number of `p` bits has `p` bits.** -/
theorem HasBits.trunc (h : HasBits p q) : HasBits p (trunc q : ℤ) := by
  obtain ⟨m, e, hm, rfl⟩ := h
  rcases le_or_gt 0 e with he | he
  · -- a positive exponent: there is no fraction
    lift e to ℕ using he
    have hint : (m : ℚ) * 2 ^ (e : ℤ) = ((m * 2 ^ e : ℤ) : ℚ) := by
      push_cast
      rw [zpow_natCast]
    rw [hint, trunc_intCast]
    exact ⟨m, e, hm, hint.symm⟩
  · refine hasBits_of_abs_lt ?_
    have hpow : (2 : ℚ) ^ e ≤ 1 := zpow_le_one_of_nonpos₀ one_le_two he.le
    have hpos : (0 : ℚ) < 2 ^ e := zpow_pos two_pos e
    have habs : |(m : ℚ) * 2 ^ e| ≤ |(m : ℚ)| := by
      rw [abs_mul, abs_of_pos hpos]
      exact mul_le_of_le_one_right (abs_nonneg _) hpow
    have hle := (abs_trunc_le ((m : ℚ) * 2 ^ e)).trans habs
    have hle' : |Lib.trunc ((m : ℚ) * 2 ^ e)| ≤ |m| := by exact_mod_cast hle
    exact hle'.trans_lt hm

/-! ### Rounding -/

/-- The exponent of the last of `p` bits. -/
def lastBit (p : ℕ) (q : ℚ) : ℤ := Int.log 2 |q| + 1 - p

/-- The nearest number of `p` bits. -/
def roundBits (p : ℕ) (q : ℚ) : ℚ :=
  roundHalfAway (q / 2 ^ lastBit p q) * 2 ^ lastBit p q

theorem abs_div_lastBit_lt (q : ℚ) : |q / 2 ^ lastBit p q| < (2 ^ p : ℤ) := by
  have hpos : (0 : ℚ) < 2 ^ lastBit p q := zpow_pos two_pos _
  have hlog : |q| < (2 : ℕ) ^ (Int.log 2 |q| + 1) :=
    Int.lt_zpow_succ_log_self (R := ℚ) one_lt_two |q|
  rw [abs_div, abs_of_pos hpos, div_lt_iff₀ hpos]
  refine hlog.trans_le (le_of_eq ?_)
  push_cast
  rw [← zpow_natCast, ← zpow_add₀ two_ne_zero, lastBit]
  congr 1
  ring

/-- **A rounded number has `p` bits.** -/
theorem roundBits_hasBits (hp : 0 < p) (q : ℚ) : HasBits p (roundBits p q) := by
  have habs := abs_lt.1 (abs_div_lastBit_lt (p := p) q)
  set m := roundHalfAway (q / 2 ^ lastBit p q) with hm
  have hlow : -(2 ^ p : ℤ) ≤ m := le_roundHalfAway (by push_cast; push_cast at habs; linarith)
  have hhigh : m ≤ 2 ^ p := roundHalfAway_le (by push_cast; push_cast at habs; linarith)
  rcases (abs_le.2 ⟨hlow, hhigh⟩).lt_or_eq with hlt | heq
  · exact ⟨m, lastBit p q, hlt, rfl⟩
  · -- the rounding carried into one more bit, which is a power of two
    refine ⟨m.sign, p + lastBit p q, ?_, ?_⟩
    · have hone : |m.sign| ≤ 1 := by
        rcases lt_trichotomy m 0 with h | h | h <;> simp [Int.sign_eq_neg_one_of_neg,
          Int.sign_eq_one_of_pos, h]
      exact hone.trans_lt (one_lt_pow₀ one_lt_two hp.ne')
    · have hsign : (m : ℚ) = m.sign * 2 ^ p := by
        have hmul : m = m.sign * 2 ^ p := by rw [← heq, Int.sign_mul_abs]
        exact_mod_cast hmul
      rw [roundBits, ← hm, hsign, zpow_add₀ two_ne_zero, zpow_natCast]
      ring

/-- **A number of `p` bits is not rounded.** -/
theorem roundBits_eq (h : HasBits p q) : roundBits p q = q := by
  obtain ⟨m, e, hm, rfl⟩ := h
  set q : ℚ := m * 2 ^ e with hq
  have hpow : (2 : ℚ) ^ lastBit p q ≠ 0 := zpow_ne_zero _ two_ne_zero
  rcases eq_or_ne m 0 with rfl | hne
  · simp [roundBits, hq, show roundHalfAway 0 = 0 by simpa using roundHalfAway_intCast 0]
  · have hle : lastBit p q ≤ e := by
      have hqpos : 0 < |q| := abs_pos.2 (mul_ne_zero (by exact_mod_cast hne)
        (zpow_ne_zero _ two_ne_zero))
      have hlow := Int.zpow_log_le_self (R := ℚ) (b := 2) one_lt_two hqpos
      have habs : |q| < 2 ^ ((p : ℤ) + e) := by
        have hpos : (0 : ℚ) < 2 ^ e := zpow_pos two_pos e
        rw [hq, abs_mul, abs_of_pos hpos, zpow_add₀ two_ne_zero, zpow_natCast]
        refine mul_lt_mul_of_pos_right ?_ hpos
        exact_mod_cast hm
      have hlog : Int.log 2 |q| < p + e :=
        (zpow_lt_zpow_iff_right₀ one_lt_two).1 (lt_of_le_of_lt (by exact_mod_cast hlow) habs)
      rw [lastBit]
      omega
    obtain ⟨k, hk⟩ := Int.le.dest hle
    have hint : q / 2 ^ lastBit p q = ((m * 2 ^ k : ℤ) : ℚ) := by
      have hsplit : (2 : ℚ) ^ e = 2 ^ lastBit p q * 2 ^ k := by
        rw [← zpow_natCast, ← zpow_add₀ two_ne_zero, hk]
      rw [div_eq_iff hpow]
      calc q = m * (2 ^ lastBit p q * 2 ^ k) := by rw [← hsplit]
        _ = ((m * 2 ^ k : ℤ) : ℚ) * 2 ^ lastBit p q := by
          push_cast
          ring
    rw [roundBits, hint, roundHalfAway_intCast, ← hint, div_mul_cancel₀ _ hpow]

end Lib
end Canforge
