/-
# Rounding halves away from zero

`roundHalfAway q` is the integer nearest to `q`, and of two that are equally near the one further
from zero (`roundHalfAway_spec`).  It is monotone, so an integer below `q` is below it too
(`le_roundHalfAway`, `roundHalfAway_le`).
-/

import Mathlib

namespace Canforge
namespace Lib

/-- The nearest integer, halves away from zero. -/
def roundHalfAway (q : ℚ) : ℤ := if q < 0 then -⌊1 / 2 - q⌋ else ⌊q + 1 / 2⌋

theorem roundHalfAway_of_nonneg {q : ℚ} (h : 0 ≤ q) : roundHalfAway q = ⌊q + 1 / 2⌋ :=
  if_neg h.not_gt

theorem roundHalfAway_of_neg {q : ℚ} (h : q < 0) : roundHalfAway q = -⌊1 / 2 - q⌋ := if_pos h

/-- **What it is.** -/
theorem roundHalfAway_spec (q : ℚ) : |(roundHalfAway q : ℚ) - q| < 1 / 2 ∨
    (|(roundHalfAway q : ℚ) - q| = 1 / 2 ∧ |q| < |(roundHalfAway q : ℚ)|) := by
  rcases lt_or_ge q 0 with hq | hq
  · have hlow := Int.floor_le (1 / 2 - q)
    have hhigh := Int.lt_floor_add_one (1 / 2 - q)
    rw [roundHalfAway_of_neg hq, Int.cast_neg]
    rcases hlow.lt_or_eq with hlt | heq
    · refine .inl (abs_lt.2 ⟨?_, ?_⟩) <;> linarith
    · have hhalf : -(⌊1 / 2 - q⌋ : ℚ) - q = -(1 / 2) := by linarith
      have hneg : -(⌊1 / 2 - q⌋ : ℚ) < 0 := by linarith
      refine .inr ⟨by rw [hhalf, abs_neg, abs_of_pos one_half_pos], ?_⟩
      rw [abs_of_neg hq, abs_of_neg hneg]
      linarith
  · have hlow := Int.floor_le (q + 1 / 2)
    have hhigh := Int.lt_floor_add_one (q + 1 / 2)
    rw [roundHalfAway_of_nonneg hq]
    rcases hlow.lt_or_eq with hlt | heq
    · refine .inl (abs_lt.2 ⟨?_, ?_⟩) <;> linarith
    · have hhalf : (⌊q + 1 / 2⌋ : ℚ) - q = 1 / 2 := by linarith
      have hpos : 0 < (⌊q + 1 / 2⌋ : ℚ) := by linarith
      refine .inr ⟨by rw [hhalf, abs_of_pos one_half_pos], ?_⟩
      rw [abs_of_nonneg hq, abs_of_pos hpos]
      linarith

theorem abs_roundHalfAway_sub_le (q : ℚ) : |(roundHalfAway q : ℚ) - q| ≤ 1 / 2 := by
  rcases roundHalfAway_spec q with hlt | ⟨heq, -⟩
  · exact hlt.le
  · exact heq.le

@[simp] theorem roundHalfAway_intCast (z : ℤ) : roundHalfAway z = z := by
  have hhalf : (1 : ℚ) / 2 < 1 := by norm_num
  have hnear := abs_lt.1 ((abs_roundHalfAway_sub_le (z : ℚ)).trans_lt hhalf)
  have hlow : z - 1 < roundHalfAway z := by
    have : ((z - 1 : ℤ) : ℚ) < roundHalfAway z := by
      push_cast
      linarith
    exact_mod_cast this
  have hhigh : roundHalfAway z < z + 1 := by
    have : (roundHalfAway z : ℚ) < ((z + 1 : ℤ) : ℚ) := by
      push_cast
      linarith
    exact_mod_cast this
  omega

/-- An integer closer than a half is the one that is taken. -/
theorem roundHalfAway_of_abs_lt {q : ℚ} {z : ℤ} (h : |q - z| < 1 / 2) : roundHalfAway q = z := by
  have hle := abs_roundHalfAway_sub_le q
  have hlt : |((roundHalfAway q - z : ℤ) : ℚ)| < 1 := by
    have htri := abs_sub_le (roundHalfAway q : ℚ) q z
    push_cast
    linarith
  have hlt' : |roundHalfAway q - z| < 1 := by exact_mod_cast hlt
  have := Int.abs_lt_one_iff.1 hlt'
  omega

/-- **Rounding is odd.** -/
theorem roundHalfAway_neg (q : ℚ) : roundHalfAway (-q) = -roundHalfAway q := by
  rcases lt_trichotomy q 0 with h | rfl | h
  · rw [roundHalfAway_of_neg h, roundHalfAway_of_nonneg (by linarith), neg_neg]
    congr 1
    ring
  · simp [show roundHalfAway 0 = 0 by simpa using roundHalfAway_intCast 0]
  · rw [roundHalfAway_of_nonneg h.le, roundHalfAway_of_neg (by linarith)]
    congr 2
    ring

/-- **Rounding keeps the order.** -/
theorem roundHalfAway_mono : Monotone roundHalfAway := by
  intro p q hpq
  rcases lt_or_ge q 0 with hq | hq
  · rw [roundHalfAway_of_neg hq, roundHalfAway_of_neg (hpq.trans_lt hq)]
    exact neg_le_neg (Int.floor_mono (by linarith))
  · rw [roundHalfAway_of_nonneg hq]
    rcases lt_or_ge p 0 with hp | hp
    · have hneg : -⌊1 / 2 - p⌋ ≤ 0 := neg_nonpos.2 (Int.floor_nonneg.2 (by linarith))
      rw [roundHalfAway_of_neg hp]
      exact hneg.trans (Int.floor_nonneg.2 (by linarith))
    · rw [roundHalfAway_of_nonneg hp]
      exact Int.floor_mono (by linarith)

theorem le_roundHalfAway {z : ℤ} {q : ℚ} (h : (z : ℚ) ≤ q) : z ≤ roundHalfAway q := by
  have := roundHalfAway_mono h
  rwa [roundHalfAway_intCast] at this

theorem roundHalfAway_le {z : ℤ} {q : ℚ} (h : q ≤ (z : ℚ)) : roundHalfAway q ≤ z := by
  have := roundHalfAway_mono h
  rwa [roundHalfAway_intCast] at this

end Lib
end Canforge
