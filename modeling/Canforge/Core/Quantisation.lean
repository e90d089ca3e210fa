/-
# The physical encoding law

`raw_minimum`, `raw_maximum`, `physical_floor` and `physical_ceiling` of `core/src/Signal.cpp`,
and `physical_to_raw` in exact arithmetic: the value is clamped to the declared range, scaled,
rounded and saturated (`quantised`), and the bits are those of the result
(`physicalToRaw_eq`).  What an encoding loses and what it keeps follows from that alone.
-/

import Canforge.Core.Scaling
import Canforge.Core.SignalBits
import Canforge.Lib.Rounding

namespace Canforge
namespace Core

open Lib

namespace ScaledLayout

section Range

variable {R : Type} [Scalar R] (s : ScaledLayout R)

open Scalar

/-- `raw_minimum`. -/
def rawMinimum : R :=
  match s.valueType with
  | .float32 => -lit (2 ^ 128 - 2 ^ 104)
  | .float64 => -lit (2 ^ 1024 - 2 ^ 971)
  | .integer =>
    match s.signedness with
    | .signed => -lit (2 ^ s.bitLength / 2)
    | .unsigned => lit 0

/-- `raw_maximum`. -/
def rawMaximum : R :=
  match s.valueType with
  | .float32 => lit (2 ^ 128 - 2 ^ 104)
  | .float64 => lit (2 ^ 1024 - 2 ^ 971)
  | .integer =>
    match s.signedness with
    | .signed => lit (2 ^ s.bitLength / 2) - lit 1
    | .unsigned => lit (2 ^ s.bitLength) - lit 1

/-- `physical_floor`: a negative factor swaps the ends. -/
def physicalFloor : R :=
  Scalar.min (s.rawMinimum * s.factor + s.offset) (s.rawMaximum * s.factor + s.offset)

/-- `physical_ceiling`. -/
def physicalCeiling : R :=
  Scalar.max (s.rawMinimum * s.factor + s.offset) (s.rawMaximum * s.factor + s.offset)

end Range

variable (s : ScaledLayout ℚ)

/-! ### What the encoding is for -/

/-- A value clamped to the declared range, which is none when both of its ends are zero. -/
def clamped (v : ℚ) : ℚ :=
  if s.minimum = 0 ∧ s.maximum = 0 then v
  else min (max v (min s.minimum s.maximum)) (max s.minimum s.maximum)

/-- The value is inside the declared range. -/
def InRange (v : ℚ) : Prop :=
  (s.minimum = 0 ∧ s.maximum = 0) ∨
    (min s.minimum s.maximum ≤ v ∧ v ≤ max s.minimum s.maximum)

/-- The least and the greatest number that the width holds. -/
def rawLow : ℤ :=
  match s.signedness with
  | .signed => -2 ^ (s.bitLength - 1)
  | .unsigned => 0

def rawHigh : ℤ :=
  match s.signedness with
  | .signed => 2 ^ (s.bitLength - 1) - 1
  | .unsigned => 2 ^ s.bitLength - 1

/-- A number saturated to what the width holds. -/
def saturated (z : ℤ) : ℤ := max s.rawLow (min s.rawHigh z)

/-- The number an integer signal carries for a value. -/
def quantised (v : ℚ) : ℤ :=
  s.saturated (roundHalfAway ((s.clamped v - s.offset) / s.factor))

/-- The bits of a number. -/
def pattern (z : ℤ) : BitVec 64 := (BitVec.ofInt s.bitLength z).setWidth 64

/-- The number that bits stand for, read with the sign of the signal. -/
def numberOf (raw : BitVec 64) : ℤ :=
  match s.signedness with
  | .signed => signExtend raw s.bitLength
  | .unsigned => raw.toNat

variable {s}

/-! ### The operations of the code at exact numbers -/

theorem scalar_lt (a b : ℚ) : Scalar.lt a b = decide (a < b) := rfl

theorem scalar_min (a b : ℚ) : Scalar.min a b = min a b := by
  unfold Scalar.min
  rw [min_def, scalar_lt]
  rcases lt_or_ge b a with h | h
  · rw [if_pos (decide_eq_true h), if_neg h.not_ge]
  · rw [if_neg (by simpa using h), if_pos h]

theorem scalar_max (a b : ℚ) : Scalar.max a b = max a b := by
  unfold Scalar.max
  rw [max_def, scalar_lt]
  rcases lt_or_ge a b with h | h
  · rw [if_pos (decide_eq_true h), if_pos h.le]
  · rw [if_neg (by simpa using h)]
    split_ifs with hle
    · exact le_antisymm hle h
    · rfl

theorem scalar_round (q : ℚ) : Scalar.round q = (roundHalfAway q : ℚ) := by
  unfold roundHalfAway
  split_ifs with h
  · rw [Int.cast_neg]
    exact if_pos h
  · exact if_neg h

theorem scalar_toInt (z : ℤ) : Scalar.toInt (z : ℚ) = z := by
  change (z : ℚ).num.tdiv (z : ℚ).den = z
  rw [Rat.num_intCast, Rat.den_intCast, Nat.cast_one, Int.tdiv_one]

theorem scalar_toNat (z : ℤ) : Scalar.toNat (z : ℚ) = z.toNat := by
  change ((z : ℚ).num.tdiv (z : ℚ).den).toNat = z.toNat
  rw [Rat.num_intCast, Rat.den_intCast, Nat.cast_one, Int.tdiv_one]

/-- The clamp of the code. -/
theorem clamped_eq (v : ℚ) :
    (if s.hasRange && !Scalar.isNan v then
      Scalar.min (Scalar.max v (Scalar.min s.minimum s.maximum)) (Scalar.max s.minimum s.maximum)
    else v) = s.clamped v := by
  have hrange : (s.hasRange && !Scalar.isNan v) = decide ¬ (s.minimum = 0 ∧ s.maximum = 0) := by
    change ((!decide (s.minimum = 0) || !decide (s.maximum = 0)) && !false) = _
    by_cases h : s.minimum = 0 <;> by_cases h' : s.maximum = 0 <;> simp [h, h']
  rw [hrange, scalar_min, scalar_max, scalar_min, scalar_max, clamped]
  by_cases h : s.minimum = 0 ∧ s.maximum = 0
  · rw [if_pos h, if_neg (by simpa using h)]
  · rw [if_neg h, if_pos (decide_eq_true h)]

/-! ### The bits of a number -/

theorem and_bitMask (len : ℕ) (x : BitVec 64) :
    x &&& bitMask len = (x.setWidth len).setWidth 64 := by
  refine BitVec.eq_of_getLsbD_eq fun i hi => ?_
  rw [BitVec.getLsbD_and, getLsbD_bitMask, BitVec.getLsbD_setWidth, BitVec.getLsbD_setWidth,
    Bool.and_comm]
  simp [hi]

/-- The low bits of a number in 64. -/
theorem ofInt_and_bitMask (h₆₄ : s.bitLength ≤ 64) (z : ℤ) :
    BitVec.ofInt 64 z &&& bitMask s.bitLength = s.pattern z := by
  have hdvd : ((2 ^ s.bitLength : ℕ) : ℤ) ∣ ((2 ^ 64 : ℕ) : ℤ) :=
    Int.natCast_dvd_natCast.2 (pow_dvd_pow 2 h₆₄)
  have hnonneg := Int.emod_nonneg z (by decide : ((2 ^ 64 : ℕ) : ℤ) ≠ 0)
  rw [and_bitMask, pattern]
  congr 1
  refine BitVec.eq_of_toNat_eq ?_
  rw [BitVec.toNat_setWidth, BitVec.toNat_ofInt, BitVec.toNat_ofInt, ← Int.emod_emod_of_dvd z hdvd,
    Int.toNat_emod hnonneg (Int.natCast_nonneg _), Int.toNat_natCast]

/-- Two numbers with the same bits. -/
theorem pattern_eq_of_dvd {y z : ℤ} (h : (2 : ℤ) ^ s.bitLength ∣ y - z) :
    s.pattern y = s.pattern z := by
  rw [pattern, pattern]
  congr 1
  refine BitVec.eq_of_toNat_eq ?_
  have hmod : z % 2 ^ s.bitLength = y % 2 ^ s.bitLength := Int.modEq_iff_dvd.2 h
  rw [BitVec.toNat_ofInt, BitVec.toNat_ofInt]
  push_cast
  rw [hmod]

theorem half_eq {len : ℕ} (h : 1 ≤ len) : (2 : ℚ) ^ len / 2 = ((2 ^ (len - 1) : ℤ) : ℚ) := by
  obtain ⟨k, rfl⟩ := Nat.exists_eq_add_of_le' h
  rw [Nat.add_sub_cancel, pow_succ]
  push_cast
  ring

theorem saturate_signed (hsign : s.signedness = .signed) (h₁ : 1 ≤ s.bitLength) (z : ℤ) :
    s.saturate (z : ℚ) = if 2 ^ (s.bitLength - 1) ≤ z then bitMask s.bitLength >>> 1
      else if z < -2 ^ (s.bitLength - 1) then
        1#64 <<< (if 64 ≤ s.bitLength then 63 else s.bitLength - 1)
      else BitVec.ofInt 64 z := by
  have hle : Scalar.le (Scalar.lit (2 ^ s.bitLength / 2) : ℚ) (z : ℚ) =
      decide (2 ^ (s.bitLength - 1) ≤ z) := by
    change decide ((2 : ℚ) ^ s.bitLength / 2 ≤ (z : ℚ)) = _
    rw [half_eq h₁]
    exact decide_eq_decide.2 Int.cast_le
  have hlt : Scalar.lt (z : ℚ) (-(Scalar.lit (2 ^ s.bitLength / 2) : ℚ)) =
      decide (z < -2 ^ (s.bitLength - 1)) := by
    change decide ((z : ℚ) < -((2 : ℚ) ^ s.bitLength / 2)) = _
    rw [half_eq h₁, ← Int.cast_neg]
    exact decide_eq_decide.2 Int.cast_lt
  rw [saturate, hsign]
  dsimp only
  rw [hle, hlt, scalar_toInt]
  simp only [decide_eq_true_eq]

theorem saturate_unsigned (hsign : s.signedness = .unsigned) (z : ℤ) :
    s.saturate (z : ℚ) = if z ≤ 0 then 0
      else if 2 ^ s.bitLength ≤ z then bitMask s.bitLength else BitVec.ofInt 64 z := by
  have hle : Scalar.le (z : ℚ) (Scalar.lit 0 : ℚ) = decide (z ≤ 0) :=
    decide_eq_decide.2 Int.cast_nonpos
  have htop : Scalar.le (Scalar.lit (2 ^ s.bitLength) : ℚ) (z : ℚ) =
      decide (2 ^ s.bitLength ≤ z) := by
    change decide ((2 : ℚ) ^ s.bitLength ≤ (z : ℚ)) = _
    exact decide_eq_decide.2 (by exact_mod_cast Iff.rfl)
  rw [saturate, hsign]
  dsimp only
  rw [hle, htop, scalar_toNat]
  simp only [decide_eq_true_eq]
  split_ifs with hpos
  · rfl
  · rfl
  · rw [← BitVec.ofInt_natCast, Int.toNat_of_nonneg (by omega)]

theorem toNat_bitMask {len : ℕ} (h₁ : 1 ≤ len) (h₆₄ : len ≤ 64) :
    (bitMask len).toNat = 2 ^ len - 1 := by
  refine Nat.eq_of_testBit_eq fun i => ?_
  rw [BitVec.testBit_toNat, getLsbD_bitMask, Nat.testBit_two_pow_sub_one]
  by_cases hi : i < len
  · simp [hi, show i < 64 by omega]
  · simp [hi]

theorem two_pow_eq {len : ℕ} (h : 1 ≤ len) : 2 ^ len = 2 * 2 ^ (len - 1) := by
  obtain ⟨k, rfl⟩ := Nat.exists_eq_add_of_le' h
  rw [Nat.add_sub_cancel, pow_succ, Nat.mul_comm]

/-- The largest signed number. -/
theorem bitMask_ushiftRight {len : ℕ} (h₁ : 1 ≤ len) (h₆₄ : len ≤ 64) :
    bitMask len >>> 1 = BitVec.ofInt 64 (2 ^ (len - 1) - 1) := by
  have hpow : 2 ^ (len - 1) ≤ 2 ^ 63 := Nat.pow_le_pow_right (by decide) (by omega)
  have hpos : 0 < 2 ^ (len - 1) := Nat.pow_pos (by decide)
  have hcast : (2 ^ (len - 1) - 1 : ℤ) = ((2 ^ (len - 1) - 1 : ℕ) : ℤ) := by
    push_cast [hpos]
    rfl
  rw [hcast, BitVec.ofInt_natCast]
  refine BitVec.eq_of_toNat_eq ?_
  rw [BitVec.toNat_ushiftRight, toNat_bitMask h₁ h₆₄, BitVec.toNat_ofNat, two_pow_eq h₁,
    Nat.shiftRight_eq_div_pow]
  omega

/-- The least one, without its sign. -/
theorem one_shiftLeft {len : ℕ} (h₁ : 1 ≤ len) (h₆₄ : len ≤ 64) :
    1#64 <<< (if 64 ≤ len then 63 else len - 1) = BitVec.ofInt 64 (2 ^ (len - 1)) := by
  have hshift : (if 64 ≤ len then 63 else len - 1) = len - 1 := by
    split_ifs
    · omega
    · rfl
  have hcast : (2 ^ (len - 1) : ℤ) = ((2 ^ (len - 1) : ℕ) : ℤ) := by push_cast; rfl
  have hpow : 2 ^ (len - 1) ≤ 2 ^ 63 := Nat.pow_le_pow_right (by decide) (by omega)
  rw [hshift, hcast, BitVec.ofInt_natCast]
  refine BitVec.eq_of_toNat_eq ?_
  rw [← BitVec.twoPow, BitVec.toNat_twoPow_of_lt (by omega), BitVec.toNat_ofNat,
    Nat.mod_eq_of_lt (hpow.trans_lt (by decide))]

/-- **The code saturates to the bits of the saturated number.** -/
theorem saturate_eq (h₁ : 1 ≤ s.bitLength) (h₆₄ : s.bitLength ≤ 64) (z : ℤ) :
    s.saturate (z : ℚ) &&& bitMask s.bitLength = s.pattern (s.saturated z) := by
  cases hsign : s.signedness with
  | signed =>
    have hpos : (0 : ℤ) < 2 ^ (s.bitLength - 1) := by positivity
    rw [saturate_signed hsign h₁, saturated, rawLow, rawHigh, hsign]
    dsimp only
    by_cases htop : 2 ^ (s.bitLength - 1) ≤ z
    · rw [if_pos htop, bitMask_ushiftRight h₁ h₆₄, ofInt_and_bitMask h₆₄, min_eq_left (by omega),
        max_eq_right (by omega)]
    rw [if_neg htop, min_eq_right (by omega)]
    by_cases hbottom : z < -2 ^ (s.bitLength - 1)
    · rw [if_pos hbottom, one_shiftLeft h₁ h₆₄, ofInt_and_bitMask h₆₄, max_eq_left hbottom.le]
      refine pattern_eq_of_dvd ⟨1, ?_⟩
      have hpow : (2 : ℤ) ^ s.bitLength = 2 * 2 ^ (s.bitLength - 1) := by
        exact_mod_cast two_pow_eq h₁
      rw [hpow]
      ring
    · rw [if_neg hbottom, ofInt_and_bitMask h₆₄, max_eq_right (by omega)]
  | unsigned =>
    have hpos : (0 : ℤ) < 2 ^ s.bitLength := by positivity
    rw [saturate_unsigned hsign, saturated, rawLow, rawHigh, hsign]
    dsimp only
    by_cases hzero : z ≤ 0
    · rw [if_pos hzero, min_eq_right (by omega), max_eq_left hzero]
      exact ofInt_and_bitMask h₆₄ 0
    rw [if_neg hzero]
    by_cases htop : 2 ^ s.bitLength ≤ z
    · have hmask : bitMask s.bitLength = BitVec.ofInt 64 (2 ^ s.bitLength - 1) := by
        have hle : 2 ^ s.bitLength ≤ 2 ^ 64 := Nat.pow_le_pow_right (by decide) h₆₄
        have hone : 0 < 2 ^ s.bitLength := Nat.pow_pos (by decide)
        have hcast : (2 ^ s.bitLength - 1 : ℤ) = ((2 ^ s.bitLength - 1 : ℕ) : ℤ) := by
          push_cast [hone]
          rfl
        rw [hcast, BitVec.ofInt_natCast]
        refine BitVec.eq_of_toNat_eq ?_
        rw [toNat_bitMask h₁ h₆₄, BitVec.toNat_ofNat, Nat.mod_eq_of_lt (by omega)]
      rw [if_pos htop, min_eq_left (by omega), max_eq_right (by omega), ← ofInt_and_bitMask h₆₄,
        ← hmask]
    · rw [if_neg htop, ofInt_and_bitMask h₆₄, min_eq_right (by omega), max_eq_right (by omega)]

/-- Sign extension reads a word of `len` bits with its sign. -/
theorem signExtend_setWidth {len : ℕ} (x : BitVec len) (h₁ : 1 ≤ len) (h₆₄ : len ≤ 64) :
    signExtend (x.setWidth 64) len = x.toInt := by
  have hlast : (x.setWidth 64).getLsbD (len - 1) = x.msb := by
    rw [BitVec.msb_eq_getLsbD_last, BitVec.getLsbD_setWidth]
    simp [show len - 1 < 64 by omega]
  have hwide : (x.signExtend 64).toInt = x.toInt := BitVec.toInt_signExtend_of_le h₆₄
  have htest : x.setWidth 64 &&& 1#64 <<< (len - 1) =
      if x.msb then 1#64 <<< (len - 1) else 0#64 := by
    rw [← BitVec.twoPow, BitVec.and_twoPow, hlast]
  have hone : 1#64 <<< (len - 1) ≠ 0#64 := by
    intro hzero
    have := congrArg BitVec.toNat hzero
    rw [← BitVec.twoPow, BitVec.toNat_twoPow_of_lt (by omega)] at this
    exact absurd this (Nat.pow_pos (by decide)).ne'
  unfold signExtend
  rw [htest]
  split_ifs with hfull hbit hmsb hmsb
  · obtain rfl : len = 64 := by omega
    rw [BitVec.setWidth_eq]
  · rw [← hwide]
    congr 1
    refine BitVec.eq_of_getLsbD_eq fun i hi => ?_
    rw [BitVec.getLsbD_or, BitVec.getLsbD_not, getLsbD_bitMask, BitVec.getLsbD_signExtend,
      BitVec.getLsbD_setWidth, hbit]
    by_cases hlen : i < len <;> simp [hi, hlen]
  · exact absurd hone hmsb
  · exact absurd rfl hmsb
  · rw [← hwide, BitVec.signExtend_eq_setWidth_of_msb_false (by simpa using hbit)]

/-- **Reading the bits of a number that fits gives it back.** -/
theorem numberOf_pattern (h₁ : 1 ≤ s.bitLength) (h₆₄ : s.bitLength ≤ 64) {z : ℤ}
    (hlow : s.rawLow ≤ z) (hhigh : z ≤ s.rawHigh) : s.numberOf (s.pattern z) = z := by
  rw [rawLow] at hlow
  rw [rawHigh] at hhigh
  rw [numberOf, pattern]
  cases hsign : s.signedness with
  | signed =>
    rw [hsign] at hlow hhigh
    dsimp only at hlow hhigh ⊢
    rw [signExtend_setWidth _ h₁ h₆₄]
    exact BitVec.toInt_ofInt_eq_self h₁ hlow (by omega)
  | unsigned =>
    rw [hsign] at hlow hhigh
    dsimp only at hlow hhigh ⊢
    obtain ⟨n, rfl⟩ := Int.eq_ofNat_of_zero_le hlow
    have hn : n < 2 ^ s.bitLength := by
      have hlt : (n : ℤ) < 2 ^ s.bitLength := by omega
      exact_mod_cast hlt
    have hle : 2 ^ s.bitLength ≤ 2 ^ 64 := Nat.pow_le_pow_right (by decide) h₆₄
    rw [BitVec.ofInt_natCast, BitVec.toNat_setWidth, BitVec.toNat_ofNat, Nat.mod_eq_of_lt hn,
      Nat.mod_eq_of_lt (hn.trans_le hle)]

/-- A word that the width holds is one of that many bits. -/
theorem exists_setWidth {len : ℕ} (h₆₄ : len ≤ 64) {raw : BitVec 64} (hraw : raw.toNat < 2 ^ len) :
    ∃ x : BitVec len, raw = x.setWidth 64 := by
  have hle : 2 ^ len ≤ 2 ^ 64 := Nat.pow_le_pow_right (by decide) h₆₄
  refine ⟨raw.setWidth len, BitVec.eq_of_toNat_eq ?_⟩
  rw [BitVec.toNat_setWidth, BitVec.toNat_setWidth, Nat.mod_eq_of_lt hraw,
    Nat.mod_eq_of_lt (hraw.trans_le hle)]

/-- Bits of the width are those of a number that fits. -/
theorem pattern_numberOf (h₁ : 1 ≤ s.bitLength) (h₆₄ : s.bitLength ≤ 64) {raw : BitVec 64}
    (hraw : raw.toNat < 2 ^ s.bitLength) :
    s.rawLow ≤ s.numberOf raw ∧ s.numberOf raw ≤ s.rawHigh ∧
      s.pattern (s.numberOf raw) = raw := by
  rw [rawLow, rawHigh, numberOf, pattern]
  cases hsign : s.signedness with
  | signed =>
    obtain ⟨x, rfl⟩ := exists_setWidth h₆₄ hraw
    have hbound := BitVec.toInt_lt (x := x)
    dsimp only
    rw [signExtend_setWidth _ h₁ h₆₄, BitVec.ofInt_toInt]
    exact ⟨BitVec.le_toInt x, by omega, rfl⟩
  | unsigned =>
    have hlt : (raw.toNat : ℤ) < 2 ^ s.bitLength := by exact_mod_cast hraw
    have hle : 2 ^ s.bitLength ≤ 2 ^ 64 := Nat.pow_le_pow_right (by decide) h₆₄
    dsimp only
    refine ⟨Int.natCast_nonneg _, by omega, BitVec.eq_of_toNat_eq ?_⟩
    rw [BitVec.ofInt_natCast, BitVec.toNat_setWidth, BitVec.toNat_ofNat, Nat.mod_eq_of_lt hraw,
      Nat.mod_eq_of_lt (hraw.trans_le hle)]

/-! ### The law -/

theorem clamped_mono : Monotone s.clamped := by
  intro v w hvw
  unfold clamped
  split_ifs
  · exact hvw
  · exact min_le_min_right _ (max_le_max_right _ hvw)

theorem clamped_of_inRange {v : ℚ} (h : s.InRange v) : s.clamped v = v := by
  rw [clamped]
  rcases h with hnone | ⟨hlow, hhigh⟩
  · rw [if_pos hnone]
  · rw [max_eq_left hlow, min_eq_left hhigh, ite_self]

theorem rawLow_le_rawHigh : s.rawLow ≤ s.rawHigh := by
  rw [rawLow, rawHigh]
  cases s.signedness with
  | signed =>
    have hpos : (0 : ℤ) < 2 ^ (s.bitLength - 1) := by positivity
    dsimp only
    omega
  | unsigned =>
    have hpos : (0 : ℤ) < 2 ^ s.bitLength := by positivity
    dsimp only
    omega

theorem saturated_mono : Monotone s.saturated := by
  intro y z hyz
  exact max_le_max_left _ (min_le_min_left _ hyz)

theorem saturated_of_bounds {z : ℤ} (hlow : s.rawLow ≤ z) (hhigh : z ≤ s.rawHigh) :
    s.saturated z = z := by
  rw [saturated, min_eq_right hhigh, max_eq_right hlow]

theorem rawMinimum_eq (hinteger : s.valueType = .integer) (h₁ : 1 ≤ s.bitLength) :
    s.rawMinimum = (s.rawLow : ℚ) := by
  rw [rawMinimum, rawLow, hinteger]
  cases s.signedness with
  | signed =>
    change -((2 : ℚ) ^ s.bitLength / 2) = _
    rw [half_eq h₁, ← Int.cast_neg]
  | unsigned => rfl

theorem rawMaximum_eq (hinteger : s.valueType = .integer) (h₁ : 1 ≤ s.bitLength) :
    s.rawMaximum = (s.rawHigh : ℚ) := by
  rw [rawMaximum, rawHigh, hinteger]
  cases s.signedness with
  | signed =>
    change (2 : ℚ) ^ s.bitLength / 2 - 1 = _
    rw [half_eq h₁]
    push_cast
    rfl
  | unsigned =>
    change (2 : ℚ) ^ s.bitLength - 1 = _
    push_cast
    rfl

/-- **Physical values become the bits of the saturated, rounded, scaled, clamped value.** -/
theorem physicalToRaw_eq (hinteger : s.valueType = .integer) (h₁ : 1 ≤ s.bitLength)
    (h₆₄ : s.bitLength ≤ 64) (v : ℚ) : s.physicalToRaw v = s.pattern (s.quantised v) := by
  have hnan (q : ℚ) : (if Scalar.isNan q = true then Scalar.lit 0 else q) = q :=
    if_neg Bool.noConfusion
  rw [physicalToRaw, hinteger]
  dsimp only
  rw [clamped_eq, hnan, scalar_round, saturate_eq h₁ h₆₄, quantised]

/-- The number read from the bits of a value. -/
theorem numberOf_physicalToRaw (hinteger : s.valueType = .integer) (h₁ : 1 ≤ s.bitLength)
    (h₆₄ : s.bitLength ≤ 64) (v : ℚ) : s.numberOf (s.physicalToRaw v) = s.quantised v := by
  rw [physicalToRaw_eq hinteger h₁ h₆₄]
  refine numberOf_pattern h₁ h₆₄ (le_max_left _ _) ?_
  exact max_le rawLow_le_rawHigh (min_le_left _ _)

theorem rawToPhysical_eq (hinteger : s.valueType = .integer) (raw : BitVec 64) :
    s.rawToPhysical raw = s.numberOf raw * s.factor + s.offset := by
  rw [rawToPhysical, numberOf, hinteger]
  cases s.signedness <;> rfl

/-- The scaled value lies between the least and the greatest number exactly when the value lies
between the floor and the ceiling. -/
theorem scaled_bounds (hinteger : s.valueType = .integer) (h₁ : 1 ≤ s.bitLength)
    (hfactor : s.factor ≠ 0) {v : ℚ} (hfloor : s.physicalFloor ≤ v)
    (hceiling : v ≤ s.physicalCeiling) :
    (s.rawLow : ℚ) ≤ (v - s.offset) / s.factor ∧ (v - s.offset) / s.factor ≤ s.rawHigh := by
  have hlohi : (s.rawLow : ℚ) ≤ s.rawHigh := by exact_mod_cast rawLow_le_rawHigh
  rw [physicalFloor, rawMinimum_eq hinteger h₁, rawMaximum_eq hinteger h₁, scalar_min] at hfloor
  rw [physicalCeiling, rawMinimum_eq hinteger h₁, rawMaximum_eq hinteger h₁, scalar_max] at hceiling
  rcases hfactor.lt_or_gt with hneg | hpos
  · have hends := mul_le_mul_of_nonpos_right hlohi hneg.le
    rw [min_eq_right (by linarith)] at hfloor
    rw [max_eq_left (by linarith)] at hceiling
    rw [le_div_iff_of_neg hneg, div_le_iff_of_neg hneg]
    constructor <;> linarith
  · have hends := mul_le_mul_of_nonneg_right hlohi hpos.le
    rw [min_eq_left (by linarith)] at hfloor
    rw [max_eq_right (by linarith)] at hceiling
    rw [le_div_iff₀ hpos, div_le_iff₀ hpos]
    constructor <;> linarith

/-- **Inside what the width can carry, an encoding is off by at most half a step.** -/
theorem abs_rawToPhysical_sub_le (hinteger : s.valueType = .integer) (h₁ : 1 ≤ s.bitLength)
    (h₆₄ : s.bitLength ≤ 64) (hfactor : s.factor ≠ 0) {v : ℚ}
    (hfloor : s.physicalFloor ≤ s.clamped v) (hceiling : s.clamped v ≤ s.physicalCeiling) :
    |s.rawToPhysical (s.physicalToRaw v) - s.clamped v| ≤ |s.factor| / 2 := by
  obtain ⟨hlow, hhigh⟩ := scaled_bounds hinteger h₁ hfactor hfloor hceiling
  set q := (s.clamped v - s.offset) / s.factor with hq
  have hquantised : s.quantised v = roundHalfAway q :=
    saturated_of_bounds (le_roundHalfAway hlow) (roundHalfAway_le hhigh)
  have hclamped : s.clamped v = q * s.factor + s.offset := by
    rw [hq, div_mul_cancel₀ _ hfactor, sub_add_cancel]
  calc |s.rawToPhysical (s.physicalToRaw v) - s.clamped v|
      = |((roundHalfAway q : ℚ) - q) * s.factor| := by
        rw [rawToPhysical_eq hinteger, numberOf_physicalToRaw hinteger h₁ h₆₄, hquantised, hclamped]
        congr 1
        ring
    _ = |(roundHalfAway q : ℚ) - q| * |s.factor| := abs_mul _ _
    _ ≤ 1 / 2 * |s.factor| :=
        mul_le_mul_of_nonneg_right (abs_roundHalfAway_sub_le q) (abs_nonneg _)
    _ = |s.factor| / 2 := by ring

/-- **Bits survive the way over a physical value of the declared range.** -/
theorem physicalToRaw_rawToPhysical (hinteger : s.valueType = .integer) (h₁ : 1 ≤ s.bitLength)
    (h₆₄ : s.bitLength ≤ 64) (hfactor : s.factor ≠ 0) {raw : BitVec 64}
    (hraw : raw.toNat < 2 ^ s.bitLength) (hrange : s.InRange (s.rawToPhysical raw)) :
    s.physicalToRaw (s.rawToPhysical raw) = raw := by
  obtain ⟨hlow, hhigh, hpattern⟩ := pattern_numberOf h₁ h₆₄ hraw
  rw [physicalToRaw_eq hinteger h₁ h₆₄, quantised, clamped_of_inRange hrange,
    rawToPhysical_eq hinteger, add_sub_cancel_right, mul_div_cancel_right₀ _ hfactor,
    roundHalfAway_intCast, saturated_of_bounds hlow hhigh, hpattern]

/-- **The physical encoding law**: the value is clamped, scaled, rounded and saturated.  So the
number is monotone or antitone in the value, an encoding is off by at most half a step where the
width can carry it, and bits whose value is in range survive. -/
theorem encoding_law (s : ScaledLayout ℚ) (hinteger : s.valueType = .integer)
    (h₁ : 1 ≤ s.bitLength) (h₆₄ : s.bitLength ≤ 64) (hfactor : s.factor ≠ 0) :
    (∀ v, s.physicalToRaw v = s.pattern (s.quantised v)) ∧
    (0 < s.factor → Monotone fun v => s.numberOf (s.physicalToRaw v)) ∧
    (s.factor < 0 → Antitone fun v => s.numberOf (s.physicalToRaw v)) ∧
    (∀ v, s.physicalFloor ≤ s.clamped v → s.clamped v ≤ s.physicalCeiling →
      |s.rawToPhysical (s.physicalToRaw v) - s.clamped v| ≤ |s.factor| / 2) ∧
    ∀ raw : BitVec 64, raw.toNat < 2 ^ s.bitLength → s.InRange (s.rawToPhysical raw) →
      s.physicalToRaw (s.rawToPhysical raw) = raw := by
  refine ⟨physicalToRaw_eq hinteger h₁ h₆₄, ?_, ?_, ?_, ?_⟩
  · intro hpos v w hvw
    have hclamped : s.clamped v ≤ s.clamped w := clamped_mono hvw
    have hscaled := div_le_div_of_nonneg_right (sub_le_sub_right hclamped s.offset) hpos.le
    simp only [numberOf_physicalToRaw hinteger h₁ h₆₄]
    exact saturated_mono (roundHalfAway_mono hscaled)
  · intro hneg v w hvw
    have hclamped : s.clamped v ≤ s.clamped w := clamped_mono hvw
    have hscaled := div_le_div_of_nonpos_of_le hneg.le (sub_le_sub_right hclamped s.offset)
    simp only [numberOf_physicalToRaw hinteger h₁ h₆₄]
    exact saturated_mono (roundHalfAway_mono hscaled)
  · intro v hfloor hceiling
    exact abs_rawToPhysical_sub_le hinteger h₁ h₆₄ hfactor hfloor hceiling
  · intro raw hraw hrange
    exact physicalToRaw_rawToPhysical hinteger h₁ h₆₄ hfactor hraw hrange

/-- A signed byte with a negative factor and a swapped range. -/
def swapped : ScaledLayout ℚ :=
  { startBit := 0, bitLength := 8, byteOrder := .intel, signedness := .signed, factor := -1 / 2
    offset := 10, minimum := 40, maximum := -40 }

/-- Its law, and three of its values: a half and one behind each end of the range. -/
theorem encoding_law_swapped :
    (∀ v, swapped.physicalToRaw v = swapped.pattern (swapped.quantised v)) ∧
    (swapped.physicalToRaw (41 / 4) = 0xFF ∧ swapped.physicalToRaw 50 = 0xC4 ∧
      swapped.physicalToRaw (-100) = 0x64) :=
  ⟨(encoding_law swapped rfl (by decide) (by decide) (by decide +kernel)).1, by decide +kernel⟩

end ScaledLayout

end Core
end Canforge
