/-
# Doubles

What the parsers rely on of `double`, as far as integers go: `Doubles` lists it for a type of
numbers.  A finite double has 53 significant bits; a conversion to `double` or by `std::strtod`
keeps a number that is one, and a cast to an integer cuts off the fraction.

`Binary64` is a type of numbers of which all of it is true (`binary64`): the rationals of 53
bits, to which every operation rounds.  It has no infinities and no least exponent.
-/

import Canforge.Lib.Significand
import Canforge.Text.Tokens

namespace Canforge
namespace Text

open Canforge.Core Lib

/-- **What is known of `double`.** -/
structure Doubles (R : Type) [Scalar R] where
  /-- The number a finite double stands for. -/
  value : R → Option ℚ
  /-- A finite double has 53 significant bits. -/
  hasBits : ∀ {x : R} {q : ℚ}, value x = some q → HasBits 53 q
  /-- The conversion of `std::uint64_t` keeps a number that is a double. -/
  ofNat : ∀ {n : ℕ}, n < 2 ^ 64 → HasBits 53 (n : ℤ) → value (Scalar.ofNat n) = some n
  /-- `std::strtod` reads a literal that writes a double as that double. -/
  strtod : ∀ {t : Text} {n : ℕ}, RealText t → literalValue t = n → n ≤ 2 ^ 63 →
    HasBits 53 (n : ℤ) → value (Scalar.strtod t) = some n
  /-- A product with `1.0` or `-1.0` only changes the sign. -/
  sign : ∀ (negative : Bool) (x : R), value (Scalar.lit (if negative then -1 else 1) * x) =
    (value x).map fun q => if negative then -q else q
  /-- The comparisons with the bounds of `std::int64_t`. -/
  inRange : ∀ x : R,
    (Scalar.le (Scalar.lit (-2 ^ 63)) x && Scalar.lt x (Scalar.lit (2 ^ 63))) = true ↔
      ∃ q, value x = some q ∧ -2 ^ 63 ≤ q ∧ q < 2 ^ 63
  /-- `static_cast<std::int64_t>` inside of these. -/
  toInt : ∀ {x : R} {q : ℚ}, value x = some q → -2 ^ 63 ≤ q → q < 2 ^ 63 →
    Scalar.toInt x = trunc q

/-! ### Numbers of 53 bits -/

/-- The numbers of 53 significant bits. -/
def Binary64 : Type := { q : ℚ // HasBits 53 q }

namespace Binary64

/-- The nearest number of 53 bits. -/
def round (q : ℚ) : Binary64 := ⟨roundBits 53 q, roundBits_hasBits (by decide) q⟩

theorem round_val {q : ℚ} (h : HasBits 53 q) : (round q).val = q := roundBits_eq h

instance : Scalar Binary64 where
  add a b := round (a.val + b.val)
  sub a b := round (a.val - b.val)
  mul a b := round (a.val * b.val)
  div a b := round (a.val / b.val)
  neg a := ⟨-a.val, a.property.neg⟩
  lit := round
  lt a b := decide (a.val < b.val)
  le a b := decide (a.val ≤ b.val)
  eq a b := decide (a.val = b.val)
  isNan _ := false
  isFinite _ := true
  ofNat n := round n
  ofInt z := round z
  toNat a := (trunc a.val).toNat
  toInt a := trunc a.val
  fabs a := round |a.val|
  sin _ := round 0
  round a := round (roundHalfAway a.val)
  strtod text :=
    match text with
    | c :: rest => if c = ch '-' then round (-literalValue rest) else round (literalValue text)
    | [] => round 0
  toText a := fixedPoint a.val
  ofFloatBits _ := round 0
  ofDoubleBits _ := round 0
  toFloatBits _ := 0
  toDoubleBits _ := 0

theorem strtod_eq {t : Text} (h : RealText t) :
    (Scalar.strtod t : Binary64) = round (literalValue t) := by
  obtain ⟨⟨c, hc, hfirst⟩, -⟩ := h
  cases t with
  | nil => cases hc
  | cons d rest =>
    obtain rfl := Option.some.inj hc
    have hne : d ≠ ch '-' := by
      rintro rfl
      revert hfirst
      decide
    exact if_neg hne

theorem hasBits_two_pow (n : ℕ) : HasBits 53 (2 ^ n) := ⟨1, n, by norm_num, by simp⟩

theorem lit_val {q : ℚ} (h : HasBits 53 q) : (Scalar.lit q : Binary64).val = q := round_val h

theorem mul_val {x y : Binary64} {q : ℚ} (h : x.val * y.val = q) (hq : HasBits 53 q) :
    (x * y).val = q := by
  rw [← h] at hq ⊢
  exact roundBits_eq hq

end Binary64

open Binary64 in
/-- **The laws hold of the numbers of 53 bits.** -/
def binary64 : Doubles Binary64 where
  value x := some x.val
  hasBits := by
    rintro x q h
    obtain rfl := Option.some.inj h
    exact x.property
  ofNat := by
    rintro n - h
    exact congrArg some (round_val h)
  strtod := by
    rintro t n ht hn - h
    rw [strtod_eq ht, hn]
    exact congrArg some (round_val h)
  sign := by
    have hone : HasBits 53 1 := by simpa using hasBits_two_pow 0
    rintro (- | -) x
    · refine congrArg some (mul_val ?_ x.property)
      rw [if_neg Bool.false_ne_true, lit_val hone, one_mul]
      rfl
    · refine congrArg some (mul_val ?_ x.property.neg)
      rw [if_pos rfl, lit_val hone.neg, neg_one_mul]
      rfl
  inRange := by
    intro x
    have hle : Scalar.le (Scalar.lit (-2 ^ 63)) x = decide (-2 ^ 63 ≤ x.val) :=
      congrArg (fun q : ℚ => decide (q ≤ x.val)) (lit_val (hasBits_two_pow 63).neg)
    have hlt : Scalar.lt x (Scalar.lit (2 ^ 63)) = decide (x.val < 2 ^ 63) :=
      congrArg (fun q : ℚ => decide (x.val < q)) (lit_val (hasBits_two_pow 63))
    rw [hle, hlt]
    simp
  toInt := by
    rintro x q h - -
    obtain rfl := Option.some.inj h
    rfl

end Text
end Canforge
