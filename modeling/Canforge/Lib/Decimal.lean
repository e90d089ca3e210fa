/-
# Decimal literals

A `Literal` is what a decimal number is written as: digits before and behind the point and an
exponent.  `significand P q` rounds a positive number to `P` significant digits, ties to even, and
`general P n X` writes digits `n` with the first of them at `10 ^ X` the way the `%g` of C does:
without an exponent when `-4 ≤ X < P`, and without trailing zeros behind the point.  What is written
is the number itself (`value_general`), and `significand` is close to `q`
(`abs_sub_significand_le`).
-/

import Canforge.Lib.Numeral

namespace Canforge
namespace Lib

/-! ### The nearest integer -/

/-- The integer nearest to `x`, the even one of two. -/
def roundEven (x : ℚ) : ℤ :=
  let k := ⌊x⌋
  if x - k < 1 / 2 then k else if 1 / 2 < x - k then k + 1 else k + k % 2

theorem abs_sub_roundEven_le (x : ℚ) : |x - roundEven x| ≤ 1 / 2 := by
  have hlo := Int.floor_le x
  have hhi := Int.lt_floor_add_one x
  unfold roundEven
  dsimp only
  split_ifs with h₁ h₂
  · rw [abs_le]
    constructor <;> linarith
  · push_cast
    rw [abs_le]
    constructor <;> linarith
  · rcases Int.emod_two_eq_zero_or_one ⌊x⌋ with h | h <;> rw [h] <;> push_cast <;>
      rw [abs_le] <;> constructor <;> linarith

/-! ### Trailing zeros -/

/-- Digits without the zeros at their end. -/
def stripZeros (ds : List ℕ) : List ℕ := ds.rdropWhile (· == 0)

theorem stripZeros_append_replicate (ds : List ℕ) :
    ∃ k, ds = stripZeros ds ++ List.replicate k 0 := by
  refine ⟨(ds.rtakeWhile (· == 0)).length, ?_⟩
  have hzeros : ds.rtakeWhile (· == 0) = List.replicate (ds.rtakeWhile (· == 0)).length 0 :=
    List.eq_replicate_iff.2 ⟨rfl, fun d hd => by simpa using List.mem_rtakeWhile_imp hd⟩
  rw [← hzeros]
  exact List.rdropWhile_append_rtakeWhile.symm

theorem mem_of_mem_stripZeros {ds : List ℕ} {d : ℕ} (h : d ∈ stripZeros ds) : d ∈ ds :=
  (List.rdropWhile_prefix _ _).subset h

/-! ### Literals -/

/-- A decimal number as it is written. -/
structure Literal where
  whole : List ℕ
  fraction : List ℕ := []
  exponent : Option ℤ := none
  deriving DecidableEq, Repr

namespace Literal

/-- The number a literal stands for. -/
def value (l : Literal) : ℚ :=
  (ofNumeral 10 (l.whole ++ l.fraction) : ℚ) * 10 ^ (l.exponent.getD 0 - l.fraction.length)

/-- Its digits are decimal digits, and one stands before the point. -/
structure WellFormed (l : Literal) : Prop where
  whole_ne_nil : l.whole ≠ []
  whole_lt : ∀ d ∈ l.whole, d < 10
  fraction_lt : ∀ d ∈ l.fraction, d < 10

/-- **Zeros behind the last digit after the point do not count.** -/
theorem value_stripZeros (whole fraction : List ℕ) (e : Option ℤ) :
    value ⟨whole, stripZeros fraction, e⟩ = value ⟨whole, fraction, e⟩ := by
  obtain ⟨k, hk⟩ := stripZeros_append_replicate fraction
  have hdigits : ofNumeral 10 (whole ++ fraction)
      = ofNumeral 10 (whole ++ stripZeros fraction) * 10 ^ k := by
    rw [hk, ← List.append_assoc, ofNumeral_append, List.length_replicate,
      ofNumeral_replicate, add_zero, ← hk]
  have hlen : fraction.length = (stripZeros fraction).length + k := by
    conv_lhs => rw [hk]
    rw [List.length_append, List.length_replicate]
  have hexp : e.getD 0 - (stripZeros fraction).length = (e.getD 0 - fraction.length) + k := by
    rw [hlen]
    push_cast
    ring
  unfold value
  dsimp only
  rw [hdigits, hexp, zpow_add₀ (by norm_num), zpow_natCast]
  push_cast
  ring

end Literal

/-! ### `%g` -/

section

/-- `q` rounded to `P` significant digits: the digits as a number, and the exponent of the first of
them. -/
def significand (P : ℕ) (q : ℚ) : ℕ × ℤ :=
  let X := Int.log 10 q
  let n := (roundEven (q / 10 ^ (X + 1 - P))).toNat
  if n = 10 ^ P then (10 ^ (P - 1), X + 1) else (n, X)

/-- The `P` digits of `n`, the first of them at `10 ^ X`, laid out by `%g`. -/
def general (P n : ℕ) (X : ℤ) : Literal :=
  let ds := numeral 10 P n
  if -4 ≤ X ∧ X < P then
    if 0 ≤ X then ⟨ds.take (X.toNat + 1), stripZeros (ds.drop (X.toNat + 1)), none⟩
    else ⟨[0], stripZeros (List.replicate (-X - 1).toNat 0 ++ ds), none⟩
  else ⟨ds.take 1, stripZeros (ds.drop 1), some X⟩

variable {P n : ℕ} {X : ℤ} {q : ℚ}

theorem zpow_ten_pos (e : ℤ) : (0 : ℚ) < 10 ^ e := zpow_pos (by norm_num) e

theorem general_wellFormed (P n : ℕ) (X : ℤ) : (general P n X).WellFormed := by
  have htake (k : ℕ) : (numeral 10 P n).take (k + 1) ≠ [] := by
    intro h
    rcases List.take_eq_nil_iff.1 h with h | h
    · omega
    · exact numeral_ne_nil P n h
  have hlt : ∀ d ∈ numeral 10 P n, d < 10 := fun d hd => numeral_lt (by decide) hd
  unfold general
  dsimp only
  split_ifs with h h0
  · exact ⟨htake _, fun d hd => hlt d (List.mem_of_mem_take hd),
      fun d hd => hlt d (List.mem_of_mem_drop (mem_of_mem_stripZeros hd))⟩
  · refine ⟨List.cons_ne_nil _ _, fun d hd => ?_, fun d hd => ?_⟩
    · rw [List.mem_singleton.1 hd]
      decide
    · rcases List.mem_append.1 (mem_of_mem_stripZeros hd) with hd | hd
      · rw [List.eq_of_mem_replicate hd]
        decide
      · exact hlt d hd
  · exact ⟨htake 0, fun d hd => hlt d (List.mem_of_mem_take hd),
      fun d hd => hlt d (List.mem_of_mem_drop (mem_of_mem_stripZeros hd))⟩

/-- As many digits as the precision stand in front of the point at most. -/
theorem length_whole_general (hn : n < 10 ^ P) (hP : 1 ≤ P) :
    (general P n X).whole.length ≤ P := by
  have hlen : (numeral 10 P n).length = P := numeral_length (by decide) hP hn
  unfold general
  dsimp only
  split_ifs with h h0
  · rw [List.length_take, hlen]
    exact Nat.min_le_right _ _
  · exact hP
  · rw [List.length_take, hlen]
    exact Nat.min_le_right _ _

/-- **`%g` writes the number it was given.** -/
theorem value_general (hn : n < 10 ^ P) (hP : 1 ≤ P) :
    (general P n X).value = n * 10 ^ (X + 1 - P) := by
  have hlen : (numeral 10 P n).length = P := numeral_length (by decide) hP hn
  unfold general
  dsimp only
  split_ifs with h h0
  · rw [Literal.value_stripZeros, Literal.value]
    dsimp only
    rw [List.take_append_drop, ofNumeral_numeral, List.length_drop, hlen, Option.getD_none]
    congr 2
    omega
  · rw [Literal.value_stripZeros, Literal.value]
    dsimp only
    rw [ofNumeral_append, ofNumeral_append, ofNumeral_replicate, ofNumeral_numeral,
      List.length_append, List.length_replicate, hlen, Option.getD_none]
    have hzero : ofNumeral 10 [0] = 0 := rfl
    rw [hzero, Nat.zero_mul, Nat.zero_mul, Nat.zero_add, Nat.zero_add]
    congr 2
    push_cast
    omega
  · rw [Literal.value_stripZeros, Literal.value]
    dsimp only
    rw [List.take_append_drop, ofNumeral_numeral, List.length_drop, hlen, Option.getD_some]
    congr 2
    omega

/-- What `significand` rounds. -/
theorem scaled_bounds (hP : 1 ≤ P) (hq : 0 < q) :
    (10 : ℚ) ^ (P - 1) ≤ q / 10 ^ (Int.log 10 q + 1 - P) ∧
      q / 10 ^ (Int.log 10 q + 1 - P) < 10 ^ P := by
  have hlo := Int.zpow_log_le_self (b := 10) (by decide) hq
  have hhi := Int.lt_zpow_succ_log_self (b := 10) (by decide) q
  push_cast at hlo hhi
  rw [le_div_iff₀ (zpow_ten_pos _), div_lt_iff₀ (zpow_ten_pos _), ← zpow_natCast, ← zpow_natCast,
    ← zpow_add₀ (by norm_num), ← zpow_add₀ (by norm_num)]
  have h₁ : ((P - 1 : ℕ) : ℤ) + (Int.log 10 q + 1 - P) = Int.log 10 q := by omega
  have h₂ : (P : ℤ) + (Int.log 10 q + 1 - P) = Int.log 10 q + 1 := by omega
  rw [h₁, h₂]
  exact ⟨hlo, hhi⟩

/-- The rounded digits: between two powers of ten, the upper one included. -/
theorem roundEven_scaled_bounds (hP : 1 ≤ P) (hq : 0 < q) :
    0 ≤ roundEven (q / 10 ^ (Int.log 10 q + 1 - P)) ∧
      roundEven (q / 10 ^ (Int.log 10 q + 1 - P)) ≤ 10 ^ P := by
  obtain ⟨hlo, hhi⟩ := scaled_bounds hP hq
  have hround := abs_le.1 (abs_sub_roundEven_le (q / 10 ^ (Int.log 10 q + 1 - P)))
  constructor
  · have hpow : (1 : ℚ) ≤ 10 ^ (P - 1) := one_le_pow₀ (by norm_num)
    have hlt : (0 : ℚ) < (roundEven (q / 10 ^ (Int.log 10 q + 1 - P)) + 1 : ℤ) := by
      push_cast
      linarith
    have hlt' : 0 < roundEven (q / 10 ^ (Int.log 10 q + 1 - P)) + 1 := by exact_mod_cast hlt
    omega
  · have hlt : ((roundEven (q / 10 ^ (Int.log 10 q + 1 - P)) : ℤ) : ℚ) < (10 ^ P + 1 : ℤ) := by
      push_cast
      linarith
    have hlt' : roundEven (q / 10 ^ (Int.log 10 q + 1 - P)) < 10 ^ P + 1 := by exact_mod_cast hlt
    omega

/-- `significand` has `P` digits. -/
theorem significand_lt (hP : 1 ≤ P) (hq : 0 < q) : (significand P q).1 < 10 ^ P := by
  have hhi := (roundEven_scaled_bounds hP hq).2
  unfold significand
  dsimp only
  split_ifs with h
  · exact Nat.pow_lt_pow_right (by decide) (by omega)
  · refine lt_of_le_of_ne ?_ h
    exact Int.toNat_le.2 (by exact_mod_cast hhi)

/-- The number `significand` stands for, a carry into a new digit or not. -/
theorem value_significand (hP : 1 ≤ P) (hq : 0 < q) :
    ((significand P q).1 : ℚ) * 10 ^ ((significand P q).2 + 1 - P)
      = roundEven (q / 10 ^ (Int.log 10 q + 1 - P)) * 10 ^ (Int.log 10 q + 1 - P) := by
  have hcast : ((roundEven (q / 10 ^ (Int.log 10 q + 1 - P))).toNat : ℤ)
      = roundEven (q / 10 ^ (Int.log 10 q + 1 - P)) :=
    Int.toNat_of_nonneg (roundEven_scaled_bounds hP hq).1
  rw [← hcast]
  unfold significand
  dsimp only
  split_ifs with h
  · obtain ⟨k, rfl⟩ := Nat.exists_eq_add_of_le' hP
    rw [h, Nat.add_sub_cancel,
      show Int.log 10 q + 1 + 1 - ((k + 1 : ℕ) : ℤ) = (Int.log 10 q + 1 - (k + 1 : ℕ)) + 1 by ring,
      zpow_add_one₀ (by norm_num)]
    push_cast
    ring
  · rw [Int.cast_natCast]

/-- **`P` significant digits are within half a last digit** of the number. -/
theorem abs_sub_significand_le (hP : 1 ≤ P) (hq : 0 < q) :
    |((significand P q).1 : ℚ) * 10 ^ ((significand P q).2 + 1 - P) - q| ≤ 5 / 10 ^ P * q := by
  have hunit := zpow_ten_pos (Int.log 10 q + 1 - P)
  have hround := abs_sub_roundEven_le (q / 10 ^ (Int.log 10 q + 1 - P))
  have hlo := (scaled_bounds hP hq).1
  obtain ⟨k, rfl⟩ := Nat.exists_eq_add_of_le' hP
  rw [Nat.add_sub_cancel, le_div_iff₀ hunit] at hlo
  rw [value_significand hP hq, abs_sub_comm]
  have hsplit : q - roundEven (q / 10 ^ (Int.log 10 q + 1 - (k + 1 : ℕ)))
        * 10 ^ (Int.log 10 q + 1 - (k + 1 : ℕ))
      = (q / 10 ^ (Int.log 10 q + 1 - (k + 1 : ℕ))
          - roundEven (q / 10 ^ (Int.log 10 q + 1 - (k + 1 : ℕ))))
        * 10 ^ (Int.log 10 q + 1 - (k + 1 : ℕ)) := by
    rw [sub_mul, div_mul_cancel₀ _ hunit.ne']
  rw [hsplit, abs_mul, abs_of_pos hunit]
  calc _ ≤ 1 / 2 * (10 : ℚ) ^ (Int.log 10 q + 1 - (k + 1 : ℕ)) :=
        mul_le_mul_of_nonneg_right hround hunit.le
    _ = 5 / 10 ^ (k + 1) * (10 ^ k * 10 ^ (Int.log 10 q + 1 - (k + 1 : ℕ))) := by
        field_simp
        ring
    _ ≤ 5 / 10 ^ (k + 1) * q := mul_le_mul_of_nonneg_left hlo (by positivity)

end

end Lib
end Canforge
