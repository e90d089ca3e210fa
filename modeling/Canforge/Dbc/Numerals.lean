/-
# Numbers that are written

A number is written as its digits behind a sign.  `numberOf` is what the parser makes of such a
text, and `readBack x` what it makes of what `format_number` writes of `x`.

`Printing` lists what the writer relies on of `double`, beside `Doubles`: seventeen significant
digits read back as the number they were printed from, and `%g` prints digits.  A finite number
is read back (`readBack_value`).
-/

import Canforge.Dbc.Integers
import Canforge.Dbc.Rules

namespace Canforge
namespace Dbc

open Canforge.Core Text Lib

/-! ### Digits -/

theorem isDigit_toDecimal (n : ℕ) : ∀ c ∈ toDecimal n, isDigit c = true := by
  intro c hc
  obtain ⟨d, hd, rfl⟩ := List.mem_map.1 hc
  exact (digit_digitChar (numeral_lt (by decide) hd)).1

theorem toDecimal_ne_nil (n : ℕ) : toDecimal n ≠ [] := by
  rw [toDecimal, Ne, List.map_eq_nil_iff]
  exact numeral_ne_nil 1 n

@[simp] theorem decimalValue_toDecimal (n : ℕ) : decimalValue (toDecimal n) = n := by
  rw [decimalValue, toDecimal, List.map_map]
  have hdigits : (numeral 10 1 n).map (digitVal ∘ digitChar) = numeral 10 1 n := by
    refine (List.map_congr_left fun d hd => ?_).trans (List.map_id _)
    exact (digit_digitChar (numeral_lt (by decide) hd)).2
  rw [hdigits, ofNumeral_numeral]

theorem decimalValue_lt {w : Text} (h : ∀ c ∈ w, isDigit c = true) :
    decimalValue w < 10 ^ w.length := by
  rw [decimalValue, ← List.length_map (f := digitVal)]
  refine ofNumeral_lt fun d hd => ?_
  obtain ⟨c, hc, rfl⟩ := List.mem_map.1 hd
  exact digitVal_lt (h c hc)

/-- The digits of a number, as the text of a number. -/
def NumberText.ofDecimal (n : ℕ) : NumberText where
  whole := toDecimal n
  fraction := []
  exponent := []
  whole_ne := toDecimal_ne_nil n
  whole_digits := isDigit_toDecimal n
  fraction_eq := .inl rfl
  exponent_eq := .inl rfl

@[simp] theorem NumberText.ofDecimal_text (n : ℕ) : (ofDecimal n).text = toDecimal n := by
  simp [NumberText.text, ofDecimal]

theorem all_isDigit_toDecimal (n : ℕ) : (toDecimal n).all isDigit = true := by
  simpa using isDigit_toDecimal n

/-- A number of 64 bits is read back. -/
theorem strtoull_toDecimal {n : ℕ} (h : n < 2 ^ 64) : strtoull (toDecimal n) = BitVec.ofNat 64 n := by
  rw [strtoull, decimalValue_toDecimal, Nat.min_eq_left (by omega)]

/-- A word of 32 bits is read back. -/
theorem strtoull_toDecimal_toNat (v : BitVec 32) :
    (strtoull (toDecimal v.toNat)).setWidth 32 = v := by
  rw [strtoull_toDecimal (by have := v.isLt; omega)]
  refine BitVec.eq_of_toNat_eq ?_
  have := v.isLt
  rw [BitVec.toNat_setWidth, BitVec.toNat_ofNat]
  omega

/-! ### Numbers -/

section

variable {R : Type} [Scalar R]

/-- What the lexer makes of an unsigned number. -/
def realOf (w : Text) : R :=
  if w.all isDigit then Scalar.ofNat (strtoull w).toNat else Scalar.strtod w

/-- What `parse_number` makes of the text of a number. -/
def numberOf (t : Text) : R :=
  match t with
  | [] => Scalar.lit 1 * realOf []
  | c :: rest =>
    if c = ch '-' then Scalar.lit (-1) * realOf rest else Scalar.lit 1 * realOf (c :: rest)

/-- A text that is a number behind a sign. -/
def SignedText (t : Text) : Prop := ∃ n : NumberText, t = n.text ∨ t = ch '-' :: n.text

theorem NumberText.head_ne_minus (n : NumberText) : ∀ c ∈ n.text.head?, c ≠ ch '-' := by
  obtain ⟨d, ds, hwhole⟩ := List.exists_cons_of_ne_nil n.whole_ne
  rintro c hc rfl
  have hd : isDigit d := n.whole_digits d (by simp [hwhole])
  have hfirst : n.text.head? = some d := by simp [NumberText.text, hwhole]
  rw [hfirst] at hc
  rw [Option.some.inj hc] at hd
  exact absurd hd (by decide)

theorem signedText_toSigned (z : ℤ) : SignedText (toSigned z) := by
  refine ⟨.ofDecimal z.natAbs, ?_⟩
  rw [NumberText.ofDecimal_text]
  unfold toSigned
  split_ifs
  · exact .inr rfl
  · exact .inl rfl

theorem numberOf_text (n : NumberText) : (numberOf n.text : R) = Scalar.lit 1 * realOf n.text := by
  have hhead := n.head_ne_minus
  cases htext : n.text with
  | nil => rfl
  | cons c rest =>
    rw [htext] at hhead
    exact if_neg (hhead c rfl)

theorem numberOf_neg (n : NumberText) :
    (numberOf (ch '-' :: n.text) : R) = Scalar.lit (-1) * realOf n.text := by
  rw [numberOf, if_pos rfl]

variable [Printed R]

/-- What is read where a number was written. -/
def readBack (x : R) : R := numberOf (formatNumber x)

/-- **What the writer relies on of `double`.** -/
structure Printing (R : Type) [Scalar R] [Printed R] extends Doubles R where
  /-- A number that has a value is finite. -/
  finite : ∀ {x : R} {q : ℚ}, value x = some q → Scalar.isNan x = false ∧ Scalar.isFinite x = true
  /-- `==` with a finite number. -/
  eq : ∀ {x y : R} {q : ℚ}, value y = some q → (Scalar.eq x y = true ↔ value x = some q)
  zero : value (Scalar.lit 0) = some 0
  /-- The conversion of `std::int64_t` keeps a number that is a double. -/
  ofInt : ∀ {z : ℤ}, z.natAbs ≤ 2 ^ 63 → HasBits 53 z → value (Scalar.ofInt z) = some (z : ℚ)
  /-- `std::floor`. -/
  floor : ∀ {x : R} {q : ℚ}, value x = some q → value (Printed.floor x) = some (⌊q⌋ : ℚ)
  /-- The comparison of `format_number`. -/
  small : ∀ {x : R} {q : ℚ}, value x = some q →
    (Scalar.lt (Scalar.fabs x) (Scalar.lit (10 ^ 15)) = true ↔ |q| < 10 ^ 15)
  /-- `<<` at a precision prints a number behind a sign, and as many digits in front of its point
  as the precision is at most. -/
  general : ∀ {x : R} {q : ℚ} {precision : ℕ}, value x = some q → q ≠ 0 → 1 ≤ precision →
    ∃ n : NumberText, n.whole.length ≤ precision ∧
      Printed.general precision x = if q < 0 then ch '-' :: n.text else n.text
  /-- What `<<` prints depends on the number alone; a zero has two texts. -/
  general_congr : ∀ {x y : R} {q : ℚ} (precision : ℕ), value x = some q → value y = some q → q ≠ 0 →
    Printed.general precision x = Printed.general precision y
  /-- Seventeen significant digits are enough. -/
  seventeen : ∀ {x : R} {q : ℚ}, value x = some q →
    value (Scalar.strtod (Printed.general 17 x)) = some q
  /-- `std::strtod` of a sign. -/
  strtod_neg : ∀ n : NumberText, value (Scalar.strtod (ch '-' :: n.text)) =
    (value (Scalar.strtod n.text)).map fun q => -q
  /-- `std::strtod` and the conversion of `std::uint64_t` both give the nearest number. -/
  strtod_digits : ∀ n : NumberText, n.text.all isDigit → decimalValue n.text < 2 ^ 64 →
    value (Scalar.strtod n.text) = value (Scalar.ofNat (decimalValue n.text) : R)

end

namespace Printing

variable {R : Type} [Scalar R] [Printed R] (D : Printing R) {x : R} {q : ℚ} {z : ℤ}

theorem neg_lit (y : R) : D.value (Scalar.lit (-1) * y) = (D.value y).map fun q => -q := D.sign true y

theorem pos_lit (y : R) : D.value (Scalar.lit 1 * y) = D.value y :=
  (D.sign false y).trans Option.map_id'

/-- The text of an integer is read as it. -/
theorem value_numberOf_toSigned (hz : z.natAbs ≤ 2 ^ 63) (hbits : HasBits 53 z) :
    D.value (numberOf (toSigned z) : R) = some (z : ℚ) := by
  have hdigits (n : ℕ) (hn : n ≤ 2 ^ 63) (hbits : HasBits 53 (n : ℤ)) :
      D.value (realOf (toDecimal n) : R) = some ((n : ℤ) : ℚ) := by
    have hlt : n < 2 ^ 64 := by omega
    rw [realOf, if_pos (all_isDigit_toDecimal n), strtoull_toDecimal hlt, BitVec.toNat_ofNat,
      Nat.mod_eq_of_lt hlt, Int.cast_natCast]
    exact D.ofNat hlt hbits
  unfold toSigned
  rw [← NumberText.ofDecimal_text]
  split_ifs with hneg
  · have hcast : ((z.natAbs : ℕ) : ℤ) = -z := Int.ofNat_natAbs_of_nonpos hneg.le
    have hvalue := hdigits z.natAbs hz (by rw [hcast]; simpa using hbits.neg)
    rw [numberOf_neg, D.neg_lit, NumberText.ofDecimal_text, hvalue, hcast]
    simp
  · have hcast : ((z.natAbs : ℕ) : ℤ) = z := Int.natAbs_of_nonneg (not_lt.1 hneg)
    have hvalue := hdigits z.natAbs hz (by rwa [hcast])
    rw [numberOf_text, D.pos_lit, NumberText.ofDecimal_text, hvalue, hcast]

/-- A text whose number `std::strtod` has checked is read by the parser as that number. -/
theorem value_numberOf {n : NumberText} {t : Text} (ht : t = n.text ∨ t = ch '-' :: n.text)
    (hwhole : n.whole.length ≤ 17) (h : D.value (Scalar.strtod t : R) = some q) :
    D.value (numberOf t : R) = some q := by
  have hreal : D.value (realOf n.text : R) = D.value (Scalar.strtod n.text : R) := by
    unfold realOf
    split_ifs with hall
    · have hlt : decimalValue n.text < 2 ^ 64 := by
        have hlength : n.text.length ≤ 17 := by
          have hnone := n.all_isDigit.symm.trans hall
          rw [Bool.and_eq_true, List.isEmpty_iff, List.isEmpty_iff] at hnone
          rw [NumberText.text, hnone.1, hnone.2, List.append_nil, List.append_nil]
          exact hwhole
        have hvalue := decimalValue_lt (List.all_eq_true.1 hall)
        exact hvalue.trans_le ((Nat.pow_le_pow_right (by decide) hlength).trans (by decide))
      rw [D.strtod_digits n hall hlt, strtoull, BitVec.toNat_ofNat]
      congr 2
      omega
    · rfl
  rcases ht with rfl | rfl
  · rw [numberOf_text, D.pos_lit, hreal, h]
  · rw [D.strtod_neg] at h
    rw [numberOf_neg, D.neg_lit, hreal, h]

variable {D}

/-- The integer that `format_number` writes as one. -/
theorem toInt_of_integral (h : D.value x = some q) (hint : Scalar.eq x (Printed.floor x) = true)
    (hsmall : Scalar.lt (Scalar.fabs x) (Scalar.lit (10 ^ 15)) = true) :
    ∃ z : ℤ, q = z ∧ |z| < 10 ^ 15 ∧ Scalar.toInt x = z := by
  have hfloor : q = ⌊q⌋ := Option.some.inj (h.symm.trans ((D.eq (D.floor h)).1 hint))
  have hlt : |⌊q⌋| < 10 ^ 15 := by
    have := (D.small h).1 hsmall
    rw [hfloor] at this
    exact_mod_cast this
  have habs := abs_lt.1 hlt
  refine ⟨⌊q⌋, hfloor, hlt, ?_⟩
  rw [D.toInt h, hfloor]
  · simp
  · rw [hfloor]
    have : (-2 ^ 63 : ℤ) ≤ ⌊q⌋ := by omega
    exact_mod_cast this
  · rw [hfloor]
    have : ⌊q⌋ < 2 ^ 63 := by omega
    exact_mod_cast this

/-- What `format_number` writes of a finite number: a text that `std::strtod` or the loop has
checked, or an integer. -/
theorem formatNumber_cases (h : D.value x = some q) :
    (∃ z : ℤ, q = z ∧ |z| < 10 ^ 15 ∧ formatNumber x = toSigned z) ∨
      ∃ n : NumberText, n.whole.length ≤ 17 ∧
        (formatNumber x = n.text ∨ formatNumber x = ch '-' :: n.text) ∧
        D.value (Scalar.strtod (formatNumber x) : R) = some q := by
  obtain ⟨hnan, hfinite⟩ := D.finite h
  unfold formatNumber
  rw [hnan, hfinite, if_neg Bool.false_ne_true, if_neg (by simp)]
  split_ifs with hint
  · rw [Bool.and_eq_true] at hint
    obtain ⟨z, hz, hlt, htoInt⟩ := toInt_of_integral h hint.1 hint.2
    exact .inl ⟨z, hz, hlt, by rw [htoInt]⟩
  · right
    have hne : q ≠ 0 := by
      rintro rfl
      refine hint (Bool.and_eq_true_iff.2 ⟨(D.eq (D.floor h)).2 (by simpa using h), ?_⟩)
      exact (D.small h).2 (by norm_num)
    have hgeneral (precision : ℕ) (hone : 1 ≤ precision) (hle : precision ≤ 17) :
        ∃ n : NumberText, n.whole.length ≤ 17 ∧
          (Printed.general precision x = n.text ∨ Printed.general precision x = ch '-' :: n.text) := by
      obtain ⟨n, hwhole, heq⟩ := D.general h hne hone
      refine ⟨n, hwhole.trans hle, ?_⟩
      rw [heq]
      split_ifs
      · exact .inr rfl
      · exact .inl rfl
    cases hshortest : shortestText x with
    | none =>
      obtain ⟨n, hwhole, heq⟩ := hgeneral 17 (by decide) le_rfl
      exact ⟨n, hwhole, heq, D.seventeen h⟩
    | some t =>
      have hreads := List.find?_some hshortest
      have hmem := List.mem_of_find?_eq_some hshortest
      obtain ⟨i, hi, rfl⟩ := List.mem_map.1 hmem
      have hlt := List.mem_range.1 hi
      obtain ⟨n, hwhole, heq⟩ := hgeneral (6 + i) (by omega) (by omega)
      exact ⟨n, hwhole, heq, (D.eq h).1 hreads⟩

theorem hasBits_of_small (hz : |z| < 10 ^ 15) : HasBits 53 z :=
  hasBits_of_abs_lt (hz.trans (by norm_num))

/-- **A finite number is read back.** -/
theorem readBack_value (h : D.value x = some q) : D.value (readBack x) = some q := by
  unfold readBack
  rcases formatNumber_cases h with ⟨z, rfl, hlt, heq⟩ | ⟨n, hwhole, heq, hreads⟩
  · rw [heq]
    have habs := abs_lt.1 hlt
    exact D.value_numberOf_toSigned (by omega) (hasBits_of_small hlt)
  · exact D.value_numberOf heq hwhole hreads

/-- What is written of it is a number behind a sign. -/
theorem signedText_formatNumber (h : D.value x = some q) : SignedText (formatNumber x) := by
  rcases formatNumber_cases h with ⟨z, -, -, heq⟩ | ⟨n, -, heq, -⟩
  · rw [heq]
    exact signedText_toSigned z
  · exact ⟨n, heq⟩

/-- **What is written of a number depends on the number alone.** -/
theorem formatNumber_congr {y : R} (hx : D.value x = some q) (hy : D.value y = some q) :
    formatNumber x = formatNumber y := by
  obtain ⟨hxNan, hxFinite⟩ := D.finite hx
  obtain ⟨hyNan, hyFinite⟩ := D.finite hy
  have hfloor : Scalar.eq x (Printed.floor x) = Scalar.eq y (Printed.floor y) := by
    rw [Bool.eq_iff_iff, D.eq (D.floor hx), D.eq (D.floor hy), hx, hy]
  have hsmall : Scalar.lt (Scalar.fabs x) (Scalar.lit (10 ^ 15)) =
      Scalar.lt (Scalar.fabs y) (Scalar.lit (10 ^ 15)) := by
    rw [Bool.eq_iff_iff, D.small hx, D.small hy]
  unfold formatNumber
  have hnot : ¬((!true) = true) := by decide
  rw [hxNan, hxFinite, hyNan, hyFinite, hfloor, hsmall, if_neg Bool.false_ne_true,
    if_neg Bool.false_ne_true, if_neg hnot, if_neg hnot]
  split_ifs with hint
  · have hint' := hint
    rw [← hfloor, ← hsmall] at hint'
    rw [Bool.and_eq_true] at hint hint'
    obtain ⟨z, hz, -, htoInt⟩ := toInt_of_integral hx hint'.1 hint'.2
    obtain ⟨z', hz', -, htoInt'⟩ := toInt_of_integral hy hint.1 hint.2
    have hsame : z = z' := by exact_mod_cast hz.symm.trans hz'
    rw [htoInt, htoInt', hsame]
  · have hne : q ≠ 0 := by
      rintro rfl
      refine hint (Bool.and_eq_true_iff.2 ⟨(D.eq (D.floor hy)).2 (by simpa using hy), ?_⟩)
      exact (D.small hy).2 (by norm_num)
    have htexts : (List.range 12).map (fun i => Printed.general (6 + i) x) =
        (List.range 12).map fun i => Printed.general (6 + i) y :=
      List.map_congr_left fun i _ => D.general_congr (6 + i) hx hy hne
    have hreads (t : Text) : Scalar.eq (Scalar.strtod t) x = Scalar.eq (Scalar.strtod t) y := by
      rw [Bool.eq_iff_iff, D.eq hx, D.eq hy]
    have hshortest : shortestText x = shortestText y := by
      unfold shortestText
      rw [htexts]
      simp only [hreads]
    rw [hshortest, D.general_congr 17 hx hy hne]

end Printing

end Dbc
end Canforge
