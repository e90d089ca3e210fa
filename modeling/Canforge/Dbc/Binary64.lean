/-
# Printing numbers of 53 bits

`<<` of a stream prints a number with the `%g` of `Lib.general`, and `std::floor` of a number of 53
bits has 53 bits.  Seventeen significant digits are within half a last bit, so they read back as the
number they were printed from: the laws of `Printing` hold of these numbers (`printing64`).
-/

import Canforge.Dbc.Numerals
import Canforge.Lib.Decimal
import Canforge.Lib.Nearby

namespace Canforge
namespace Dbc

open Canforge.Core Text Lib

/-! ### Texts of literals -/

/-- The characters of digits. -/
def digitsText (ds : List ℕ) : Text := ds.map digitChar

theorem digitsText_isDigit {ds : List ℕ} (h : ∀ d ∈ ds, d < 10) :
    ∀ c ∈ digitsText ds, isDigit c = true := by
  intro c hc
  obtain ⟨d, hd, rfl⟩ := List.mem_map.1 hc
  exact (digit_digitChar (h d hd)).1

theorem decimalValue_digitsText {ds : List ℕ} (h : ∀ d ∈ ds, d < 10) :
    decimalValue (digitsText ds) = ofNumeral 10 ds := by
  rw [decimalValue, digitsText, List.map_map]
  congr 1
  refine (List.map_congr_left fun d hd => ?_).trans (List.map_id _)
  exact (digit_digitChar (h d hd)).2

/-- The sign of an exponent. -/
def exponentSign (X : ℤ) : Text := if X < 0 then [ch '-'] else [ch '+']

/-- The text of an exponent, two digits at least. -/
def exponentText : Option ℤ → Text
  | none => []
  | some X => ch 'e' :: (exponentSign X ++ digitsText (numeral 10 2 X.natAbs))

/-- The text of digits behind a point. -/
def fractionText (ds : List ℕ) : Text := if ds = [] then [] else ch '.' :: digitsText ds

/-- A literal as it is printed. -/
def numberText (l : Literal) (h : l.WellFormed) : NumberText where
  whole := digitsText l.whole
  fraction := fractionText l.fraction
  exponent := exponentText l.exponent
  whole_ne := by simpa [digitsText] using h.whole_ne_nil
  whole_digits := digitsText_isDigit h.whole_lt
  fraction_eq := by
    unfold fractionText
    split_ifs with hnil
    · exact .inl rfl
    · exact .inr ⟨_, rfl, by simpa [digitsText] using hnil, digitsText_isDigit h.fraction_lt⟩
  exponent_eq := by
    cases l.exponent with
    | none => exact .inl rfl
    | some X =>
      refine .inr ⟨_, _, rfl, ?_, ?_, ?_⟩
      · unfold exponentSign
        split_ifs
        · exact .inr (.inr rfl)
        · exact .inr (.inl rfl)
      · simpa [digitsText] using numeral_ne_nil 2 X.natAbs
      · exact digitsText_isDigit fun d hd => numeral_lt (by decide) hd

theorem takeWhile_isDigit {ds : List ℕ} (h : ∀ d ∈ ds, d < 10) {rest : Text}
    (hrest : ∀ c ∈ rest.head?, isDigit c = false) :
    (digitsText ds ++ rest).takeWhile isDigit = digitsText ds ∧
      (digitsText ds ++ rest).dropWhile isDigit = rest := by
  have hall := digitsText_isDigit h
  rw [List.takeWhile_append_of_pos hall, List.dropWhile_append_of_pos hall]
  cases rest with
  | nil => simp
  | cons c rest =>
    have hc := hrest c rfl
    simp [hc]

theorem head_exponentText (X : Option ℤ) : ∀ c ∈ (exponentText X).head?, c = ch 'e' := by
  cases X with
  | none => simp [exponentText]
  | some X => simp [exponentText]

theorem exponentValue_exponentText (X : Option ℤ) : exponentValue (exponentText X) = X.getD 0 := by
  cases X with
  | none => rfl
  | some X =>
    have hlt : ∀ d ∈ numeral 10 2 X.natAbs, d < 10 := fun d hd => numeral_lt (by decide) hd
    have htake : (digitsText (numeral 10 2 X.natAbs)).takeWhile isDigit =
        digitsText (numeral 10 2 X.natAbs) :=
      List.takeWhile_eq_self_iff.2 (digitsText_isDigit hlt)
    have hvalue : decimalValue (digitsText (numeral 10 2 X.natAbs)) = X.natAbs := by
      rw [decimalValue_digitsText hlt, ofNumeral_numeral]
    have htext : exponentText (some X) =
        ch 'e' :: (exponentSign X ++ digitsText (numeral 10 2 X.natAbs)) := rfl
    rw [htext, exponentSign, Option.getD_some]
    split_ifs with hneg
    · rw [List.cons_append, List.nil_append, exponentValue, if_pos (.inl rfl),
        if_pos rfl, htake, hvalue]
      omega
    · rw [List.cons_append, List.nil_append, exponentValue, if_pos (.inl rfl),
        if_neg (by decide), if_pos rfl, htake, hvalue]
      omega

/-- **The text of a literal writes its number.** -/
theorem literalValue_numberText (l : Literal) (h : l.WellFormed) :
    literalValue (numberText l h).text = l.value := by
  have hexponent : ∀ c ∈ (exponentText l.exponent).head?, isDigit c = false ∧ c ≠ ch '.' := by
    intro c hc
    rw [head_exponentText l.exponent c hc]
    decide
  have hbehind : ∀ c ∈ (fractionText l.fraction ++ exponentText l.exponent).head?,
      isDigit c = false := by
    unfold fractionText
    split_ifs with hnil
    · exact fun c hc => (hexponent c hc).1
    · intro c hc
      obtain rfl := Option.some.inj hc
      decide
  have hwhole := takeWhile_isDigit h.whole_lt hbehind
  have htext : (numberText l h).text =
      digitsText l.whole ++ (fractionText l.fraction ++ exponentText l.exponent) :=
    List.append_assoc _ _ _
  rw [htext, literalValue, hwhole.1, List.drop_left]
  by_cases hnil : l.fraction = []
  · have hhead : (exponentText l.exponent).head? ≠ some (ch '.') :=
      fun hc => (hexponent _ hc).2 rfl
    rw [fractionText, if_pos hnil, List.nil_append, if_neg hhead, if_neg hhead,
      exponentValue_exponentText, List.append_nil, decimalValue_digitsText h.whole_lt,
      Literal.value, hnil, List.append_nil]
    rfl
  · have hfraction := takeWhile_isDigit h.fraction_lt fun c hc => (hexponent c hc).1
    rw [fractionText, if_neg hnil, List.cons_append, List.head?_cons, if_pos rfl, if_pos rfl,
      List.drop_succ_cons, List.drop_zero, hfraction.1, hfraction.2, exponentValue_exponentText]
    have hall : ∀ d ∈ l.whole ++ l.fraction, d < 10 := by
      intro d hd
      rcases List.mem_append.1 hd with hd | hd
      · exact h.whole_lt d hd
      · exact h.fraction_lt d hd
    have hdigits : digitsText l.whole ++ digitsText l.fraction = digitsText (l.whole ++ l.fraction) :=
      List.map_append.symm
    rw [hdigits, decimalValue_digitsText hall, digitsText, List.length_map, Literal.value]

/-! ### Numbers of 53 bits -/

theorem hasBits_abs {p : ℕ} {q : ℚ} (h : HasBits p q) : HasBits p |q| := by
  rcases abs_choice q with hq | hq
  · rwa [hq]
  · rw [hq]
    exact h.neg

/-- The integer below a number of `p` bits has `p` bits. -/
theorem hasBits_floor {p : ℕ} {q : ℚ} (hp : 0 < p) (h : HasBits p q) : HasBits p (⌊q⌋ : ℤ) := by
  obtain ⟨m, e, hm, rfl⟩ := h
  rcases le_or_gt 0 e with he | he
  · -- an integer
    obtain ⟨k, rfl⟩ := Int.eq_ofNat_of_zero_le he
    have hint : (m : ℚ) * 2 ^ (k : ℤ) = ((m * 2 ^ k : ℤ) : ℚ) := by
      push_cast
      rw [zpow_natCast]
    rw [hint, Int.floor_intCast, ← hint]
    exact ⟨m, k, hm, rfl⟩
  · have hpos : (0 : ℚ) < 2 ^ e := zpow_pos two_pos e
    have hle : (2 : ℚ) ^ e ≤ 1 := zpow_le_one_of_nonpos₀ one_le_two he.le
    have habs : |(m : ℚ) * 2 ^ e| ≤ |(m : ℚ)| := by
      rw [abs_mul, abs_of_pos hpos]
      exact mul_le_of_le_one_right (abs_nonneg _) hle
    have hlow : -(2 ^ p : ℤ) ≤ ⌊(m : ℚ) * 2 ^ e⌋ := by
      refine Int.le_floor.2 ?_
      have hmq : |(m : ℚ)| < 2 ^ p := by exact_mod_cast hm
      push_cast
      linarith [neg_abs_le ((m : ℚ) * 2 ^ e)]
    have hhigh : ⌊(m : ℚ) * 2 ^ e⌋ < 2 ^ p := by
      refine Int.floor_lt.2 ?_
      have hmq : |(m : ℚ)| < 2 ^ p := by exact_mod_cast hm
      push_cast
      linarith [le_abs_self ((m : ℚ) * 2 ^ e)]
    rcases hlow.lt_or_eq with hlt | heq
    · exact hasBits_of_abs_lt (abs_lt.2 ⟨hlt, hhigh⟩)
    · refine ⟨-1, p, ?_, ?_⟩
      · rw [abs_neg, abs_one]
        exact one_lt_pow₀ one_lt_two hp.ne'
      · rw [← heq, zpow_natCast]
        push_cast
        ring

open Binary64 (round_val lit_val)

/-- `<<` of a positive number at a precision. -/
def positiveText (P : ℕ) (q : ℚ) : NumberText :=
  numberText (general P (significand P q).1 (significand P q).2) (general_wellFormed _ _ _)

/-- `<<` at a precision; a precision of zero is one. -/
def print (precision : ℕ) (q : ℚ) : Text :=
  if q = 0 then ascii "0"
  else if q < 0 then ch '-' :: (positiveText (max 1 precision) (-q)).text
  else (positiveText (max 1 precision) q).text

instance : Printed Binary64 where
  floor a := Binary64.round ⌊a.val⌋
  general precision a := print precision a.val

/-- What is printed of a positive number is close to it. -/
theorem abs_sub_positiveText_le {P : ℕ} {q : ℚ} (hP : 1 ≤ P) (hq : 0 < q) :
    |literalValue (positiveText P q).text - q| ≤ 5 / 10 ^ P * q := by
  rw [positiveText, literalValue_numberText, value_general (significand_lt hP hq) hP]
  exact abs_sub_significand_le hP hq

theorem length_whole_positiveText {P : ℕ} {q : ℚ} (hP : 1 ≤ P) (hq : 0 < q) :
    (positiveText P q).whole.length ≤ P := by
  have hlength := length_whole_general (X := (significand P q).2) (significand_lt hP hq) hP
  rwa [← List.length_map (f := digitChar)] at hlength

theorem strtod_text (n : NumberText) :
    (Scalar.strtod n.text : Binary64) = Binary64.round (literalValue n.text) := by
  have hhead := n.head_ne_minus
  cases htext : n.text with
  | nil => exact absurd (List.append_eq_nil_iff.1 (List.append_eq_nil_iff.1 htext).1).1 n.whole_ne
  | cons c rest =>
    rw [htext] at hhead
    exact if_neg (hhead c rfl)

theorem strtod_neg (n : NumberText) :
    (Scalar.strtod (ch '-' :: n.text) : Binary64) = Binary64.round (-literalValue n.text) := if_pos rfl

/-- Seventeen digits of a positive number read back. -/
theorem round_positiveText {q : ℚ} (hq : 0 < q) (hbits : HasBits 53 q) :
    roundBits 53 (literalValue (positiveText 17 q).text) = q :=
  roundBits_of_close (by decide) hbits hq (by norm_num) (abs_sub_positiveText_le (by decide) hq)

theorem round_seventeen (x : Binary64) : (Scalar.strtod (print 17 x.val) : Binary64).val = x.val := by
  have hmax : max 1 17 = 17 := rfl
  rw [print, hmax]
  split_ifs with hzero hneg
  · rw [hzero]
    have hliteral : literalValue (ascii "0") = 0 := by decide +kernel
    have hzero' : HasBits 53 0 := ⟨0, 0, by norm_num, by norm_num⟩
    have hstrtod : (Scalar.strtod (ascii "0") : Binary64) = Binary64.round 0 := by
      rw [← hliteral]
      rfl
    rw [hstrtod]
    exact round_val hzero'
  · rw [strtod_neg]
    have hround := round_positiveText (neg_pos.2 hneg) x.property.neg
    exact (roundBits_neg 53 _).trans (by rw [hround, neg_neg])
  · rw [strtod_text]
    exact round_positiveText (lt_of_le_of_ne (not_lt.1 hneg) (Ne.symm hzero)) x.property

/-- The number of digits alone. -/
theorem literalValue_of_digits {t : Text} (h : t.all isDigit = true) :
    literalValue t = decimalValue t := by
  have hall : t.takeWhile isDigit = t := List.takeWhile_eq_self_iff.2 (List.all_eq_true.1 h)
  rw [literalValue, hall, List.drop_length]
  simp [exponentValue]

/-- **The laws of printing hold of the numbers of 53 bits.** -/
def printing64 : Printing Binary64 where
  toDoubles := binary64
  finite _ := ⟨rfl, rfl⟩
  eq := by
    rintro x y q h
    obtain rfl := Option.some.inj h
    exact (decide_eq_true_iff (p := x.val = y.val)).trans (Option.some.injEq _ _).symm.to_iff
  zero := congrArg some (lit_val ⟨0, 0, by norm_num, by norm_num⟩)
  ofInt := by
    rintro z - h
    exact congrArg some (round_val h)
  floor := by
    rintro x q h
    obtain rfl := Option.some.inj h
    exact congrArg some (round_val (hasBits_floor (by decide) x.property))
  small := by
    rintro x q h
    obtain rfl := Option.some.inj h
    have hfabs : (Scalar.fabs x).val = |x.val| := round_val (hasBits_abs x.property)
    have hlit : (Scalar.lit (10 ^ 15) : Binary64).val = 10 ^ 15 := by
      have hbits : HasBits 53 ((10 ^ 15 : ℤ) : ℚ) := hasBits_of_abs_lt (by norm_num)
      exact lit_val (by exact_mod_cast hbits)
    refine (decide_eq_true_iff (p := (Scalar.fabs x).val < (Scalar.lit (10 ^ 15) : Binary64).val)).trans ?_
    rw [hfabs, hlit]
  general := by
    rintro x q precision h hne hone
    obtain rfl := Option.some.inj h
    have hmax : max 1 precision = precision := max_eq_right hone
    have hprint : Printed.general precision x = print precision x.val := rfl
    rw [hprint, print, hmax, if_neg hne]
    split_ifs with hneg
    · exact ⟨_, length_whole_positiveText hone (neg_pos.2 hneg), rfl⟩
    · exact ⟨_, length_whole_positiveText hone (lt_of_le_of_ne (not_lt.1 hneg) (Ne.symm hne)), rfl⟩
  general_congr := by
    rintro x y q precision h h' -
    have hsame : x = y := Subtype.ext (Option.some.inj (h.trans h'.symm))
    rw [hsame]
  seventeen := by
    rintro x q h
    obtain rfl := Option.some.inj h
    exact congrArg some (round_seventeen x)
  strtod_neg := by
    intro n
    have hneg : (Scalar.strtod (ch '-' :: n.text) : Binary64).val =
        -(Scalar.strtod n.text : Binary64).val := by
      rw [Dbc.strtod_neg, strtod_text]
      exact roundBits_neg 53 _
    exact congrArg some hneg
  strtod_digits := by
    rintro n hall -
    rw [strtod_text, literalValue_of_digits hall]
    rfl

end Dbc
end Canforge
