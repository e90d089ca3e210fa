/-
# Time stamps written in seconds

`parse_seconds_to_ns` reads digits, and behind a point any number of digits
more (`isSeconds`).  The digits before the point are accumulated modulo `2^64`
(`wholeFrom_eq`), those behind it against a scale that runs down to zero
(`fractionFrom_eq`), so that what comes out is the number of nanoseconds modulo
`2^64` (`parseSecondsToNs_eq`).  Nothing checks that they fit: the result is the
number written exactly when they do.
-/

import Canforge.Core.Scalar
import Canforge.Transport.LogFormat

namespace Canforge
namespace Transport

open Canforge.Core
open Lib (ofNumeral)

/-- A decimal number: one digit or more, and any digits behind a point. -/
def isSeconds (text : Text) : Bool :=
  !(text.takeWhile isDigit).isEmpty &&
    match text.dropWhile isDigit with
    | [] => true
    | point :: fraction => point == ch '.' && fraction.all isDigit

/-- The nanoseconds of a decimal number of seconds, those begun not counted. -/
def nanoseconds (text : Text) : ℕ := ⌊(10 ^ 9 : ℚ) * decimal text⌋₊

/-- The number of some digits. -/
def digitsValue (digits : Text) : ℕ := ofNumeral 10 (digits.map digitVal)

theorem digitsValue_cons (c : Byte) (digits : Text) :
    digitsValue (c :: digits) = digitVal c * 10 ^ digits.length + digitsValue digits := by
  rw [digitsValue, List.map_cons, Lib.ofNumeral_cons, List.length_map]
  rfl

theorem digitsValue_lt {digits : Text} (h : digits.all isDigit = true) :
    digitsValue digits < 10 ^ digits.length := by
  induction digits with
  | nil => exact Nat.one_pos
  | cons c digits ih =>
    rw [List.all_cons, Bool.and_eq_true] at h
    have hc := digitVal_lt h.1
    have hrest := ih h.2
    have hpos := pow_pos (by decide : 0 < 10) digits.length
    rw [digitsValue_cons, List.length_cons, pow_succ]
    calc digitVal c * 10 ^ digits.length + digitsValue digits
        < digitVal c * 10 ^ digits.length + 10 ^ digits.length := by omega
      _ = (digitVal c + 1) * 10 ^ digits.length := by ring
      _ ≤ 10 * 10 ^ digits.length := Nat.mul_le_mul_right _ hc
      _ = 10 ^ digits.length * 10 := Nat.mul_comm _ _

theorem all_takeWhile (text : Text) : (text.takeWhile isDigit).all isDigit = true :=
  List.all_eq_true.2 fun _ hc => List.mem_takeWhile_imp hc

/-- **The whole seconds**: the digits before the point, modulo `2^64`. -/
theorem wholeFrom_eq (m : ℕ) (text : Text) :
    wholeFrom (m % 2 ^ 64) text =
      ((m * 10 ^ (text.takeWhile isDigit).length + digitsValue (text.takeWhile isDigit)) % 2 ^ 64,
        text.dropWhile isDigit) := by
  induction text generalizing m with
  | nil => simp [wholeFrom, digitsValue, ofNumeral]
  | cons c text ih =>
    by_cases hc : isDigit c = true
    · have hstep : ((m % 2 ^ 64) * 10 + digitVal c) % 2 ^ 64 = (m * 10 + digitVal c) % 2 ^ 64 := by
        omega
      rw [wholeFrom, if_pos hc, hstep, ih, List.takeWhile_cons_of_pos hc,
        List.dropWhile_cons_of_pos hc, digitsValue_cons, List.length_cons, pow_succ]
      congr 2
      ring
    · rw [wholeFrom, if_neg hc, List.takeWhile_cons_of_neg hc, List.dropWhile_cons_of_neg hc]
      simp [digitsValue, ofNumeral]

/-- **The fraction**: the digits behind the point, cut to the scale that is left. -/
theorem fractionFrom_eq (k fraction : ℕ) (text : Text) :
    fractionFrom (10 ^ k / 10) fraction text =
      (fraction +
        digitsValue (text.takeWhile isDigit) * 10 ^ k / 10 ^ (text.takeWhile isDigit).length,
        text.dropWhile isDigit) := by
  induction text generalizing k fraction with
  | nil => simp [fractionFrom, digitsValue, ofNumeral]
  | cons c text ih =>
    by_cases hc : isDigit c = true
    · rw [fractionFrom, if_pos hc, List.takeWhile_cons_of_pos hc, List.dropWhile_cons_of_pos hc]
      cases k with
      | zero =>
        -- the scale has run out: what is left of the digits is less than a nanosecond
        have hlt := digitsValue_lt (all_takeWhile text)
        have hall : (c :: text.takeWhile isDigit).all isDigit = true := by
          rw [List.all_cons, hc, all_takeWhile, Bool.true_and]
        have hzero := ih 0 fraction
        rw [pow_zero, Nat.mul_one, Nat.div_eq_of_lt hlt] at hzero
        rw [pow_zero, Nat.mul_one, Nat.div_eq_of_lt (digitsValue_lt hall)]
        simpa using hzero
      | succ k =>
        have hpos := pow_pos (by decide : 0 < 10) (text.takeWhile isDigit).length
        have hsplit : digitsValue (c :: text.takeWhile isDigit) * 10 ^ (k + 1) /
              10 ^ (c :: text.takeWhile isDigit).length =
            digitVal c * 10 ^ k +
              digitsValue (text.takeWhile isDigit) * 10 ^ k /
                10 ^ (text.takeWhile isDigit).length := by
          rw [digitsValue_cons, List.length_cons, pow_succ, pow_succ, ← Nat.mul_assoc,
            Nat.mul_div_mul_right _ _ (by decide), Nat.add_mul, Nat.add_comm,
            Nat.mul_right_comm, Nat.add_mul_div_right _ _ hpos, Nat.add_comm]
        rw [hsplit, pow_succ, Nat.mul_div_cancel _ (by decide : 0 < 10), ih, Nat.add_assoc]
    · rw [fractionFrom, if_neg hc, List.takeWhile_cons_of_neg hc, List.dropWhile_cons_of_neg hc]
      simp [digitsValue, ofNumeral]

/-! ### The number written -/

theorem foldl_digitsValue (digits : Text) :
    digits.foldl (fun n c => 10 * n + digitVal c) 0 = digitsValue digits := by
  rw [digitsValue, ofNumeral, List.foldl_map]
  congr 1
  funext n c
  rw [Nat.mul_comm]

/-- The nanoseconds of whole seconds and a fraction. -/
theorem floor_seconds (whole fraction k : ℕ) :
    ⌊(10 ^ 9 : ℚ) * (whole + fraction / 10 ^ k)⌋₊ = whole * 10 ^ 9 + fraction * 10 ^ 9 / 10 ^ k := by
  have hsum : (10 ^ 9 : ℚ) * (whole + fraction / 10 ^ k) =
      ((fraction * 10 ^ 9 : ℕ) : ℚ) / ((10 ^ k : ℕ) : ℚ) + ((whole * 10 ^ 9 : ℕ) : ℚ) := by
    push_cast
    ring
  rw [hsum, Nat.floor_add_natCast (by positivity), Nat.floor_div_eq_div, Nat.add_comm]

theorem nanoseconds_whole {text : Text} (h : text.dropWhile isDigit = []) :
    nanoseconds text = digitsValue (text.takeWhile isDigit) * 10 ^ 9 := by
  have hfloor := floor_seconds (digitsValue (text.takeWhile isDigit)) 0 0
  rw [nanoseconds, decimal, h]
  simpa [foldl_digitsValue] using hfloor

theorem nanoseconds_fraction {text fraction : Text}
    (h : text.dropWhile isDigit = ch '.' :: fraction) :
    nanoseconds text = digitsValue (text.takeWhile isDigit) * 10 ^ 9 +
      digitsValue (fraction.takeWhile isDigit) * 10 ^ 9 / 10 ^ (fraction.takeWhile isDigit).length := by
  rw [nanoseconds, decimal, h]
  simp only [foldl_digitsValue, if_true]
  exact floor_seconds _ _ _

/-! ### The result -/

theorem length_dropWhile_eq {text : Text} :
    (text.dropWhile isDigit).length = text.length ↔ text.takeWhile isDigit = [] := by
  have hsplit := congrArg List.length (List.takeWhile_append_dropWhile (p := isDigit) (l := text))
  rw [List.length_append] at hsplit
  rw [← List.length_eq_zero_iff]
  omega

theorem all_iff_dropWhile {text : Text} : text.all isDigit = true ↔ text.dropWhile isDigit = [] := by
  rw [List.all_eq_true, List.dropWhile_eq_nil_iff]

/-- Whole seconds that have wrapped already give the same nanoseconds. -/
theorem mod_whole (whole fraction : ℕ) :
    (whole % 2 ^ 64 * 1000000000 + fraction) % 2 ^ 64 = (whole * 10 ^ 9 + fraction) % 2 ^ 64 := by
  omega

/-- **`parse_seconds_to_ns` gives the nanoseconds modulo `2^64`**, of a decimal number and of
nothing else. -/
theorem parseSecondsToNs_eq (text : Text) :
    parseSecondsToNs text =
      if isSeconds text then some (nanoseconds text % 2 ^ 64) else none := by
  have hwhole := wholeFrom_eq 0 text
  rw [Nat.zero_mod, Nat.zero_mul, Nat.zero_add] at hwhole
  rw [parseSecondsToNs, hwhole, isSeconds]
  by_cases hempty : text.takeWhile isDigit = []
  · rw [hempty]
    exact if_pos (length_dropWhile_eq.2 hempty)
  have hlen : (text.dropWhile isDigit).length ≠ text.length := fun h =>
    hempty (length_dropWhile_eq.1 h)
  have hne : (text.takeWhile isDigit).isEmpty = false := by simpa using hempty
  dsimp only
  rw [if_neg hlen, hne, Bool.not_false, Bool.true_and]
  cases hrest : text.dropWhile isDigit with
  | nil =>
    rw [nanoseconds_whole hrest, if_neg (not_not_intro rfl), if_pos rfl, mod_whole,
      Nat.add_zero]
  | cons point fraction =>
    by_cases hpoint : point = ch '.'
    · subst hpoint
      have hscale := fractionFrom_eq 9 0 fraction
      rw [show 10 ^ 9 / 10 = 100000000 by norm_num, Nat.zero_add] at hscale
      simp only [if_true, hscale, beq_self_eq_true, Bool.true_and]
      by_cases hall : fraction.all isDigit = true
      · rw [nanoseconds_fraction hrest, all_iff_dropWhile.1 hall, if_neg (not_not_intro rfl),
          if_pos hall, mod_whole]
      · have hleft : fraction.dropWhile isDigit ≠ [] := fun h => hall (all_iff_dropWhile.2 h)
        rw [if_pos hleft, if_neg hall]
    · simp [hpoint]

/-- **A time stamp is exact where its nanoseconds fit 64 bits.**  The reader gives the number
written, and refuses what does not fit, for the texts whose nanoseconds fit and for those that
are no decimal number: on every other text it gives a wrong time. -/
theorem parseSecondsToNs_exact_iff (text : Text) :
    ((∀ ns, parseSecondsToNs text = some ns → ns = nanoseconds text) ∧
        (isSeconds text = true → 2 ^ 64 ≤ nanoseconds text → parseSecondsToNs text = none)) ↔
      (isSeconds text = true → nanoseconds text < 2 ^ 64) := by
  rw [parseSecondsToNs_eq]
  constructor
  · rintro ⟨-, hrefuse⟩ htext
    by_contra hfit
    have hnone := hrefuse htext (by omega)
    rw [if_pos htext] at hnone
    exact absurd hnone (Option.some_ne_none _)
  · intro hfits
    constructor
    · intro ns hns
      split_ifs at hns with htext
      rw [← Option.some.inj hns, Nat.mod_eq_of_lt (hfits htext)]
    · intro htext hbig
      exact absurd (hfits htext) (by omega)

/-- A time in the year 2554 does not fit and comes out within the first second of 1970. -/
theorem parseSecondsToNs_wraps :
    isSeconds (ascii "18446744074") = true ∧ 2 ^ 64 ≤ nanoseconds (ascii "18446744074") ∧
      parseSecondsToNs (ascii "18446744074") = some 290448384 := by
  refine ⟨by decide, ?_, by decide +kernel⟩
  rw [nanoseconds_whole (by decide)]
  decide +kernel

end Transport
end Canforge
