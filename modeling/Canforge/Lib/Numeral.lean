/-
# Numbers written in digits

`numeral b width n` are the digits of `n` in base `b`, most significant first
and filled up with zeros to at least `width` of them; `ofNumeral b` is the
number some digits stand for.  Reading gives back what was written
(`ofNumeral_numeral`), and a number that fits its width has exactly that many
digits (`numeral_length`).
-/

import Mathlib

namespace Canforge
namespace Lib

variable {b : ℕ}

/-- The number some digits stand for, most significant first. -/
def ofNumeral (b : ℕ) (digits : List ℕ) : ℕ := digits.foldl (fun n d => n * b + d) 0

/-- The digits of a number, `0` for zero. -/
def shortNumeral (b n : ℕ) : List ℕ := if n = 0 then [0] else (b.digits n).reverse

/-- The digits of a number, filled up with zeros. -/
def numeral (b width n : ℕ) : List ℕ :=
  List.replicate (width - (shortNumeral b n).length) 0 ++ shortNumeral b n

theorem foldl_digits (m : ℕ) (digits : List ℕ) :
    digits.foldl (fun n d => n * b + d) m = m * b ^ digits.length + ofNumeral b digits := by
  induction digits generalizing m with
  | nil => simp [ofNumeral]
  | cons d digits ih =>
    have hcons : ofNumeral b (d :: digits) = d * b ^ digits.length + ofNumeral b digits := by
      rw [ofNumeral, List.foldl_cons, ih, Nat.zero_mul, Nat.zero_add]
    rw [List.foldl_cons, ih, hcons, List.length_cons, pow_succ]
    ring

theorem ofNumeral_append (ds ds' : List ℕ) :
    ofNumeral b (ds ++ ds') = ofNumeral b ds * b ^ ds'.length + ofNumeral b ds' := by
  rw [ofNumeral, List.foldl_append, foldl_digits]
  rfl

theorem ofNumeral_cons (d : ℕ) (ds : List ℕ) :
    ofNumeral b (d :: ds) = d * b ^ ds.length + ofNumeral b ds := by
  rw [ofNumeral, List.foldl_cons, foldl_digits, Nat.zero_mul, Nat.zero_add]

/-- Digits stand for less than a power of the base. -/
theorem ofNumeral_lt {ds : List ℕ} (h : ∀ d ∈ ds, d < b) : ofNumeral b ds < b ^ ds.length := by
  induction ds with
  | nil => simp [ofNumeral]
  | cons d ds ih =>
    have hd := h d List.mem_cons_self
    have hrest := ih fun e he => h e (List.mem_cons_of_mem _ he)
    rw [ofNumeral_cons, List.length_cons, pow_succ]
    calc d * b ^ ds.length + ofNumeral b ds < d * b ^ ds.length + b ^ ds.length :=
          Nat.add_lt_add_left hrest _
      _ = (d + 1) * b ^ ds.length := (Nat.succ_mul _ _).symm
      _ ≤ b ^ ds.length * b := by
        rw [Nat.mul_comm]
        exact Nat.mul_le_mul_left _ hd

theorem ofNumeral_replicate (k : ℕ) : ofNumeral b (List.replicate k 0) = 0 := by
  induction k with
  | zero => rfl
  | succ k ih => rw [List.replicate_succ, ofNumeral_cons, ih, Nat.zero_mul]

theorem ofNumeral_shortNumeral (n : ℕ) : ofNumeral b (shortNumeral b n) = n := by
  unfold shortNumeral
  split_ifs with h
  · simp [ofNumeral, h]
  · rw [ofNumeral, List.foldl_reverse]
    refine Eq.trans ?_ (Nat.ofDigits_digits b n)
    rw [Nat.ofDigits_eq_foldr]
    congr 1
    funext d m
    rw [Nat.add_comm, Nat.mul_comm]
    rfl

/-- **What was written is read.** -/
theorem ofNumeral_numeral (width n : ℕ) : ofNumeral b (numeral b width n) = n := by
  rw [numeral, ofNumeral_append, ofNumeral_replicate, ofNumeral_shortNumeral, Nat.zero_mul,
    Nat.zero_add]

theorem shortNumeral_ne_nil (n : ℕ) : shortNumeral b n ≠ [] := by
  unfold shortNumeral
  split_ifs with h
  · simp
  · simpa using Nat.digits_ne_nil_iff_ne_zero.2 h

theorem numeral_ne_nil (width n : ℕ) : numeral b width n ≠ [] :=
  List.append_ne_nil_of_right_ne_nil _ (shortNumeral_ne_nil n)

/-- The digits of a base are below it. -/
theorem numeral_lt (hb : 1 < b) {width n d : ℕ} (hd : d ∈ numeral b width n) : d < b := by
  rcases List.mem_append.1 hd with hd | hd
  · rw [List.eq_of_mem_replicate hd]
    omega
  · unfold shortNumeral at hd
    split_ifs at hd with h
    · rw [List.mem_singleton.1 hd]
      omega
    · exact Nat.digits_lt_base hb (List.mem_reverse.1 hd)

theorem shortNumeral_length_le (hb : 1 < b) {k n : ℕ} (hk : 0 < k) (hn : n < b ^ k) :
    (shortNumeral b n).length ≤ k := by
  unfold shortNumeral
  split_ifs
  · exact hk
  · rw [List.length_reverse]
    exact (Nat.digits_length_le_iff hb n).2 hn

/-- A number that fits has as many digits as the width says. -/
theorem numeral_length (hb : 1 < b) {width n : ℕ} (hw : 0 < width) (hn : n < b ^ width) :
    (numeral b width n).length = width := by
  have hle := shortNumeral_length_le hb hw hn
  rw [numeral, List.length_append, List.length_replicate]
  omega

theorem numeral_length_le (hb : 1 < b) {width k n : ℕ} (hw : width ≤ k) (hk : 0 < k)
    (hn : n < b ^ k) : (numeral b width n).length ≤ k := by
  have hle := shortNumeral_length_le hb hk hn
  rw [numeral, List.length_append, List.length_replicate]
  omega

end Lib
end Canforge
