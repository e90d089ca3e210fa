/-
# The first difference of two bit strings

On a bus where a `0` overwrites a `1`, of two senders that start together the
one with a `0` at their first difference survives (`Dominates`).  On strings of
one length that is the order of the numbers they stand for, most significant bit
first (`dominates_msbBits`), and a common length in front compares first
(`dominates_append`).
-/

import Mathlib

namespace Canforge
namespace Lib

/-- `xs` has a `0` where it first differs from `ys`. -/
def Dominates (xs ys : List Bool) : Prop :=
  ∃ shared xs' ys', xs = shared ++ false :: xs' ∧ ys = shared ++ true :: ys'

theorem not_dominates_nil_left (ys : List Bool) : ¬ Dominates [] ys := by
  rintro ⟨shared, xs', -, h, -⟩
  cases shared <;> cases h

/-- **The first bits decide, or the rest does.** -/
theorem dominates_cons {x y : Bool} {xs ys : List Bool} :
    Dominates (x :: xs) (y :: ys) ↔ x < y ∨ x = y ∧ Dominates xs ys := by
  constructor
  · rintro ⟨shared, xs', ys', hx, hy⟩
    cases shared with
    | nil =>
      obtain ⟨rfl, -⟩ := List.cons.inj hx
      obtain ⟨rfl, -⟩ := List.cons.inj hy
      exact .inl (by decide)
    | cons b shared =>
      obtain ⟨rfl, rfl⟩ := List.cons.inj hx
      obtain ⟨rfl, rfl⟩ := List.cons.inj hy
      exact .inr ⟨rfl, shared, xs', ys', rfl, rfl⟩
  · rintro (hlt | ⟨rfl, shared, xs', ys', rfl, rfl⟩)
    · obtain ⟨rfl, rfl⟩ := Bool.lt_iff.1 hlt
      exact ⟨[], xs, ys, rfl, rfl⟩
    · exact ⟨x :: shared, xs', ys', rfl, rfl⟩

theorem dominates_append {xs ys xs' ys' : List Bool} (hl : xs.length = ys.length) :
    Dominates (xs ++ xs') (ys ++ ys') ↔ Dominates xs ys ∨ xs = ys ∧ Dominates xs' ys' := by
  induction xs generalizing ys with
  | nil =>
    obtain rfl := List.length_eq_zero_iff.1 hl.symm
    simp [not_dominates_nil_left]
  | cons x xs ih =>
    obtain ⟨y, ys, rfl⟩ := List.exists_cons_of_length_eq_add_one hl.symm
    rw [List.cons_append, List.cons_append, dominates_cons, dominates_cons,
      ih (Nat.succ.inj hl), List.cons_eq_cons]
    tauto

/-- The `w` lowest bits of a number, most significant first. -/
def msbBits : ℕ → ℕ → List Bool
  | 0, _ => []
  | w + 1, v => v.testBit w :: msbBits w v

@[simp] theorem msbBits_length (w v : ℕ) : (msbBits w v).length = w := by
  induction w with
  | zero => rfl
  | succ w ih => rw [msbBits, List.length_cons, ih]

/-- A remainder by the next power of two, by its highest bit. -/
theorem mod_two_pow_succ_eq (v w : ℕ) :
    v % 2 ^ (w + 1) = (v.testBit w).toNat * 2 ^ w + v % 2 ^ w := by
  rw [Nat.mod_pow_succ, Nat.testBit_eq_decide_div_mod_eq]
  rcases Nat.mod_two_eq_zero_or_one (v / 2 ^ w) with h | h <;> simp [h, Nat.add_comm]

/-- Two numbers below a power of two, each under a highest bit of its own. -/
theorem toNat_mul_add_lt_iff {x y : Bool} {k m n : ℕ} (hm : m < k) (hn : n < k) :
    x.toNat * k + m < y.toNat * k + n ↔ x < y ∨ x = y ∧ m < n := by
  cases x <;> cases y <;> simp [Bool.lt_iff] <;> omega

theorem toNat_mul_add_inj {x y : Bool} {k m n : ℕ} (hm : m < k) (hn : n < k) :
    x.toNat * k + m = y.toNat * k + n ↔ x = y ∧ m = n := by
  cases x <;> cases y <;> simp <;> omega

theorem msbBits_inj {w a b : ℕ} : msbBits w a = msbBits w b ↔ a % 2 ^ w = b % 2 ^ w := by
  induction w with
  | zero => simp [msbBits, Nat.mod_one]
  | succ w ih =>
    have ha := Nat.mod_lt a (Nat.two_pow_pos w)
    have hb := Nat.mod_lt b (Nat.two_pow_pos w)
    rw [msbBits, msbBits, List.cons_eq_cons, ih, mod_two_pow_succ_eq, mod_two_pow_succ_eq,
      toNat_mul_add_inj ha hb]

/-- **Dominance is the order of the numbers.** -/
theorem dominates_msbBits {w a b : ℕ} :
    Dominates (msbBits w a) (msbBits w b) ↔ a % 2 ^ w < b % 2 ^ w := by
  induction w with
  | zero => simp [msbBits, not_dominates_nil_left, Nat.mod_one]
  | succ w ih =>
    have ha := Nat.mod_lt a (Nat.two_pow_pos w)
    have hb := Nat.mod_lt b (Nat.two_pow_pos w)
    rw [msbBits, msbBits, dominates_cons, ih, mod_two_pow_succ_eq, mod_two_pow_succ_eq,
      toNat_mul_add_lt_iff ha hb]

end Lib
end Canforge
