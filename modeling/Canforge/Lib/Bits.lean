/-
# Numbers as runs of bits

A run of bits is read as a number with its first bit least significant (`ofBits`), and
`toBits n v` are the `n` lowest bits of `v` in that order.  `wordBits` are the bits of a
fixed-width word.
-/

import Mathlib

namespace Canforge
namespace Lib

/-- The number a run of bits stands for, least significant bit first. -/
def ofBits : List Bool → ℕ
  | [] => 0
  | b :: bs => b.toNat + 2 * ofBits bs

/-- The `n` lowest bits of a number, least significant first. -/
def toBits : ℕ → ℕ → List Bool
  | 0, _ => []
  | n + 1, v => v.testBit 0 :: toBits n (v / 2)

/-- The bits of a word, least significant first. -/
def wordBits {w : ℕ} (v : BitVec w) : List Bool := (List.range w).map v.getLsbD

@[simp] theorem toBits_length (n v : ℕ) : (toBits n v).length = n := by
  induction n generalizing v with
  | zero => rfl
  | succ n ih => rw [toBits, List.length_cons, ih]

@[simp] theorem wordBits_length {w : ℕ} (v : BitVec w) : (wordBits v).length = w := by
  rw [wordBits, List.length_map, List.length_range]

/-- **The lowest bits of a number are its remainder.** -/
theorem ofBits_toBits (n v : ℕ) : ofBits (toBits n v) = v % 2 ^ n := by
  induction n generalizing v with
  | zero => rw [pow_zero, Nat.mod_one]; rfl
  | succ n ih =>
    have hbit : (v.testBit 0).toNat = v % 2 := by
      rw [Nat.testBit_zero]
      rcases Nat.mod_two_eq_zero_or_one v with h | h <;> simp [h]
    rw [toBits, ofBits, ih, hbit, pow_succ', Nat.mod_mul]

theorem ofBits_toBits_of_lt {n v : ℕ} (h : v < 2 ^ n) : ofBits (toBits n v) = v := by
  rw [ofBits_toBits, Nat.mod_eq_of_lt h]

/-- The bits of the number that some bits stand for. -/
theorem toBits_ofBits (bs : List Bool) : toBits bs.length (ofBits bs) = bs := by
  induction bs with
  | nil => rfl
  | cons b bs ih =>
    have hdiv : (b.toNat + 2 * ofBits bs) / 2 = ofBits bs := by
      have := b.toNat_le
      omega
    have hbit : (b.toNat + 2 * ofBits bs).testBit 0 = b := by
      rw [Nat.testBit_zero]
      cases b <;> simp
    rw [List.length_cons, ofBits, toBits, hbit, hdiv, ih]

theorem toBits_eq_map (n v : ℕ) : toBits n v = (List.range n).map v.testBit := by
  induction n generalizing v with
  | zero => rfl
  | succ n ih =>
    rw [toBits, ih, List.range_succ_eq_map, List.map_cons, List.map_map]
    exact congrArg _ (List.map_congr_left fun i _ => (Nat.testBit_succ v i).symm)

theorem wordBits_eq {w : ℕ} (v : BitVec w) : wordBits v = toBits w v.toNat :=
  (toBits_eq_map w v.toNat).symm

/-- The bits of a word stand for the word. -/
theorem ofBits_wordBits {w : ℕ} (v : BitVec w) : ofBits (wordBits v) = v.toNat := by
  rw [wordBits_eq, ofBits_toBits_of_lt v.isLt]

end Lib
end Canforge
