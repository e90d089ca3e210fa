/-
# Bit stuffing

A sender that stuffs bits inserts the complement after `w` equal bits of its output, the inserted
ones included.  A run that fills up costs `w - 1` bits of the input, as it begins with the bit
inserted before it, so `n` bits get at most `(n - 1) / (w - 1)` more (`stuffed_length_le`).  Bits
that always go on with the run of the output get that many (`stuffed_densest`).
-/

import Mathlib.Data.List.Basic
import Mathlib.Tactic.SplitIfs

namespace Canforge
namespace Lib

/-- The output for some bits, behind `run` bits that equal `last`. -/
def stuffedFrom (w : ℕ) (last : Bool) (run : ℕ) : List Bool → List Bool
  | [] => []
  | b :: rest =>
    let run := if b = last then run + 1 else 1
    if run = w then b :: (!b) :: stuffedFrom w (!b) 1 rest else b :: stuffedFrom w b run rest

/-- The output for some bits. -/
def stuffed (w : ℕ) (bits : List Bool) : List Bool := stuffedFrom w false 0 bits

/-- `n` bits that go on with the run of the output. -/
def densestFrom (w : ℕ) (last : Bool) (run : ℕ) : ℕ → List Bool
  | 0 => []
  | n + 1 =>
    last :: if run + 1 = w then densestFrom w (!last) 1 n else densestFrom w last (run + 1) n

/-- `n` bits for which most are inserted. -/
def densest (w n : ℕ) : List Bool := densestFrom w false 0 n

variable {w run n : ℕ} {last : Bool}

/-- What one more insertion adds to the bound. -/
theorem succ_div_eq (hw : 1 < w) : n / (w - 1) + 1 = (n + w - 1) / (w - 1) := by
  rw [show n + w - 1 = n + (w - 1) by omega, Nat.add_div_right _ (by omega)]

/-- **The bound behind a run**: the bits of the run count as bits of the input. -/
theorem stuffedFrom_length_le (hw : 1 < w) (hrun : run < w) (bits : List Bool) :
    (stuffedFrom w last run bits).length ≤ bits.length + (bits.length + run - 1) / (w - 1) := by
  induction bits generalizing last run with
  | nil => exact Nat.zero_le _
  | cons b rest ih =>
    rw [stuffedFrom]
    by_cases hb : b = last
    · rw [if_pos hb]
      by_cases hfull : run + 1 = w
      · have hnext : (stuffedFrom w (!b) 1 rest).length ≤
            rest.length + (rest.length + 1 - 1) / (w - 1) := ih hw
        have hmore := succ_div_eq (n := rest.length) hw
        rw [if_pos hfull]
        simp only [List.length_cons]
        rw [Nat.add_sub_cancel] at hnext
        rw [show rest.length + 1 + run - 1 = rest.length + w - 1 by omega, ← hmore]
        omega
      · have hnext : (stuffedFrom w b (run + 1) rest).length ≤
            rest.length + (rest.length + (run + 1) - 1) / (w - 1) := ih (by omega)
        rw [if_neg hfull, List.length_cons, List.length_cons]
        rw [show rest.length + (run + 1) - 1 = rest.length + 1 + run - 1 by omega] at hnext
        omega
    · have hnext : (stuffedFrom w b 1 rest).length ≤
          rest.length + (rest.length + 1 - 1) / (w - 1) := ih hw
      have hmono : (rest.length + 1 - 1) / (w - 1) ≤ (rest.length + 1 + run - 1) / (w - 1) :=
        Nat.div_le_div_right (by omega)
      rw [if_neg hb, if_neg (by omega), List.length_cons, List.length_cons]
      omega

/-- **How many bits are inserted at most.** -/
theorem stuffed_length_le (hw : 1 < w) (bits : List Bool) :
    (stuffed w bits).length ≤ bits.length + (bits.length - 1) / (w - 1) :=
  stuffedFrom_length_le hw (by omega) bits

theorem densestFrom_length (n : ℕ) : (densestFrom w last run n).length = n := by
  induction n generalizing last run with
  | zero => rfl
  | succ n ih =>
    rw [densestFrom, List.length_cons]
    split_ifs
    · rw [ih]
    · rw [ih]

/-- A run that always goes on is filled up as often as it can be. -/
theorem stuffedFrom_densestFrom (hw : 1 < w) (hrun : run < w) (n : ℕ) :
    (stuffedFrom w last run (densestFrom w last run n)).length = n + (n + run - 1) / (w - 1) := by
  induction n generalizing last run with
  | zero =>
    have hnone : (0 + run - 1) / (w - 1) = 0 := Nat.div_eq_of_lt (by omega)
    rw [hnone]
    rfl
  | succ n ih =>
    rw [densestFrom, stuffedFrom]
    rw [if_pos rfl]
    by_cases hfull : run + 1 = w
    · have hnext : (stuffedFrom w (!last) 1 (densestFrom w (!last) 1 n)).length =
          n + (n + 1 - 1) / (w - 1) := ih hw
      have hmore := succ_div_eq (n := n) hw
      rw [if_pos hfull, if_pos hfull, List.length_cons, List.length_cons, hnext]
      rw [show n + 1 + run - 1 = n + w - 1 by omega, ← hmore, Nat.add_sub_cancel]
      omega
    · have hnext : (stuffedFrom w last (run + 1) (densestFrom w last (run + 1) n)).length =
          n + (n + (run + 1) - 1) / (w - 1) := ih (by omega)
      rw [if_neg hfull, if_neg hfull, List.length_cons, hnext,
        show n + (run + 1) - 1 = n + 1 + run - 1 by omega]
      omega

/-- **The bound is reached.** -/
theorem stuffed_densest (hw : 1 < w) (n : ℕ) :
    (densest w n).length = n ∧ (stuffed w (densest w n)).length = n + (n - 1) / (w - 1) :=
  ⟨densestFrom_length n, stuffedFrom_densestFrom hw (by omega) n⟩

end Lib
end Canforge
