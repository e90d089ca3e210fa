/-
# A message cut into segments

A message `xs` is sent as a first segment of `f` elements and further segments
of `c` elements, the last one possibly shorter.  `upTo f c xs k` is what the first
segment and `k` further ones hold together and `segmentAt f c xs k` the `k`-th
further one.

`le_of_length_le` is why a receiver that counts lengths is safe on a lossy
line: if it has appended `r` segments, the last of them being the `l`-th of the
message with `r ≤ l`, and it holds as many elements as the message has, then
`r = l`, and no segment was skipped.
-/

import Mathlib

namespace Canforge
namespace Lib

variable {α : Type*} {f c : ℕ} {xs : List α} {k : ℕ}

/-- The first segment and the `k` segments after it. -/
def upTo (f c : ℕ) (xs : List α) (k : ℕ) : List α := xs.take (f + c * k)

/-- The `k`-th segment after the first one, from `1`. -/
def segmentAt (f c : ℕ) (xs : List α) (k : ℕ) : List α := (xs.drop (f + c * (k - 1))).take c

theorem upTo_length : (upTo f c xs k).length = min (f + c * k) xs.length := by
  rw [upTo, List.length_take]

theorem segmentAt_length : (segmentAt f c xs (k + 1)).length = min c (xs.length - (f + c * k)) := by
  rw [segmentAt, List.length_take, List.length_drop, Nat.add_sub_cancel]

/-- **Segments put together in order are the message so far.** -/
theorem upTo_append_segmentAt :
    upTo f c xs k ++ segmentAt f c xs (k + 1) = upTo f c xs (k + 1) := by
  rw [upTo, upTo, segmentAt, Nat.add_sub_cancel, Nat.mul_succ, ← Nat.add_assoc]
  exact List.take_add.symm

/-- Padding behind the last segment is cut off where the message ends. -/
theorem upTo_append_take {tail : List α} (hk : f + c * k < xs.length)
    (hpre : segmentAt f c xs (k + 1) <+: tail) (hlen : tail.length ≤ c) :
    upTo f c xs k ++ tail.take (xs.length - (upTo f c xs k).length) = upTo f c xs (k + 1) := by
  obtain ⟨t, rfl⟩ := hpre
  have hseg := @segmentAt_length _ f c xs k
  rw [List.length_append] at hlen
  rw [← upTo_append_segmentAt, upTo_length, min_eq_left hk.le]
  congr 1
  rcases Nat.le_total c (xs.length - (f + c * k)) with hfull | hlast
  · rw [min_eq_left hfull] at hseg
    have ht : t = [] := List.length_eq_zero_iff.1 (by omega)
    rw [ht, List.append_nil, List.take_of_length_le (by omega)]
  · rw [min_eq_right hlast] at hseg
    exact List.take_left' hseg

theorem upTo_eq_self (h : xs.length ≤ f + c * k) : upTo f c xs k = xs := List.take_of_length_le h

/-- **Counting lengths detects a skipped segment.** -/
theorem le_of_length_le {r l n : ℕ} (hn : n ≤ f + c * r) (hfull : xs.length ≤ n)
    (hl : 0 < l → f + c * (l - 1) < xs.length) : l ≤ r := by
  rcases Nat.eq_zero_or_pos l with rfl | hpos
  · exact Nat.zero_le r
  · have h := hl hpos
    have : c * (l - 1) < c * r := by omega
    have := Nat.lt_of_mul_lt_mul_left this
    omega

end Lib
end Canforge
