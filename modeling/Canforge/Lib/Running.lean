/-
# Statistics of a stream

A mean, two extremes and a window that are kept as the values come.  The mean of one more value is
exact (`meanPush_eq`), and so is a maximum that starts at zero, for values that are not negative.
A minimum that takes zero for "none yet" forgets everything at a zero: it is right exactly when no
value is zero or the last one is (`isLeast_markedMinimum_iff`).  A window over values in order is
what a filter keeps (`dropWhile_eq_filter`).
-/

import Mathlib

namespace Canforge
namespace Lib

variable {K : Type*} [Field K] [LinearOrder K]

/-- The mean of `n` values, from that of all but the last. -/
def meanPush (mean : K) (n : ℕ) (x : K) : K := (mean * ((n : K) - 1) + x) / n

/-- A minimum that is unset while it is zero. -/
def markedMin (m x : K) : K := if m = 0 ∨ x < m then x else m

/-- The minimum kept of a stream. -/
def markedMinimum (xs : List K) : K := xs.foldl markedMin 0

variable {xs : List K} {x : K}

omit [LinearOrder K] in
/-- **The running mean is the mean.** -/
theorem meanPush_eq [CharZero K] (xs : List K) (x : K) :
    meanPush (xs.sum / xs.length) (xs.length + 1) x = (xs ++ [x]).sum / (xs ++ [x]).length := by
  rw [meanPush, List.sum_append, List.sum_singleton, List.length_append, List.length_singleton]
  rw [Nat.cast_add, Nat.cast_one, add_sub_cancel_right]
  cases xs with
  | nil => simp
  | cons y ys =>
    have hne : ((y :: ys).length : K) ≠ 0 := Nat.cast_ne_zero.2 (by simp)
    rw [div_mul_cancel₀ _ hne]

theorem markedMinimum_append (xs : List K) (x : K) : markedMinimum (xs ++ [x]) =
    if markedMinimum xs = 0 ∨ x < markedMinimum xs then x else markedMinimum xs := by
  rw [markedMinimum, List.foldl_append]
  rfl

theorem markedMinimum_mem (xs : List K) (h : xs ≠ []) : markedMinimum xs ∈ xs := by
  induction xs using List.reverseRecOn with
  | nil => exact absurd rfl h
  | append_singleton xs x ih =>
    rw [markedMinimum_append]
    by_cases hset : markedMinimum xs = 0 ∨ x < markedMinimum xs
    · rw [if_pos hset]
      simp
    · rw [if_neg hset]
      have hne : xs ≠ [] := by
        rintro rfl
        exact hset (.inl rfl)
      exact List.mem_append_left _ (ih hne)

/-- The minimum is zero while the last value is. -/
theorem markedMinimum_eq_zero_iff (hpos : ∀ x ∈ xs, 0 ≤ x) (h : xs ≠ []) :
    markedMinimum xs = 0 ↔ xs.getLast? = some 0 := by
  induction xs using List.reverseRecOn with
  | nil => exact absurd rfl h
  | append_singleton xs x _ =>
    rw [markedMinimum_append, List.getLast?_concat, Option.some_inj]
    by_cases hset : markedMinimum xs = 0 ∨ x < markedMinimum xs
    · rw [if_pos hset]
    · rw [if_neg hset]
      obtain ⟨hne, hle⟩ := not_or.1 hset
      have hxs : xs ≠ [] := by
        rintro rfl
        exact hne rfl
      have hmin : 0 ≤ markedMinimum xs :=
        hpos _ (List.mem_append_left _ (markedMinimum_mem xs hxs))
      refine iff_of_false hne fun hx => ?_
      exact hne (le_antisymm (hx ▸ not_lt.1 hle) hmin)

/-- Without a zero nothing is forgotten. -/
theorem markedMinimum_le (hpos : ∀ x ∈ xs, 0 < x) : ∀ x ∈ xs, markedMinimum xs ≤ x := by
  induction xs using List.reverseRecOn with
  | nil => nofun
  | append_singleton xs x ih =>
    have hxs : ∀ y ∈ xs, 0 < y := fun y hy => hpos y (List.mem_append_left _ hy)
    intro y hy
    rw [markedMinimum_append]
    by_cases hset : markedMinimum xs = 0 ∨ x < markedMinimum xs
    · rw [if_pos hset]
      rcases List.mem_append.1 hy with hy | hy
      · obtain hzero | hlt := hset
        · have hmem := markedMinimum_mem xs (List.ne_nil_of_mem hy)
          rw [hzero] at hmem
          exact absurd (hxs 0 hmem) (lt_irrefl 0)
        · exact hlt.le.trans (ih hxs y hy)
      · rw [List.mem_singleton.1 hy]
    · rw [if_neg hset]
      obtain ⟨-, hle⟩ := not_or.1 hset
      rcases List.mem_append.1 hy with hy | hy
      · exact ih hxs y hy
      · rw [List.mem_singleton.1 hy]
        exact not_lt.1 hle

/-- **When a marked minimum is right.** -/
theorem isLeast_markedMinimum_iff (hpos : ∀ x ∈ xs, 0 ≤ x) (h : xs ≠ []) :
    IsLeast { x | x ∈ xs } (markedMinimum xs) ↔ ((0 : K) ∈ xs → xs.getLast? = some 0) := by
  by_cases hzero : (0 : K) ∈ xs
  · rw [← markedMinimum_eq_zero_iff hpos h]
    constructor
    · exact fun hleast _ => le_antisymm (hleast.2 hzero) (hpos _ hleast.1)
    · intro hmin
      rw [hmin hzero]
      exact ⟨hzero, hpos⟩
  · have hall : ∀ x ∈ xs, 0 < x := fun x hx =>
      lt_of_le_of_ne (hpos x hx) fun heq => hzero (heq ▸ hx)
    exact iff_of_true ⟨markedMinimum_mem xs h, markedMinimum_le hall⟩ fun hmem => absurd hmem hzero

/-- **A maximum that starts at zero is right.** -/
theorem isGreatest_foldl_max (hpos : ∀ x ∈ xs, 0 ≤ x) (h : xs ≠ []) :
    IsGreatest { x | x ∈ xs } (xs.foldl max 0) := by
  induction xs using List.reverseRecOn with
  | nil => exact absurd rfl h
  | append_singleton xs x ih =>
    rw [List.foldl_append, List.foldl_cons, List.foldl_nil]
    have hx : 0 ≤ x := hpos x (by simp)
    by_cases hxs : xs = []
    · subst hxs
      rw [List.foldl_nil, max_eq_right hx]
      refine ⟨by simp, fun y hy => ?_⟩
      simpa using (List.mem_singleton.1 hy).le
    · obtain ⟨hmem, hge⟩ := ih (fun y hy => hpos y (List.mem_append_left _ hy)) hxs
      constructor
      · rcases max_choice (xs.foldl max 0) x with heq | heq
        · rw [heq]
          exact List.mem_append_left _ hmem
        · rw [heq]
          simp
      · intro y hy
        rcases List.mem_append.1 hy with hy | hy
        · exact le_max_of_le_left (hge hy)
        · rw [List.mem_singleton.1 hy]
          exact le_max_right _ _

/-- **A window over values in order**: what is dropped at its start is all that is too old. -/
theorem dropWhile_eq_filter {α : Type*} {old : α → Bool} {l : List α}
    (h : l.Pairwise fun a b => old b = true → old a = true) :
    l.dropWhile old = l.filter fun a => !old a := by
  induction l with
  | nil => rfl
  | cons a l ih =>
    obtain ⟨hfirst, hrest⟩ := List.pairwise_cons.1 h
    by_cases ha : old a = true
    · rw [List.dropWhile_cons_of_pos ha, List.filter_cons_of_neg (by simp [ha])]
      exact ih hrest
    · rw [List.dropWhile_cons_of_neg ha, List.filter_cons_of_pos (by simpa using ha)]
      have hkept : ∀ b ∈ l, (!old b) = true := fun b hb => by simpa using mt (hfirst b hb) ha
      rw [List.filter_eq_self.2 hkept]

end Lib
end Canforge
