/-
# Writing a run of cells

A memory is a function `m : α → β` from cells to contents, and a run of `n`
cells is a list of positions `pos 0, …, pos (n - 1)` given as a function on the
numbers below `n`.  `Writes pos n v m m'` says that `m'` is `m` with `v i` stored
at `pos i` and nothing else touched.  It determines `m'` (`Writes.unique`), what
it stores can be read back (`Writes.read`), and two writes to disjoint runs do
not see each other (`Writes.read_of_disjoint`) and commute (`Writes.comm`).  As one
formula `m'` is what the write stores and `m` elsewhere (`Writes.eq_stored`).

Nothing here depends on what a cell is: the two bit numberings of a signal
codec are two functions `pos` into the same cells.
-/

import Mathlib

namespace Canforge
namespace Lib

variable {α β : Type*}

/-- The cells a run of length `n` occupies. -/
def cells (pos : ℕ → α) (n : ℕ) : Set α := {a | ∃ i < n, pos i = a}

theorem mem_cells {pos : ℕ → α} {n i : ℕ} (h : i < n) : pos i ∈ cells pos n := ⟨i, h, rfl⟩

/-- `m'` is `m` after storing `v` on the run `pos` of length `n`. -/
structure Writes (pos : ℕ → α) (n : ℕ) (v : ℕ → β) (m m' : α → β) : Prop where
  /-- Every cell of the run holds its new content. -/
  read : ∀ i < n, m' (pos i) = v i
  /-- Every other cell holds what it held. -/
  frame : ∀ a ∉ cells pos n, m' a = m a

namespace Writes

variable {pos pos' : ℕ → α} {n n' : ℕ} {v v' : ℕ → β} {m m₁ m₂ m₁₂ m₂₁ : α → β}

/-- Writing one more cell, one the run does not have yet. -/
theorem succ (h : Writes pos n v m m₁) (hnew : pos n ∉ cells pos n) (hread : m₂ (pos n) = v n)
    (hframe : ∀ a, a ≠ pos n → m₂ a = m₁ a) : Writes pos (n + 1) v m m₂ where
  read i hi := by
    rcases Nat.lt_succ_iff_lt_or_eq.1 hi with h' | rfl
    · rw [hframe _ fun he => hnew (he ▸ mem_cells h'), h.read i h']
    · exact hread
  frame a ha := by
    have hne : a ≠ pos n := fun he => ha (he ▸ mem_cells (Nat.lt_succ_self n))
    rw [hframe a hne, h.frame a fun ⟨i, hi, he⟩ => ha ⟨i, Nat.lt_succ_of_lt hi, he⟩]

/-- **A write has one result.** -/
theorem unique (h₁ : Writes pos n v m m₁) (h₂ : Writes pos n v m m₂) : m₁ = m₂ := by
  funext a
  by_cases ha : a ∈ cells pos n
  · obtain ⟨i, hi, rfl⟩ := ha
    rw [h₁.read i hi, h₂.read i hi]
  · rw [h₁.frame a ha, h₂.frame a ha]

/-- **A write is not seen from a disjoint run.** -/
theorem read_of_disjoint (h : Writes pos n v m m₁) (hd : Disjoint (cells pos n) (cells pos' n'))
    {i : ℕ} (hi : i < n') : m₁ (pos' i) = m (pos' i) :=
  h.frame _ fun hmem => Set.disjoint_left.1 hd hmem (mem_cells hi)

/-- **Writes to disjoint runs commute.** -/
theorem comm (hd : Disjoint (cells pos n) (cells pos' n')) (h₁ : Writes pos n v m m₁)
    (h₁₂ : Writes pos' n' v' m₁ m₁₂) (h₂ : Writes pos' n' v' m m₂)
    (h₂₁ : Writes pos n v m₂ m₂₁) : m₁₂ = m₂₁ := by
  funext a
  by_cases ha : a ∈ cells pos n
  · have ha' : a ∉ cells pos' n' := fun h => Set.disjoint_left.1 hd ha h
    obtain ⟨i, hi, rfl⟩ := ha
    rw [h₁₂.frame _ ha', h₁.read i hi, h₂₁.read i hi]
  · by_cases ha' : a ∈ cells pos' n'
    · rw [h₂₁.frame a ha]
      obtain ⟨i, hi, rfl⟩ := ha'
      rw [h₁₂.read i hi, h₂.read i hi]
    · rw [h₁₂.frame a ha', h₁.frame a ha, h₂₁.frame a ha, h₂.frame a ha']

end Writes

/-- What a write stores at a cell, if it is one of its run. -/
def stored [DecidableEq α] (pos : ℕ → α) (n : ℕ) (v : ℕ → β) (a : α) : Option β :=
  ((List.range n).find? fun i => decide (pos i = a)).map v

theorem stored_pos [DecidableEq α] {pos : ℕ → α} (hpos : Function.Injective pos) {n i : ℕ}
    (hi : i < n) (v : ℕ → β) : stored pos n v (pos i) = some (v i) := by
  have hfind : ((List.range n).find? fun k => decide (pos k = pos i)) = some i := by
    rw [List.find?_eq_some_iff_getElem]
    refine ⟨by simp, i, by simpa using hi, by simp, ?_⟩
    intro k hk
    rw [List.getElem_range]
    simpa using fun h => absurd (hpos h) hk.ne
  rw [stored, hfind, Option.map_some]

/-- **A write in one formula**: what it stores, and the old content elsewhere. -/
theorem Writes.eq_stored [DecidableEq α] {pos : ℕ → α} {n : ℕ} {v : ℕ → β} {m m' : α → β}
    (h : Writes pos n v m m') (a : α) : m' a = (stored pos n v a).getD (m a) := by
  unfold stored
  cases hfind : (List.range n).find? fun i => decide (pos i = a) with
  | none =>
    refine h.frame a ?_
    rintro ⟨i, hi, rfl⟩
    have := List.find?_eq_none.1 hfind i (List.mem_range.2 hi)
    simp at this
  | some i =>
    have hi : i < n := List.mem_range.1 (List.mem_of_find?_eq_some hfind)
    have ha : pos i = a := of_decide_eq_true (List.find?_some hfind :)
    rw [← ha, h.read i hi]
    rfl

end Lib
end Canforge
