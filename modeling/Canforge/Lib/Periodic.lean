/-
# Periodic timers

A timer of period `c` that is polled: it fires when a poll finds it due, and at most once in a
poll.  Its next time is a period behind the last due time, or behind the poll where that time is
already over (`nextTime`).  Polls less than a period apart never see the second case, so the
timer does not drift: it fires for the `k`-th time at the first poll at or after `due + k * c`
(`firings_fires`).
-/

import Mathlib

namespace Canforge
namespace Lib

/-- When the timer is due again after it fired at `now`. -/
def nextTime (c due now : ℕ) : ℕ := if due + c ≤ now then now + c else due + c

/-- Which of some polls the timer fires at. -/
def fires (c : ℕ) : ℕ → List ℕ → List Bool
  | _, [] => []
  | due, t :: polls =>
    if due ≤ t then true :: fires c (nextTime c due t) polls else false :: fires c due polls

/-- The places of the firings, counted from `n`. -/
def firings (n : ℕ) : List Bool → List ℕ
  | [] => []
  | true :: fired => n :: firings (n + 1) fired
  | false :: fired => firings (n + 1) fired

/-- Polls each less than `c` behind the one before, the first one behind `start`. -/
def Fine (c : ℕ) : ℕ → List ℕ → Prop
  | _, [] => True
  | start, t :: polls => t < start + c ∧ Fine c t polls

instance (c : ℕ) : ∀ start polls, Decidable (Fine c start polls)
  | _, [] => .isTrue trivial
  | start, t :: polls =>
    haveI := instDecidableFine c t polls
    inferInstanceAs (Decidable (t < start + c ∧ Fine c t polls))

variable {c due start now : ℕ}

theorem lt_nextTime (hc : 0 < c) : now < nextTime c due now := by
  unfold nextTime
  split_ifs <;> omega

/-- The timer does not fall behind fine polls. -/
theorem nextTime_of_lt (h : now < due + c) : nextTime c due now = due + c :=
  if_neg (Nat.not_le.2 h)

theorem Fine.mono {later : ℕ} {polls : List ℕ} (h : Fine c start polls) (hle : start ≤ later) :
    Fine c later polls := by
  cases polls with
  | nil => trivial
  | cons t polls => exact ⟨by have := h.1; omega, h.2⟩

/-- **A timer that is polled often enough does not drift**: its `k`-th firing is at the first poll
at or after `due + k * c`. -/
theorem firings_fires {polls : List ℕ} (h : Fine c due polls) (n k : ℕ) :
    (firings n (fires c due polls))[k]? =
      (polls.findIdx? (due + k * c ≤ ·)).map (n + ·) := by
  induction polls generalizing due n k with
  | nil => rfl
  | cons t polls ih =>
    obtain ⟨ht, hpolls⟩ := h
    rw [fires, List.findIdx?_cons]
    by_cases hdue : due ≤ t
    · rw [if_pos hdue, firings, nextTime_of_lt ht]
      cases k with
      | zero => simp [hdue]
      | succ k =>
        have hnext : ¬due + (k + 1) * c ≤ t := by
          rw [Nat.add_mul]
          omega
        rw [List.getElem?_cons_succ, ih (hpolls.mono (Nat.le_of_lt ht)), if_neg (by simpa using hnext)]
        rw [Option.map_map, show due + (k + 1) * c = due + c + k * c by ring]
        congr 1
        funext i
        exact Nat.add_right_comm n 1 i
    · have hnot : ¬due + k * c ≤ t := by omega
      rw [if_neg hdue, firings, ih (hpolls.mono (by omega)), if_neg (by simpa using hnot),
        Option.map_map]
      congr 1
      funext i
      exact Nat.add_right_comm n 1 i

end Lib
end Canforge
