/-
# A queue that is emptied by time

Elements with a due time arrive in rounds.  Each round sorts the queue stably by due time and
takes from its front what is due (`release`).  `releases_eq` says which elements a round takes:
those for which it is the first round from their own on whose time has come (`leaves`).  So no
element leaves twice, and none is forgotten.

Where the times of the rounds do not decrease and nothing is due before it arrives, the rounds
one after the other are in order as a whole (`flatten_releases`).
-/

import Canforge.Lib.StableSort

namespace Canforge
namespace Lib

variable {α : Type*} {due : α → ℕ} {queue : List α}

/-- A round: its time and what arrives in it. -/
structure Round (α : Type*) where
  now : ℕ
  arrivals : List α

/-- What leaves the queue at a time, and what stays. -/
def release (due : α → ℕ) (now : ℕ) (queue : List α) : List α × List α :=
  ((stableSort due queue).takeWhile (due · ≤ now), (stableSort due queue).dropWhile (due · ≤ now))

/-- Of a sorted list the first elements are the small ones. -/
theorem SortedBy.takeWhile_eq {l : List α} (h : SortedBy due l) (now : ℕ) :
    l.takeWhile (due · ≤ now) = l.filter (due · ≤ now) ∧
      l.dropWhile (due · ≤ now) = l.filter (now < due ·) := by
  induction l with
  | nil => exact ⟨rfl, rfl⟩
  | cons a l ih =>
    obtain ⟨ha, hl⟩ := List.pairwise_cons.1 h
    obtain ⟨ihtake, ihdrop⟩ := ih hl
    by_cases hnow : due a ≤ now
    · have hlt : ¬now < due a := by omega
      constructor
      · simp [hnow, ihtake]
      · simp [hnow, hlt, ihdrop]
    · have hall : ∀ b ∈ a :: l, now < due b := by
        intro b hb
        rcases List.mem_cons.1 hb with rfl | hb
        · omega
        · exact lt_of_lt_of_le (by omega) (ha b hb)
      constructor
      · rw [List.takeWhile_cons_of_neg (by simpa using hnow), eq_comm, List.filter_eq_nil_iff]
        intro b hb
        simpa using hall b hb
      · rw [List.dropWhile_cons_of_neg (by simpa using hnow), eq_comm, List.filter_eq_self]
        intro b hb
        simpa using hall b hb

theorem release_fst (now : ℕ) :
    (release due now queue).1 = stableSort due (queue.filter (due · ≤ now)) :=
  ((sortedBy_stableSort due queue).takeWhile_eq now).1.trans (filter_stableSort _)

theorem release_snd (now : ℕ) :
    (release due now queue).2 = stableSort due (queue.filter (now < due ·)) :=
  ((sortedBy_stableSort due queue).takeWhile_eq now).2.trans (filter_stableSort _)

/-- What each round takes from a queue, and what is left in the end. -/
def releases (due : α → ℕ) : List α → List (Round α) → List (List α) × List α
  | queue, [] => ([], queue)
  | queue, r :: rs =>
    let taken := release due r.now (queue ++ r.arrivals)
    let rest := releases due taken.2 rs
    (taken.1 :: rest.1, rest.2)

/-! ### The round that takes an element -/

/-- The first round, from round `j` on, whose time is not before `d`. -/
def leaves : List (Round α) → ℕ → ℕ → Option ℕ
  | [], _, _ => none
  | r :: rs, 0, d => if d ≤ r.now then some 0 else (leaves rs 0 d).map (· + 1)
  | _ :: rs, j + 1, d => (leaves rs j d).map (· + 1)

/-- All that arrives, with the number of its round. -/
def arrivals : List (Round α) → List (ℕ × α)
  | [] => []
  | r :: rs => r.arrivals.map (0, ·) ++ (arrivals rs).map fun a => (a.1 + 1, a.2)

/-- **`leaves` is the first round whose time has come.** -/
theorem leaves_eq_some_iff {rounds : List (Round α)} {j d i : ℕ} :
    leaves rounds j d = some i ↔
      j ≤ i ∧ (∃ r, rounds[i]? = some r ∧ d ≤ r.now) ∧
        ∀ k, j ≤ k → k < i → ∀ r, rounds[k]? = some r → r.now < d := by
  induction rounds generalizing i j with
  | nil => simp [leaves]
  | cons r rs ih =>
    cases j with
    | zero =>
      by_cases hnow : d ≤ r.now
      · rw [leaves, if_pos hnow, Option.some_inj]
        constructor
        · rintro rfl
          exact ⟨le_rfl, ⟨r, rfl, hnow⟩, fun k _ hk => absurd hk (Nat.not_lt_zero k)⟩
        · rintro ⟨-, -, hfirst⟩
          by_contra! hi
          have := hfirst 0 le_rfl (Nat.pos_of_ne_zero (Ne.symm hi)) r rfl
          omega
      · rw [leaves, if_neg hnow]
        cases i with
        | zero => simp [hnow]
        | succ i =>
          rw [Option.map_eq_some_iff]
          simp only [Nat.add_right_cancel_iff, exists_eq_right, ih, List.getElem?_cons_succ]
          constructor
          · rintro ⟨-, hi, hfirst⟩
            refine ⟨Nat.zero_le _, hi, fun k _ hk s hs => ?_⟩
            cases k with
            | zero =>
              obtain rfl : r = s := Option.some.inj hs
              omega
            | succ k => exact hfirst k (Nat.zero_le _) (by omega) s hs
          · rintro ⟨-, hi, hfirst⟩
            exact ⟨Nat.zero_le _, hi, fun k _ hk s hs =>
              hfirst (k + 1) (Nat.zero_le _) (by omega) s hs⟩
    | succ j =>
      rw [leaves]
      cases i with
      | zero => simp
      | succ i =>
        rw [Option.map_eq_some_iff]
        simp only [Nat.add_right_cancel_iff, exists_eq_right, ih, List.getElem?_cons_succ]
        constructor
        · rintro ⟨hj, hi, hfirst⟩
          refine ⟨by omega, hi, fun k hk hlt s hs => ?_⟩
          cases k with
          | zero => omega
          | succ k => exact hfirst k (by omega) (by omega) s hs
        · rintro ⟨hj, hi, hfirst⟩
          exact ⟨by omega, hi, fun k hk hlt s hs => hfirst (k + 1) (by omega) (by omega) s hs⟩

/-- What leaves in a round, of a queue and of the rounds it belongs to; `none` is what does not
leave. -/
def takenIn (due : α → ℕ) (queue : List α) (rounds : List (Round α)) (i : Option ℕ) : List α :=
  stableSort due (queue.filter (fun a => leaves rounds 0 (due a) = i) ++
    ((arrivals rounds).filter fun a => leaves rounds a.1 (due a.2) = i).map Prod.snd)

theorem filter_arrivals_cons {r : Round α} {rs : List (Round α)} (p : ℕ → α → Bool) :
    ((arrivals (r :: rs)).filter fun a => p a.1 a.2).map Prod.snd =
      r.arrivals.filter (p 0) ++ ((arrivals rs).filter fun a => p (a.1 + 1) a.2).map Prod.snd := by
  rw [arrivals, List.filter_append, List.map_append, List.filter_map, List.filter_map, List.map_map,
    List.map_map]
  exact congrArg₂ _ (List.map_id _) rfl

/-- The first round takes what is due, of the queue and of its own arrivals. -/
theorem takenIn_zero (r : Round α) (rs : List (Round α)) :
    takenIn due queue (r :: rs) (some 0) = (release due r.now (queue ++ r.arrivals)).1 := by
  have hzero : ∀ a, (decide (leaves (r :: rs) 0 (due a) = some 0)) = decide (due a ≤ r.now) := by
    intro a
    rw [leaves]
    split_ifs with h <;> simp [h]
  have hsucc : ∀ a : ℕ × α, decide (leaves (r :: rs) (a.1 + 1) (due a.2) = some 0) = false := by
    intro a
    simp [leaves]
  rw [release_fst, List.filter_append, takenIn,
    filter_arrivals_cons fun j a => leaves (r :: rs) j (due a) = some 0]
  simp only [hzero, hsucc, List.filter_false, List.map_nil, List.append_nil]

/-- A later one takes the same of what the first one left. -/
theorem takenIn_succ (r : Round α) (rs : List (Round α)) (i : Option ℕ) :
    takenIn due queue (r :: rs) (i.map (· + 1)) =
      takenIn due (release due r.now (queue ++ r.arrivals)).2 rs i := by
  have hzero : ∀ a, decide (leaves (r :: rs) 0 (due a) = i.map (· + 1)) =
      (decide (r.now < due a) && decide (leaves rs 0 (due a) = i)) := by
    intro a
    rw [leaves]
    split_ifs with h
    · cases i <;> simp [Nat.not_lt.2 h]
    · cases i <;> simp [Nat.lt_of_not_le h]
  have hsucc : ∀ a : ℕ × α, decide (leaves (r :: rs) (a.1 + 1) (due a.2) = i.map (· + 1)) =
      decide (leaves rs a.1 (due a.2) = i) := by
    intro a
    cases i <;> simp [leaves]
  rw [takenIn, takenIn, filter_arrivals_cons fun j a => leaves (r :: rs) j (due a) = i.map (· + 1),
    release_snd, filter_stableSort, stableSort_append_left, ← List.append_assoc,
    ← List.filter_append]
  simp only [hzero, hsucc, List.filter_filter, Bool.and_comm]

/-- **What each round takes**: no element leaves twice. -/
theorem releases_eq (rounds : List (Round α)) :
    (releases due queue rounds).1 =
      (List.range rounds.length).map fun i => takenIn due queue rounds (some i) := by
  induction rounds generalizing queue with
  | nil => rfl
  | cons r rs ih =>
    rw [List.length_cons, List.range_succ_eq_map, List.map_cons, List.map_map, releases]
    refine congrArg₂ _ (takenIn_zero r rs).symm (ih.trans (List.map_congr_left fun i _ => ?_))
    exact (takenIn_succ r rs (some i)).symm

/-- **What is left in the end**: none is forgotten. -/
theorem releases_rest (hq : SortedBy due queue) (rounds : List (Round α)) :
    (releases due queue rounds).2 = takenIn due queue rounds none := by
  induction rounds generalizing queue with
  | nil => simpa [releases, takenIn, leaves, arrivals] using hq.stableSort_eq.symm
  | cons r rs ih =>
    refine (ih ?_).trans (takenIn_succ r rs none).symm
    rw [release_snd]
    exact sortedBy_stableSort _ _

/-! ### The whole run -/

/-- The time of some round has come. -/
def hasCome (rounds : List (Round α)) (d : ℕ) : Bool := rounds.any (d ≤ ·.now)

/-- **The rounds one after the other are in order.** -/
theorem flatten_releases {rounds : List (Round α)}
    (htimes : rounds.Pairwise fun r s => r.now ≤ s.now)
    (hdue : ∀ r ∈ rounds, ∀ a ∈ r.arrivals, r.now ≤ due a) :
    (releases due queue rounds).1.flatten =
      stableSort due ((queue ++ rounds.flatMap (·.arrivals)).filter fun a =>
        hasCome rounds (due a)) := by
  induction rounds generalizing queue with
  | nil => simp [releases, hasCome, stableSort]
  | cons r rs ih =>
    obtain ⟨hr, hrs⟩ := List.pairwise_cons.1 htimes
    have hlater : ∀ a ∈ rs.flatMap (·.arrivals), r.now ≤ due a := by
      intro a ha
      obtain ⟨s, hs, ha⟩ := List.mem_flatMap.1 ha
      exact (hr s hs).trans (hdue s (List.mem_cons_of_mem r hs) a ha)
    have hrest : (releases due (release due r.now (queue ++ r.arrivals)).2 rs).1.flatten =
        stableSort due (((queue ++ r.arrivals).filter (r.now < due ·)).filter (hasCome rs <| due ·) ++
          (rs.flatMap (·.arrivals)).filter (hasCome rs <| due ·)) := by
      rw [ih hrs fun s hs => hdue s (List.mem_cons_of_mem r hs), List.filter_append, release_snd,
        filter_stableSort, stableSort_append_left]
    have hcome : ∀ d, hasCome (r :: rs) d = (decide (d ≤ r.now) || hasCome rs d) := fun d => rfl
    rw [releases, List.flatten_cons, hrest, release_fst, List.flatMap_cons, ← List.append_assoc]
    generalize queue ++ r.arrivals = present
    have hlate : ∀ a ∈ rs.flatMap (·.arrivals),
        hasCome rs (due a) = hasCome (r :: rs) (due a) := by
      intro a ha
      obtain ⟨s, hs, hmem⟩ := List.mem_flatMap.1 ha
      rw [hcome]
      by_cases hnow : due a ≤ r.now
      · have hsome : hasCome rs (due a) = true :=
          List.any_eq_true.2 ⟨s, hs, decide_eq_true (hnow.trans (hr s hs))⟩
        rw [hsome, Bool.or_true]
      · rw [decide_eq_false hnow, Bool.false_or]
    refine eq_stableSort ?_ fun v => ?_
    · refine List.pairwise_append.2 ⟨sortedBy_stableSort _ _, sortedBy_stableSort _ _, ?_⟩
      intro a ha b hb
      have hle : due a ≤ r.now := by
        simpa using (List.mem_filter.1 (mem_stableSort.1 ha)).2
      refine hle.trans ?_
      rcases List.mem_append.1 (mem_stableSort.1 hb) with hb | hb
      · have := (List.mem_filter.1 (List.mem_filter.1 hb).1).2
        exact (of_decide_eq_true this).le
      · exact hlater b (List.mem_filter.1 hb).1
    · -- of the elements of one time, those of the first round come first
      rw [List.filter_append, filter_key_stableSort, filter_key_stableSort, List.filter_append,
        List.filter_append, List.filter_append, ← List.append_assoc, List.filter_congr hlate]
      refine congrArg (· ++ _) ?_
      simp only [List.filter_filter, hcome]
      rcases Nat.lt_or_ge r.now v with h | h
      · rw [List.filter_eq_nil_iff.2, List.nil_append]
        · refine List.filter_congr fun a _ => ?_
          by_cases hv : due a = v
          · simp [hv, h, Nat.not_le.2 h]
          · simp [hv]
        · intro a _
          simp only [Bool.and_eq_true, decide_eq_true_eq, not_and]
          omega
      · rw [List.append_right_eq_self.2]
        · refine List.filter_congr fun a _ => ?_
          by_cases hv : due a = v
          · simp [hv, h]
          · simp [hv]
        · rw [List.filter_eq_nil_iff]
          intro a _
          simp only [Bool.and_eq_true, decide_eq_true_eq, not_and]
          omega

end Lib
end Canforge
