/-
# Canonical prefix codes

A canonical code is given by the code lengths of its symbols, zero for a symbol without a
code: codes of one length are consecutive numbers in the order of the symbols
(`rank`), and the first one of a length follows from the shorter ones (`firstCode`).  The
lengths describe a prefix code if the codes do not need more room than there is
(`Fits`, Kraft's inequality); then every code is as long as it says (`code_lt`).

A decoder that reads a code bit by bit compares what it has read with the codes of that
length.  `le_shiftRight_code` is why it never stops early, and `position` is where it finds
the symbol in a table that is sorted by length and symbol.
-/

import Canforge.Lib.Bits

namespace Canforge
namespace Lib
namespace Canonical

variable (lengths : List ℕ)

/-- The symbols with a code of length `l`. -/
def codes (l : ℕ) : ℕ := if l = 0 then 0 else lengths.count l

/-- The first code of length `l`. -/
def firstCode : ℕ → ℕ
  | 0 => 0
  | l + 1 => 2 * (firstCode l + codes lengths l)

/-- The symbols with a code that is shorter than `l`. -/
def shorter : ℕ → ℕ
  | 0 => 0
  | l + 1 => shorter l + codes lengths l

/-- The code length of a symbol. -/
def lengthOf (s : ℕ) : ℕ := lengths.getD s 0

/-- The earlier symbols of the same length. -/
def rank (s : ℕ) : ℕ := (lengths.take s).count (lengthOf lengths s)

/-- The code of a symbol. -/
def code (s : ℕ) : ℕ := firstCode lengths (lengthOf lengths s) + rank lengths s

/-- The place of a symbol in the order of lengths and symbols. -/
def position (s : ℕ) : ℕ := shorter lengths (lengthOf lengths s) + rank lengths s

/-- The bits of the code of a symbol, which are sent with the most significant one first. -/
def codeBits (s : ℕ) : List Bool := (toBits (lengthOf lengths s) (code lengths s)).reverse

/-- The codes of length `m` that a code of length `l` takes up. -/
def slots (m l : ℕ) : ℕ := if 0 < l ∧ l ≤ m then 2 ^ (m - l) else 0

/-- The codes of length `m` or less do not take up more than there is. -/
def Fits (m : ℕ) : Prop := (lengths.map (slots m)).sum ≤ 2 ^ m

instance (m : ℕ) : Decidable (Fits lengths m) := inferInstanceAs (Decidable (_ ≤ _))

/-- The lengths of a prefix code whose longest code has at most `m` bits. -/
structure IsCode (m : ℕ) : Prop where
  le : ∀ l ∈ lengths, l ≤ m
  fits : Fits lengths m

variable {lengths} {l m s t : ℕ}

theorem slots_succ (m l : ℕ) : slots (m + 1) l = 2 * slots m l + if l = m + 1 then 1 else 0 := by
  unfold slots
  rcases Nat.lt_trichotomy l (m + 1) with h | rfl | h
  · rw [if_neg (show ¬ l = m + 1 by omega), Nat.add_zero]
    rcases Nat.eq_zero_or_pos l with rfl | hpos
    · rw [if_neg (by omega), if_neg (by omega)]
    · rw [if_pos (by omega), if_pos (by omega), ← pow_succ']
      congr 1
      omega
  · rw [if_pos (by omega), if_neg (by omega), if_pos rfl, Nat.sub_self]
    rfl
  · rw [if_neg (by omega), if_neg (by omega), if_neg (by omega)]

theorem sum_slots_succ (lengths : List ℕ) (m : ℕ) : (lengths.map (slots (m + 1))).sum =
    2 * (lengths.map (slots m)).sum + codes lengths (m + 1) := by
  rw [codes, if_neg (Nat.succ_ne_zero m)]
  induction lengths with
  | nil => rfl
  | cons l lengths ih =>
    rw [List.map_cons, List.sum_cons, List.map_cons, List.sum_cons, ih, slots_succ,
      List.count_cons]
    simp only [beq_iff_eq]
    omega

/-- **The codes up to a length are numbered without gaps.** -/
theorem firstCode_add_codes (lengths : List ℕ) (m : ℕ) :
    firstCode lengths m + codes lengths m = (lengths.map (slots m)).sum := by
  induction m with
  | zero =>
    have hzero : lengths.map (slots 0) = lengths.map fun _ => 0 :=
      List.map_congr_left fun l _ => if_neg (by omega)
    rw [hzero, List.map_const', List.sum_replicate]
    rfl
  | succ m ih => rw [firstCode, ih, sum_slots_succ]

theorem Fits.of_succ (h : Fits lengths (m + 1)) : Fits lengths m := by
  rw [Fits, sum_slots_succ, pow_succ'] at h
  rw [Fits]
  omega

theorem Fits.of_le (h : Fits lengths m) (hl : l ≤ m) : Fits lengths l := by
  induction m, hl using Nat.le_induction with
  | base => exact h
  | succ m _ ih => exact ih h.of_succ

/-- Longer codes that no symbol has need no room. -/
theorem Fits.mono (h : Fits lengths l) (hle : ∀ x ∈ lengths, x ≤ l) (hl : l ≤ m) :
    Fits lengths m := by
  induction m, hl using Nat.le_induction with
  | base => exact h
  | succ m hlm ih =>
    have hnone : lengths.count (m + 1) = 0 := by
      refine List.count_eq_zero.2 fun hmem => ?_
      have := hle _ hmem
      omega
    rw [Fits] at ih
    rw [Fits, sum_slots_succ, codes, if_neg (Nat.succ_ne_zero m), hnone, pow_succ']
    omega

/-! ### Codes -/

theorem lt_length (hl : lengthOf lengths s ≠ 0) : s < lengths.length := by
  by_contra hge
  exact hl (List.getD_eq_default _ _ (Nat.not_lt.1 hge))

theorem rank_lt (hs : s < lengths.length) (hl : lengthOf lengths s ≠ 0) :
    rank lengths s < codes lengths (lengthOf lengths s) := by
  have hget : lengthOf lengths s = lengths[s] := List.getD_eq_getElem _ _ hs
  have hsplit : lengths.count (lengthOf lengths s) = (lengths.take s).count (lengthOf lengths s) +
      (lengths.drop s).count (lengthOf lengths s) := by
    rw [← List.count_append, List.take_append_drop]
  have hmem : 0 < (lengths.drop s).count (lengthOf lengths s) := by
    rw [List.count_pos_iff, List.drop_eq_getElem_cons hs, hget]
    exact List.mem_cons_self
  rw [rank, codes, if_neg hl]
  omega

/-- **Every rank below the number of codes of a length is taken**, by induction over the symbols
from the last one on. -/
theorem exists_rank {off : ℕ} (hl : l ≠ 0) (hoff : off < codes lengths l) :
    ∃ s < lengths.length, lengthOf lengths s = l ∧ rank lengths s = off := by
  rw [codes, if_neg hl] at hoff
  induction lengths using List.reverseRecOn with
  | nil => simp at hoff
  | append_singleton lengths x ih =>
    have hlast : lengthOf (lengths ++ [x]) lengths.length = x := by
      simp [lengthOf, List.getD_eq_getElem?_getD]
    by_cases hearlier : off < lengths.count l
    · obtain ⟨s, hs, hlength, hrank⟩ := ih hearlier
      have hsame : lengthOf (lengths ++ [x]) s = lengthOf lengths s := by
        rw [lengthOf, lengthOf, List.getD_append _ _ _ _ hs]
      refine ⟨s, ?_, hsame.trans hlength, ?_⟩
      · rw [List.length_append]
        omega
      · rw [rank, hsame, List.take_append_of_le_length hs.le]
        exact hrank
    · -- the last symbol is the next of its length
      rw [List.count_append, List.count_singleton] at hoff
      by_cases hx : x = l
      · rw [if_pos (beq_iff_eq.2 hx)] at hoff
        refine ⟨lengths.length, ?_, hlast.trans hx, ?_⟩
        · rw [List.length_append, List.length_singleton]
          omega
        · rw [rank, hlast, List.take_left, hx]
          omega
      · rw [if_neg (by rwa [beq_iff_eq])] at hoff
        omega

/-- **Every code is as long as it says.** -/
theorem code_lt (h : Fits lengths m) (hs : s < lengths.length) (hl : lengthOf lengths s ≠ 0)
    (hm : lengthOf lengths s ≤ m) : code lengths s < 2 ^ lengthOf lengths s := by
  have hfits := h.of_le hm
  have hrank := rank_lt hs hl
  rw [Fits, ← firstCode_add_codes] at hfits
  rw [code]
  omega

theorem codeBits_length (lengths : List ℕ) (s : ℕ) :
    (codeBits lengths s).length = lengthOf lengths s := by
  rw [codeBits, List.length_reverse, toBits_length]

/-- Codes of a length lie behind everything that begins with a shorter code. -/
theorem mul_le_firstCode {k : ℕ} (lengths : List ℕ) (l : ℕ) :
    2 ^ (k + 1) * (firstCode lengths l + codes lengths l) ≤ firstCode lengths (l + k + 1) := by
  induction k with
  | zero => exact le_rfl
  | succ k ih =>
    have hstep : firstCode lengths (l + (k + 1) + 1) =
        2 * (firstCode lengths (l + k + 1) + codes lengths (l + k + 1)) := rfl
    rw [hstep, pow_succ', Nat.mul_assoc]
    omega

/-- **A decoder does not stop early:** the first bits of a code are no shorter code. -/
theorem le_shiftRight_code (hl : l < lengthOf lengths s) :
    firstCode lengths l + codes lengths l ≤ code lengths s >>> (lengthOf lengths s - l) := by
  obtain ⟨k, hk⟩ : ∃ k, lengthOf lengths s = l + k + 1 := ⟨lengthOf lengths s - l - 1, by omega⟩
  have hle := @mul_le_firstCode k lengths l
  have hsub : lengthOf lengths s - l = k + 1 := by omega
  rw [Nat.shiftRight_eq_div_pow, hsub, Nat.le_div_iff_mul_le (by positivity), Nat.mul_comm]
  rw [code, hk]
  omega

/-! ### Positions -/

theorem countP_succ (hm : m ≠ 0) (lengths : List ℕ) :
    lengths.countP (fun l => decide (0 < l ∧ l < m + 1)) =
      lengths.countP (fun l => decide (0 < l ∧ l < m)) + lengths.count m := by
  induction lengths with
  | nil => rfl
  | cons l lengths ih =>
    rw [List.countP_cons, List.countP_cons, List.count_cons, ih]
    rcases Nat.lt_trichotomy l m with h | rfl | h
    · have hne : (l == m) = false := beq_false_of_ne h.ne
      have hsame : decide (0 < l ∧ l < m + 1) = decide (0 < l ∧ l < m) :=
        decide_eq_decide.2 (by omega)
      rw [hne, hsame]
      exact (Nat.add_right_comm _ _ _).symm
    · simp only [Nat.pos_of_ne_zero hm, lt_add_one, lt_irrefl, and_self, and_false, decide_true,
        decide_false, beq_self_eq_true, if_true]
      rfl
    · have hne : (l == m) = false := beq_false_of_ne h.ne'
      have hl : ¬ (0 < l ∧ l < m + 1) := by omega
      have hl' : ¬ (0 < l ∧ l < m) := by omega
      rw [hne, decide_eq_false hl, decide_eq_false hl']
      rfl

theorem shorter_eq_countP (lengths : List ℕ) (m : ℕ) :
    shorter lengths m = lengths.countP fun l => decide (0 < l ∧ l < m) := by
  induction m with
  | zero =>
    symm
    rw [shorter, List.countP_eq_zero]
    simp
  | succ m ih =>
    rw [shorter, codes]
    by_cases hm : m = 0
    · rw [if_pos hm, hm, shorter]
      symm
      rw [List.countP_eq_zero]
      intro l _ h
      have := of_decide_eq_true h
      omega
    · rw [if_neg hm, ih, countP_succ hm]

theorem shorter_le_length (lengths : List ℕ) (m : ℕ) : shorter lengths m ≤ lengths.length := by
  rw [shorter_eq_countP]
  exact List.countP_le_length

theorem shorter_mono (h : l ≤ m) : shorter lengths l ≤ shorter lengths m := by
  induction m, h using Nat.le_induction with
  | base => exact le_rfl
  | succ m _ ih => exact Nat.le_trans ih (Nat.le_add_right _ _)

theorem position_lt (hs : s < lengths.length) (hl : lengthOf lengths s ≠ 0) :
    position lengths s < lengths.length := by
  have hrank := rank_lt hs hl
  have hle := shorter_le_length lengths (lengthOf lengths s + 1)
  rw [shorter] at hle
  rw [position]
  omega

theorem rank_lt_rank (hst : s < t) (ht : t ≤ lengths.length)
    (hl : lengthOf lengths s = lengthOf lengths t) : rank lengths s < rank lengths t := by
  have hs : s < (lengths.take t).length := by
    rw [List.length_take]
    omega
  have hget : lengthOf lengths s = (lengths.take t)[s] := by
    rw [lengthOf, List.getD_eq_getElem _ _ (by omega), List.getElem_take]
  have htake : (lengths.take t).take s = lengths.take s := by
    rw [List.take_take, min_eq_left hst.le]
  have hsplit : (lengths.take t).count (lengthOf lengths t) =
      (lengths.take s).count (lengthOf lengths t) +
        ((lengths.take t).drop s).count (lengthOf lengths t) := by
    rw [← htake, ← List.count_append, List.take_append_drop]
  have hmem : 0 < ((lengths.take t).drop s).count (lengthOf lengths t) := by
    rw [List.count_pos_iff, List.drop_eq_getElem_cons hs, ← hl, hget]
    exact List.mem_cons_self
  rw [rank, rank, hl]
  omega

/-- **No two symbols share a position.** -/
theorem position_injective (hs : s < lengths.length) (ht : t < lengths.length)
    (hls : lengthOf lengths s ≠ 0) (hlt : lengthOf lengths t ≠ 0)
    (h : position lengths s = position lengths t) : s = t := by
  have hrs := rank_lt hs hls
  have hrt := rank_lt ht hlt
  unfold position at h
  rcases Nat.lt_trichotomy (lengthOf lengths s) (lengthOf lengths t) with hl | hl | hl
  · have hle := @shorter_mono lengths _ _ hl
    rw [shorter] at hle
    omega
  · rw [hl] at h
    rcases Nat.lt_trichotomy s t with hst | rfl | hts
    · have := rank_lt_rank hst ht.le hl
      omega
    · rfl
    · have := rank_lt_rank hts hs.le hl.symm
      omega
  · have hle := @shorter_mono lengths _ _ hl
    rw [shorter] at hle
    omega

end Canonical
end Lib
end Canforge
