/-
# Normalised texts

A valid text is a list of characters (`validUtf8_induction`), and stays one with another behind it.
A valid text without `\r` is not changed by `normalise`, nor is it in front of other lines; what
`normalise` leaves ends in an end of a line, and its lines begin where `line` looks for them
(`Source.line_eq`).
-/

import Canforge.Text.Source
import Mathlib.Data.List.DropRight

namespace Canforge
namespace Text

open Canforge.Core

/-! ### Characters -/

/-- The bytes of one character. -/
def IsCharacter (w : Text) : Prop := w ≠ [] ∧ utf8SequenceLength w = w.length

/-- The length of a character by its first byte, which is not below 0x80. -/
def needed (c : Byte) : ℕ :=
  if c &&& 0xE0 = 0xC0 then 2
  else if c &&& 0xF0 = 0xE0 then 3
  else if c &&& 0xF8 = 0xF0 then 4
  else 0

section

variable {s w rest : Text}

theorem utf8SequenceLength_cons (c : Byte) (rest : Text) : utf8SequenceLength (c :: rest) =
    if c < 0x80 then 1
    else if needed c = 0 ∨ rest.length + 1 < needed c then 0
    else if (rest.take (needed c - 1)).all fun b => b &&& 0xC0 = 0x80 then needed c
    else 0 := rfl

/-- What makes a sequence of more than one byte. -/
theorem utf8SequenceLength_ne_zero {c : Byte} (hc : ¬c < 0x80)
    (h : utf8SequenceLength (c :: rest) ≠ 0) :
    utf8SequenceLength (c :: rest) = needed c ∧ needed c ≠ 0 ∧ needed c ≤ rest.length + 1 ∧
      ((rest.take (needed c - 1)).all fun b => b &&& 0xC0 = 0x80) = true := by
  rw [utf8SequenceLength_cons, if_neg hc] at h ⊢
  split_ifs at h ⊢ with hshort hall
  · exact absurd rfl h
  · obtain ⟨hne, hle⟩ := not_or.1 hshort
    exact ⟨rfl, hne, not_lt.1 hle, hall⟩
  · exact absurd rfl h

theorem utf8SequenceLength_eq {c : Byte} (hc : ¬c < 0x80) (hne : needed c ≠ 0)
    (hle : needed c ≤ rest.length + 1)
    (hall : ((rest.take (needed c - 1)).all fun b => b &&& 0xC0 = 0x80) = true) :
    utf8SequenceLength (c :: rest) = needed c := by
  rw [utf8SequenceLength_cons, if_neg hc, if_neg (not_or.2 ⟨hne, not_lt.2 hle⟩), if_pos hall]

theorem utf8SequenceLength_le (s : Text) : utf8SequenceLength s ≤ s.length := by
  cases s with
  | nil => exact le_rfl
  | cons c rest =>
    by_cases hc : c < 0x80
    · rw [utf8SequenceLength_cons, if_pos hc]
      exact Nat.le_add_left 1 _
    · by_cases h : utf8SequenceLength (c :: rest) = 0
      · rw [h]
        exact Nat.zero_le _
      · obtain ⟨heq, -, hle, -⟩ := utf8SequenceLength_ne_zero hc h
        rw [heq]
        exact hle

/-- What stands behind a character is no part of it. -/
theorem utf8SequenceLength_append (h : utf8SequenceLength s ≠ 0) (rest : Text) :
    utf8SequenceLength (s ++ rest) = utf8SequenceLength s := by
  cases s with
  | nil => exact absurd rfl h
  | cons c s =>
    by_cases hc : c < 0x80
    · rw [List.cons_append, utf8SequenceLength_cons, utf8SequenceLength_cons, if_pos hc, if_pos hc]
    · obtain ⟨heq, hne, hle, hall⟩ := utf8SequenceLength_ne_zero hc h
      rw [heq, List.cons_append]
      refine utf8SequenceLength_eq hc hne ?_ ?_
      · rw [List.length_append]
        omega
      · rwa [List.take_append_of_le_length (by omega)]

/-- A character is one byte below 0x80, or all of its bytes are from there on. -/
theorem IsCharacter.cases (h : IsCharacter w) :
    (∃ c, w = [c] ∧ c < 0x80) ∨ ∀ c ∈ w, 0x80 ≤ c := by
  obtain ⟨hne, hlength⟩ := h
  obtain ⟨c, rest, rfl⟩ := List.exists_cons_of_ne_nil hne
  by_cases hc : c < 0x80
  · rw [utf8SequenceLength_cons, if_pos hc, List.length_cons] at hlength
    have hnil : rest = [] := List.length_eq_zero_iff.1 (by omega)
    exact .inl ⟨c, by rw [hnil], hc⟩
  · obtain ⟨heq, -, -, hall⟩ := utf8SequenceLength_ne_zero hc (by rw [hlength]; simp)
    have hneed : needed c - 1 = rest.length := by
      rw [← heq, hlength]
      rfl
    have hhigh : ∀ b : Byte, b &&& 0xC0 = 0x80 → 0x80 ≤ b := by decide +kernel
    rw [hneed, List.take_length, List.all_eq_true] at hall
    refine .inr fun b hb => ?_
    rcases List.mem_cons.1 hb with rfl | hb
    · exact BitVec.not_lt.1 hc
    · exact hhigh b (by simpa using hall b hb)

theorem isCharacter_take (h : utf8SequenceLength s ≠ 0) :
    IsCharacter (s.take (utf8SequenceLength s)) := by
  have hlength : (s.take (utf8SequenceLength s)).length = utf8SequenceLength s :=
    List.length_take_of_le (utf8SequenceLength_le s)
  refine ⟨List.ne_nil_of_length_pos (by omega), ?_⟩
  rw [hlength]
  cases s with
  | nil => exact absurd rfl h
  | cons c rest =>
    by_cases hc : c < 0x80
    · rw [utf8SequenceLength_cons, if_pos hc, List.take_succ_cons, utf8SequenceLength_cons,
        if_pos hc]
    · obtain ⟨heq, hne, hle, hall⟩ := utf8SequenceLength_ne_zero hc h
      obtain ⟨n, hn⟩ := Nat.exists_eq_succ_of_ne_zero hne
      rw [heq]
      rw [hn] at hall hle
      rw [hn, List.take_succ_cons, ← hn]
      refine utf8SequenceLength_eq hc hne ?_ ?_
      · rw [List.length_take, hn]
        omega
      · rw [hn, List.take_take]
        simpa using hall

/-! ### Valid texts -/

theorem isValidUtf8From_cons (fuel : ℕ) (c : Byte) (rest : Text) :
    isValidUtf8From (fuel + 1) (c :: rest) =
      if utf8SequenceLength (c :: rest) = 0 then false
      else isValidUtf8From fuel ((c :: rest).drop (utf8SequenceLength (c :: rest))) := rfl

theorem isValidUtf8From_congr {fuel fuel' : ℕ} (h : s.length ≤ fuel) (h' : s.length ≤ fuel') :
    isValidUtf8From fuel s = isValidUtf8From fuel' s := by
  induction fuel generalizing fuel' s with
  | zero =>
    obtain rfl := List.length_eq_zero_iff.1 (Nat.le_zero.1 h)
    cases fuel' <;> rfl
  | succ fuel ih =>
    cases s with
    | nil => cases fuel' <;> rfl
    | cons c rest =>
      cases fuel' with
      | zero => exact absurd h' (Nat.not_succ_le_zero _)
      | succ fuel' =>
        rw [isValidUtf8From_cons, isValidUtf8From_cons]
        split_ifs with hzero
        · rfl
        · refine ih ?_ ?_
          · rw [List.length_drop]
            omega
          · rw [List.length_drop]
            omega

/-- A valid text begins with a character. -/
theorem isValidUtf8_eq (h : s ≠ []) : isValidUtf8 s =
    (decide (utf8SequenceLength s ≠ 0) && isValidUtf8 (s.drop (utf8SequenceLength s))) := by
  obtain ⟨c, rest, rfl⟩ := List.exists_cons_of_ne_nil h
  rw [isValidUtf8, List.length_cons, isValidUtf8From_cons]
  split_ifs with hzero
  · simp [hzero]
  · rw [decide_eq_true hzero, Bool.true_and]
    refine isValidUtf8From_congr ?_ le_rfl
    rw [List.length_drop, List.length_cons]
    omega

/-- A text behind a character. -/
theorem isValidUtf8_append_character (h : IsCharacter w) (rest : Text) :
    isValidUtf8 (w ++ rest) = isValidUtf8 rest := by
  obtain ⟨hne, hlength⟩ := h
  have hzero : utf8SequenceLength w ≠ 0 := hlength ▸ (List.length_pos_of_ne_nil hne).ne'
  rw [isValidUtf8_eq (List.append_ne_nil_of_left_ne_nil hne rest), utf8SequenceLength_append hzero,
    decide_eq_true hzero, Bool.true_and, hlength, List.drop_left]

/-- **A valid text is characters behind each other.** -/
theorem validUtf8_induction {P : Text → Prop} (nil : P [])
    (character : ∀ w rest, IsCharacter w → P rest → P (w ++ rest))
    (s : Text) (h : isValidUtf8 s = true) : P s := by
  induction hn : s.length using Nat.strong_induction_on generalizing s with
  | _ n ih =>
    by_cases hs : s = []
    · rw [hs]
      exact nil
    · rw [isValidUtf8_eq hs, Bool.and_eq_true, decide_eq_true_eq] at h
      have hrest := ih _ (by
        rw [← hn, List.length_drop]
        have := List.length_pos_of_ne_nil hs
        omega) _ h.2 rfl
      have := character _ _ (isCharacter_take h.1) hrest
      rwa [List.take_append_drop] at this

theorem isValidUtf8_append (h : isValidUtf8 s = true) (h' : isValidUtf8 rest = true) :
    isValidUtf8 (s ++ rest) = true := by
  refine validUtf8_induction (P := fun s => isValidUtf8 (s ++ rest) = true) h' ?_ s h
  intro w v hw ih
  rwa [List.append_assoc, isValidUtf8_append_character hw]

theorem isCharacter_ascii {c : Byte} (h : c < 0x80) : IsCharacter [c] :=
  ⟨List.cons_ne_nil _ _, by rw [utf8SequenceLength, if_pos h]; rfl⟩

theorem isValidUtf8_ascii (h : ∀ c ∈ s, c < 0x80) : isValidUtf8 s = true := by
  induction s with
  | nil => rfl
  | cons c s ih =>
    have hs := isValidUtf8_append_character (isCharacter_ascii (h c List.mem_cons_self)) s
    exact hs.trans (ih fun d hd => h d (List.mem_cons_of_mem _ hd))

/-! ### The steps of `normalise` -/

theorem convertNewlines_cons {c : Byte} (hc : c ≠ cr) (rest : Text) :
    convertNewlines (c :: rest) = c :: convertNewlines rest := by
  cases rest with
  | nil => simp [convertNewlines, hc]
  | cons d rest => rw [convertNewlines, if_neg hc]

/-- A text without `\r` stays in front of what is converted. -/
theorem convertNewlines_append (h : cr ∉ w) (rest : Text) :
    convertNewlines (w ++ rest) = w ++ convertNewlines rest := by
  induction w with
  | nil => rfl
  | cons c w ih =>
    obtain ⟨hc, hw⟩ := not_or.1 (mt List.mem_cons.2 h)
    rw [List.cons_append, convertNewlines_cons (Ne.symm hc), ih hw, List.cons_append]

theorem convertNewlines_head {c : Byte} (h : c ∈ (convertNewlines s).head?) :
    c = lf ∨ c ∈ s.head? := by
  cases s with
  | nil => cases h
  | cons d s =>
    by_cases hd : d = cr
    · subst hd
      cases s with
      | nil => exact .inl (Option.some.inj h).symm
      | cons e s =>
        rw [convertNewlines, if_pos rfl] at h
        exact .inl (Option.some.inj h).symm
    · rw [convertNewlines_cons hd] at h
      exact .inr h

namespace Source

variable (bytes name : Text)

/-- A text whose last line is ended. -/
def ended (out : Text) : Text :=
  if (!out.isEmpty && decide (out.getLast? ≠ some lf)) = true then out ++ [lf] else out

theorem ended_getLast? (out : Text) : ∀ c ∈ (ended out).getLast?, c = lf := by
  intro c hc
  unfold ended at hc
  split_ifs at hc with h
  · rw [List.getLast?_concat] at hc
    exact (Option.some.inj hc).symm
  · cases out with
    | nil => cases hc
    | cons d out =>
      have hlast : (d :: out).getLast? = some lf := by simpa using h
      rw [hlast] at hc
      exact (Option.some.inj hc).symm

theorem ended_eq {out : Text} (h : ∀ c ∈ out.getLast?, c = lf) : ended out = out := by
  refine if_neg fun hopen => ?_
  obtain ⟨hne, hlast⟩ := Bool.and_eq_true_iff.1 hopen
  cases hget : out.getLast? with
  | none => simp [List.getLast?_eq_none_iff.1 hget] at hne
  | some c => simp [hget, h c hget] at hlast

/-- What stands in front of the last line stays there. -/
theorem ended_append (front out : Text) : ∃ more, ended (front ++ out) = front ++ more ∧
    ∀ c ∈ more.head?, c = lf ∨ c ∈ out.head? := by
  unfold ended
  split_ifs
  · refine ⟨out ++ [lf], List.append_assoc _ _ _, fun c hc => ?_⟩
    cases out with
    | nil => exact .inl (Option.some.inj hc).symm
    | cons d out => exact .inr hc
  · exact ⟨out, rfl, fun c hc => .inr hc⟩

/-- **What `normalise` leaves ends in an end of a line.** -/
theorem normalise_getLast? : ∀ c ∈ (normalise bytes name).text.getLast?, c = lf :=
  ended_getLast? _

variable {bytes}

/-- A valid text that does not begin with the mark is converted as it is. -/
theorem normalise_valid (hbom : bytes.take 3 ≠ bom) (hvalid : isValidUtf8 bytes = true) :
    (normalise bytes name).text = ended (convertNewlines bytes) := by
  unfold normalise
  dsimp only
  rw [decide_eq_false hbom, if_neg Bool.false_ne_true, hvalid]
  rfl

theorem normalise_newlines (n : ℕ) (name : Text) :
    (normalise (List.replicate n lf) name).text = List.replicate n lf := by
  have hmem : ∀ c ∈ List.replicate n lf, c = lf := fun c hc => List.eq_of_mem_replicate hc
  have hbom : (List.replicate n lf).take 3 ≠ bom := by
    intro h
    have h0 : (0xEF : Byte) ∈ (List.replicate n lf).take 3 := by rw [h]; decide
    exact absurd (hmem _ (List.mem_of_mem_take h0)) (by decide)
  have hvalid : isValidUtf8 (List.replicate n lf) = true :=
    isValidUtf8_ascii fun c hc => by rw [hmem c hc]; decide
  have hcr : cr ∉ List.replicate n lf := fun h => absurd (hmem _ h) (by decide)
  have hconvert := convertNewlines_append hcr []
  rw [List.append_nil, convertNewlines, List.append_nil] at hconvert
  rw [normalise_valid name hbom hvalid, hconvert]
  exact ended_eq fun c hc => hmem c (List.mem_of_getLast? hc)

end Source

/-! ### Lines -/

/-- What stands on the last line of a text. -/
def lineHead (before : Text) : Text := before.rtakeWhile (· != lf)

/-- What stands on the first line of a text. -/
def lineTail (after : Text) : Text := after.takeWhile (· != lf)

/-- The start of the line behind an end of a line, if the text goes on there. -/
def startBehind (n : ℕ) (p : Byte × ℕ) : Option ℕ :=
  if p.1 = lf ∧ p.2 + 1 < n then some (p.2 + 1) else none

theorem length_starts {n k : ℕ} (h : k + w.length < n) :
    ((w.zipIdx k).filterMap (startBehind n)).length = w.count lf := by
  induction w generalizing k with
  | nil => rfl
  | cons c w ih =>
    rw [List.length_cons] at h
    have hw := ih (k := k + 1) (by omega)
    rw [List.zipIdx_cons]
    by_cases hc : c = lf
    · have hstart : startBehind n (c, k) = some (k + 1) := if_pos ⟨hc, by dsimp only; omega⟩
      rw [List.filterMap_cons_some hstart, List.length_cons, hw, hc, List.count_cons_self]
    · have hstart : startBehind n (c, k) = none := if_neg fun h => hc h.1
      rw [List.filterMap_cons_none hstart, hw, List.count_cons_of_ne (by simpa using hc)]

/-- The last line of a text begins behind the last end of a line in it. -/
theorem lineHead_cases (before : Text) : lineHead before = before ∧ before.count lf = 0 ∨
    ∃ front, before = front ++ lf :: lineHead before ∧ before.count lf = front.count lf + 1 := by
  have hsplit := List.rdropWhile_append_rtakeWhile (p := (· != lf)) (l := before)
  have hnone : (lineHead before).count lf = 0 := by
    refine List.count_eq_zero.2 fun hmem => ?_
    exact absurd (List.mem_rtakeWhile_imp hmem) (by simp)
  by_cases hnil : before.rdropWhile (· != lf) = []
  · have hall : lineHead before = before := by
      rw [hnil, List.nil_append] at hsplit
      exact hsplit
    exact .inl ⟨hall, hall ▸ hnone⟩
  · obtain ⟨front, c, hfront⟩ := (List.eq_nil_or_concat' _).resolve_left hnil
    have hc : c = lf := by
      have := List.rdropWhile_last_not (· != lf) before hnil
      simpa [hfront] using this
    have heq : before = front ++ lf :: lineHead before := by
      rw [hfront, hc, List.append_assoc] at hsplit
      exact hsplit.symm
    refine .inr ⟨front, heq, ?_⟩
    rw [heq, List.count_append, List.count_cons_self, hnone]

/-- Nothing stands behind the end of the last line. -/
theorem lineHead_ended {text : Text} (h : ∀ c ∈ text.getLast?, c = lf) : lineHead text = [] := by
  rcases List.eq_nil_or_concat' text with rfl | ⟨front, c, rfl⟩
  · rfl
  · have hc : c = lf := h c (by simp)
    rw [lineHead, hc, List.rtakeWhile_concat_neg _ _ _ (by simp)]

theorem lineStartsOf_eq (text : Text) :
    lineStartsOf text = 0 :: text.zipIdx.filterMap (startBehind text.length) := rfl

/-- **Where a line begins.** -/
theorem lineStartsOf_count {before after : Text} (h : after ≠ []) :
    (lineStartsOf (before ++ after))[before.count lf]? =
      some (before.length - (lineHead before).length) := by
  rw [lineStartsOf_eq]
  rcases lineHead_cases before with ⟨hhead, hcount⟩ | ⟨front, heq, hcount⟩
  · rw [hcount, hhead, Nat.sub_self]
    rfl
  · have hpos := List.length_pos_of_ne_nil h
    have hlength : before.length = front.length + 1 + (lineHead before).length := by
      have := congrArg List.length heq
      rw [List.length_append, List.length_cons] at this
      omega
    generalize hn : (before ++ after).length = n
    rw [List.length_append] at hn
    have hfront : ((front.zipIdx).filterMap (startBehind n)).length = front.count lf :=
      length_starts (by omega)
    have hstart : startBehind n (lf, front.length) = some (front.length + 1) :=
      if_pos ⟨rfl, by dsimp only; omega⟩
    have hzip : (before ++ after).zipIdx =
        front.zipIdx ++ (lf, front.length) :: (lineHead before ++ after).zipIdx (front.length + 1) := by
      have happend : before ++ after = front ++ lf :: (lineHead before ++ after) := by
        conv_lhs => rw [heq]
        simp
      rw [happend, List.zipIdx_append, List.zipIdx_cons, Nat.zero_add]
    rw [hcount, List.getElem?_cons_succ, hzip, List.filterMap_append,
      List.getElem?_append_right hfront.le, hfront, Nat.sub_self, List.filterMap_cons_some hstart]
    exact congrArg some (by omega)

/-- A text whose last line is ended has as many lines as ends of lines. -/
theorem length_lineStartsOf {text : Text} (hne : text ≠ []) (h : ∀ c ∈ text.getLast?, c = lf) :
    (lineStartsOf text).length = text.count lf := by
  obtain ⟨front, c, rfl⟩ := (List.eq_nil_or_concat' text).resolve_left hne
  obtain rfl : c = lf := h c (by simp)
  have hfront : ((front.zipIdx).filterMap (startBehind (front ++ [lf]).length)).length =
      front.count lf := length_starts (by simp)
  have hlast : startBehind (front ++ [lf]).length (lf, front.length) = none :=
    if_neg fun h => by simp at h
  rw [lineStartsOf_eq, List.zipIdx_append, List.filterMap_append, List.length_cons,
    List.length_append, hfront, List.zipIdx_singleton, Nat.zero_add, List.filterMap_cons_none hlast,
    List.count_append, List.count_singleton_self]
  rfl

/-- **`line` gives the text of a line.** -/
theorem Source.line_eq {s : Source} (hstarts : s.lineStarts = lineStartsOf s.text)
    (hended : ∀ c ∈ s.text.getLast?, c = lf) (hlength : s.text.length < 2 ^ 32)
    {before after : Text} (htext : s.text = before ++ after) :
    s.line (BitVec.ofNat 32 (1 + before.count lf)) = lineHead before ++ lineTail after := by
  have hcount : before.count lf ≤ before.length := List.count_le_length
  have hle := congrArg List.length htext
  rw [List.length_append] at hle
  have htoNat : (BitVec.ofNat 32 (1 + before.count lf)).toNat = (1 + before.count lf) % 2 ^ 32 :=
    BitVec.toNat_ofNat _ _
  unfold line
  rw [hstarts]
  by_cases hafter : after = []
  · subst hafter
    rw [List.append_nil] at htext
    subst htext
    by_cases hnil : s.text = []
    · rw [hnil]
      rfl
    · -- behind the end of the last line
      rw [lineHead_ended hended, if_pos]
      · rfl
      · rw [length_lineStartsOf hnil hended, htoNat]
        by_cases hwrap : 1 + s.text.count lf = 2 ^ 32
        · rw [hwrap]
          exact .inl rfl
        · right
          rw [Nat.mod_eq_of_lt (by omega)]
          omega
  · have hpos := List.length_pos_of_ne_nil hafter
    have hsmall : (1 + before.count lf) % 2 ^ 32 = 1 + before.count lf :=
      Nat.mod_eq_of_lt (by omega)
    have hstart := @lineStartsOf_count before after hafter
    obtain ⟨hlt, -⟩ := List.getElem?_eq_some_iff.1 hstart
    have hline : ¬(BitVec.ofNat 32 (1 + before.count lf) = 0 ∨
        (lineStartsOf s.text).length < (BitVec.ofNat 32 (1 + before.count lf)).toNat) := by
      rw [htoNat, hsmall, htext]
      rintro (hzero | hlt')
      · have := congrArg BitVec.toNat hzero
        rw [htoNat, hsmall] at this
        exact absurd this (by simp)
      · omega
    have hdrop : (before ++ after).drop (before.length - (lineHead before).length) =
        lineHead before ++ after := by
      have hsplit : before.rdropWhile (· != lf) ++ lineHead before = before :=
        List.rdropWhile_append_rtakeWhile
      have hlen : before.length - (lineHead before).length =
          (before.rdropWhile (· != lf)).length := by
        have := congrArg List.length hsplit
        rw [List.length_append] at this
        omega
      calc (before ++ after).drop (before.length - (lineHead before).length)
          = (before.rdropWhile (· != lf) ++ lineHead before ++ after).drop
              (before.rdropWhile (· != lf)).length := by rw [hlen, hsplit]
        _ = lineHead before ++ after := by rw [List.append_assoc, List.drop_left]
    have hhead : ∀ c ∈ lineHead before, (c != lf) = true := fun c hc =>
      List.mem_rtakeWhile_imp (p := (· != lf)) hc
    rw [if_neg hline, htoNat, hsmall, Nat.add_sub_cancel_left, List.getD_eq_getElem?_getD, htext,
      hstart, Option.getD_some, hdrop, List.takeWhile_append_of_pos hhead]
    rfl

end

end Text
end Canforge
