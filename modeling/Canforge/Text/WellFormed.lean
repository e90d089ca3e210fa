/-
# Valid and well-formed texts

`is_valid_utf8` asks for lead bytes with their continuation bytes, and takes overlong forms,
surrogates and what is above U+10FFFF for characters.  A text of such sequences is kept as it is,
and no other one goes wrong: Latin-1 is transcoded to a well-formed text, and the ends of lines of
one are converted within it (`utf8_exact_iff`).
-/

import Canforge.Lib.Utf8
import Canforge.Text.Normalise

namespace Canforge
namespace Text

open Canforge.Core Lib.Utf8

/-- The bytes of a text as numbers. -/
def octets (s : Text) : List ℕ := s.map BitVec.toNat

/-- A text of lead bytes with their continuation bytes, one of which is no character. -/
def Deceives (s : Text) : Prop :=
  ∃ ws : List (List ℕ), (∀ w ∈ ws, Sequence w) ∧ ws.flatten = octets s ∧ ∃ w ∈ ws, Excluded w

section

variable {s w : Text}

theorem octets_append (a b : Text) : octets (a ++ b) = octets a ++ octets b := List.map_append

/-! ### What the code takes for a character -/

/-- What the code does with the bits of a byte, by the number of the byte. -/
theorem byte_kinds (c : Byte) :
    (¬c < 0x80 → needed c = 0 ∨ (needed c = 2 ∧ 0xC0 ≤ c.toNat ∧ c.toNat ≤ 0xDF) ∨
      (needed c = 3 ∧ 0xE0 ≤ c.toNat ∧ c.toNat ≤ 0xEF) ∨
      (needed c = 4 ∧ 0xF0 ≤ c.toNat ∧ c.toNat ≤ 0xF7)) ∧
    ((0xC0 ≤ c.toNat → c.toNat ≤ 0xDF → needed c = 2) ∧
      (0xE0 ≤ c.toNat → c.toNat ≤ 0xEF → needed c = 3) ∧
      (0xF0 ≤ c.toNat → c.toNat ≤ 0xF7 → needed c = 4)) ∧
    (c &&& 0xC0 = 0x80 ↔ Tail c.toNat) ∧
    (¬c < 0x80 → 0xC2 ≤ (0xC0 ||| c >>> 6).toNat ∧ (0xC0 ||| c >>> 6).toNat ≤ 0xC3 ∧
      Tail (0x80 ||| c &&& 0x3F).toNat) := by
  unfold Tail
  revert c
  decide +kernel

theorem needed_cases (c : Byte) (hc : ¬c < 0x80) : needed c = 0 ∨
    (needed c = 2 ∧ 0xC0 ≤ c.toNat ∧ c.toNat ≤ 0xDF) ∨
    (needed c = 3 ∧ 0xE0 ≤ c.toNat ∧ c.toNat ≤ 0xEF) ∨
    (needed c = 4 ∧ 0xF0 ≤ c.toNat ∧ c.toNat ≤ 0xF7) :=
  (byte_kinds c).1 hc

theorem needed_eq (c : Byte) : (0xC0 ≤ c.toNat → c.toNat ≤ 0xDF → needed c = 2) ∧
    (0xE0 ≤ c.toNat → c.toNat ≤ 0xEF → needed c = 3) ∧
    (0xF0 ≤ c.toNat → c.toNat ≤ 0xF7 → needed c = 4) :=
  (byte_kinds c).2.1

theorem tail_iff (b : Byte) : b &&& 0xC0 = 0x80 ↔ Tail b.toNat := (byte_kinds b).2.2.1

/-- **What the code takes for a character** is a lead byte with its continuation bytes. -/
theorem isCharacter_iff : IsCharacter w ↔ Sequence (octets w) := by
  constructor
  · rintro ⟨hne, hlength⟩
    obtain ⟨c, rest, rfl⟩ := List.exists_cons_of_ne_nil hne
    by_cases hc : c < 0x80
    · rw [utf8SequenceLength_cons, if_pos hc, List.length_cons] at hlength
      obtain rfl : rest = [] := List.length_eq_zero_iff.1 (by omega)
      exact .one (Nat.le_of_lt_succ hc)
    · obtain ⟨heq, hzero, -, hall⟩ := utf8SequenceLength_ne_zero hc (by rw [hlength]; simp)
      have hneed : needed c - 1 = rest.length := by
        rw [← heq, hlength]
        rfl
      rw [hneed, List.take_length, List.all_eq_true] at hall
      have htail : ∀ b ∈ rest, Tail b.toNat := fun b hb => (tail_iff b).1 (by simpa using hall b hb)
      rcases needed_cases c hc with hnone | ⟨htwo, hle⟩ | ⟨hthree, hle⟩ | ⟨hfour, hle⟩
      · exact absurd hnone hzero
      · obtain ⟨b, rfl⟩ := List.length_eq_one_iff.1 (show rest.length = 1 by omega)
        exact .two hle.1 hle.2 (htail b (by simp))
      · obtain ⟨b, d, rfl⟩ := List.length_eq_two.1 (show rest.length = 2 by omega)
        exact .three hle.1 hle.2 (htail b (by simp)) (htail d (by simp))
      · obtain ⟨b, d, e, rfl⟩ := List.length_eq_three.1 (show rest.length = 3 by omega)
        exact .four hle.1 hle.2 (htail b (by simp)) (htail d (by simp)) (htail e (by simp))
  · intro h
    -- a lead byte and its continuation bytes are what the length asks for
    have hlead : ∀ (c : Byte) (rest : Text), 0xC0 ≤ c.toNat → needed c = rest.length + 1 →
        (∀ b ∈ rest, Tail b.toNat) → IsCharacter (c :: rest) := by
      intro c rest hc hneed htail
      have hhigh : ¬c < 0x80 := fun hlt => absurd (BitVec.lt_def.1 hlt) (by simp; omega)
      refine ⟨List.cons_ne_nil _ _, ?_⟩
      rw [utf8SequenceLength_eq hhigh (by omega) hneed.le, hneed, List.length_cons]
      rw [List.all_eq_true]
      intro b hb
      rw [decide_eq_true_eq]
      exact (tail_iff b).2 (htail b (List.mem_of_mem_take hb))
    generalize hw : octets w = o at h
    cases h with
    | one ha =>
      obtain ⟨c, v₀, rfl, rfl, hv₀⟩ := List.map_eq_cons_iff.1 hw
      obtain rfl := List.map_eq_nil_iff.1 hv₀
      exact isCharacter_ascii (BitVec.lt_def.2 (Nat.lt_succ_of_le ha))
    | two ha ha' hb =>
      obtain ⟨c, v₀, rfl, rfl, hv₀⟩ := List.map_eq_cons_iff.1 hw
      obtain ⟨b, v₁, rfl, rfl, hv₁⟩ := List.map_eq_cons_iff.1 hv₀
      obtain rfl := List.map_eq_nil_iff.1 hv₁
      exact hlead c [b] ha ((needed_eq c).1 ha ha') (by simpa using hb)
    | three ha ha' hb hd =>
      obtain ⟨c, v₀, rfl, rfl, hv₀⟩ := List.map_eq_cons_iff.1 hw
      obtain ⟨b, v₁, rfl, rfl, hv₁⟩ := List.map_eq_cons_iff.1 hv₀
      obtain ⟨d, v₂, rfl, rfl, hv₂⟩ := List.map_eq_cons_iff.1 hv₁
      obtain rfl := List.map_eq_nil_iff.1 hv₂
      exact hlead c [b, d] (by omega) ((needed_eq c).2.1 ha ha') (by simpa using ⟨hb, hd⟩)
    | four ha ha' hb hd he =>
      obtain ⟨c, v₀, rfl, rfl, hv₀⟩ := List.map_eq_cons_iff.1 hw
      obtain ⟨b, v₁, rfl, rfl, hv₁⟩ := List.map_eq_cons_iff.1 hv₀
      obtain ⟨d, v₂, rfl, rfl, hv₂⟩ := List.map_eq_cons_iff.1 hv₁
      obtain ⟨e, v₃, rfl, rfl, hv₃⟩ := List.map_eq_cons_iff.1 hv₂
      obtain rfl := List.map_eq_nil_iff.1 hv₃
      exact hlead c [b, d, e] (by omega) ((needed_eq c).2.2 ha ha') (by simpa using ⟨hb, hd, he⟩)

theorem isValidUtf8_iff : isValidUtf8 s = true ↔
    ∃ ws : List (List ℕ), (∀ w ∈ ws, Sequence w) ∧ ws.flatten = octets s := by
  constructor
  · refine validUtf8_induction (P := fun s => ∃ ws : List (List ℕ), (∀ w ∈ ws, Sequence w) ∧
      ws.flatten = octets s) ⟨[], by simp, rfl⟩ ?_ s
    rintro w rest hw ⟨ws, hws, hflatten⟩
    refine ⟨octets w :: ws, List.forall_mem_cons.2 ⟨isCharacter_iff.1 hw, hws⟩, ?_⟩
    rw [List.flatten_cons, hflatten, octets_append]
  · rintro ⟨ws, hws, hflatten⟩
    induction ws generalizing s with
    | nil =>
      obtain rfl : s = [] := List.map_eq_nil_iff.1 hflatten.symm
      rfl
    | cons w ws ih =>
      obtain ⟨hw, htail⟩ := List.forall_mem_cons.1 hws
      obtain ⟨v, rest, rfl, rfl, hrest⟩ := List.map_eq_append_iff.1 hflatten.symm
      rw [isValidUtf8_append_character (isCharacter_iff.2 hw)]
      exact ih htail hrest.symm

/-- A well-formed text is valid. -/
theorem isValidUtf8_of_wellFormed (h : WellFormed (octets s)) : isValidUtf8 s = true := by
  obtain ⟨ws, hws, hflatten⟩ := wellFormed_iff.1 h
  exact isValidUtf8_iff.2 ⟨ws, fun w hw => (hws w hw).sequence.1, hflatten⟩

/-- A valid text is well formed, or one that deceives. -/
theorem wellFormed_of_isValidUtf8 (h : isValidUtf8 s = true) (hs : ¬Deceives s) :
    WellFormed (octets s) := by
  obtain ⟨ws, hws, hflatten⟩ := isValidUtf8_iff.1 h
  refine wellFormed_iff.2 ⟨ws, fun w hw => ?_, hflatten⟩
  exact (hws w hw).isChar fun hexcluded => hs ⟨ws, hws, hflatten, w, hw, hexcluded⟩

/-! ### What `normalise` keeps -/

theorem wellFormed_ascii {c : Byte} (h : c < 0x80) : WellFormed (octets [c]) :=
  (Sequence.isChar (.one (Nat.le_of_lt_succ h)) id).wellFormed

/-- A byte of Latin-1 from 0x80 on is encoded in two. -/
theorem latin1_two (c : Byte) (hc : ¬c < 0x80) :
    0xC2 ≤ (0xC0 ||| c >>> 6).toNat ∧ (0xC0 ||| c >>> 6).toNat ≤ 0xC3 ∧
      Tail (0x80 ||| c &&& 0x3F).toNat :=
  (byte_kinds c).2.2.2 hc

theorem wellFormed_latin1ToUtf8 (s : Text) : WellFormed (octets (latin1ToUtf8 s)) := by
  induction s with
  | nil => exact ⟨[], by simp, rfl⟩
  | cons c s ih =>
    rw [latin1ToUtf8, List.flatMap_cons, octets_append]
    refine WellFormed.append ?_ ih
    split_ifs with hc
    · exact wellFormed_ascii hc
    · obtain ⟨hlow, hhigh, htail⟩ := latin1_two c hc
      refine (Sequence.isChar (.two (by omega) (by omega) htail) ?_).wellFormed
      simp only [Excluded]
      omega

/-- The characters of a well-formed text. -/
theorem exists_characters (h : WellFormed (octets s)) :
    ∃ ws : List Text, (∀ w ∈ ws, IsChar (octets w)) ∧ ws.flatten = s := by
  obtain ⟨ws, hws, hflatten⟩ := wellFormed_iff.1 h
  clear h
  induction ws generalizing s with
  | nil =>
    obtain rfl : s = [] := List.map_eq_nil_iff.1 hflatten.symm
    exact ⟨[], by simp, rfl⟩
  | cons w ws ih =>
    obtain ⟨hw, htail⟩ := List.forall_mem_cons.1 hws
    obtain ⟨v, rest, rfl, rfl, hrest⟩ := List.map_eq_append_iff.1 hflatten.symm
    obtain ⟨vs, hvs, rfl⟩ := ih htail hrest.symm
    exact ⟨v :: vs, List.forall_mem_cons.2 ⟨hw, hvs⟩, rfl⟩

/-- A byte below 0x80 is a character of its own. -/
theorem eq_singleton_of_ascii {c : Byte} (h : IsChar (octets w)) (hc : c ∈ w) (hlow : c < 0x80) :
    w = [c] := by
  rcases (isCharacter_iff.2 h.sequence.1).cases with ⟨d, rfl, -⟩ | hhigh
  · rw [List.mem_singleton.1 hc]
  · exact absurd hlow (BitVec.not_lt.2 (hhigh c hc))

theorem wellFormed_convertNewlines_flatten (ws : List Text) (h : ∀ w ∈ ws, IsChar (octets w)) :
    WellFormed (octets (convertNewlines ws.flatten)) := by
  have hlf : WellFormed (octets [lf]) := wellFormed_ascii (by decide)
  have hbehind : ∀ rest : Text, WellFormed (octets rest) → WellFormed (octets (lf :: rest)) :=
    fun rest hrest => hlf.append hrest
  induction hn : ws.length using Nat.strong_induction_on generalizing ws with
  | _ n ih =>
    cases ws with
    | nil => exact ⟨[], by simp, rfl⟩
    | cons w ws =>
      obtain ⟨hw, hws⟩ := List.forall_mem_cons.1 h
      have hshort := ih ws.length (by rw [← hn]; simp) ws hws rfl
      by_cases hcr : cr ∈ w
      · obtain rfl := eq_singleton_of_ascii hw hcr (by decide)
        cases ws with
        | nil => exact hlf
        | cons w' ws =>
          obtain ⟨hw', hws'⟩ := List.forall_mem_cons.1 hws
          by_cases hpair : lf ∈ w'
          · obtain rfl := eq_singleton_of_ascii hw' hpair (by decide)
            have hpair' : convertNewlines (List.flatten ([cr] :: [lf] :: ws)) =
                lf :: convertNewlines ws.flatten := rfl
            rw [hpair']
            exact hbehind _ (ih ws.length (by rw [← hn]; simp) ws hws' rfl)
          · obtain ⟨d, v, hdv, -⟩ := hw'.sequence.1.length_eq
            obtain ⟨d, v, rfl, -, -⟩ := List.map_eq_cons_iff.1 hdv
            have hd : d ≠ lf := fun heq => hpair (heq ▸ List.mem_cons_self)
            have hconvert : convertNewlines (List.flatten ([cr] :: (d :: v) :: ws)) =
                lf :: convertNewlines (List.flatten ((d :: v) :: ws)) := by
              rw [List.flatten_cons, List.flatten_cons, List.singleton_append, List.cons_append,
                convertNewlines, if_pos rfl, if_neg hd]
            rw [hconvert]
            exact hbehind _ hshort
      · rw [List.flatten_cons, convertNewlines_append hcr, octets_append]
        exact hw.wellFormed.append hshort

theorem wellFormed_convertNewlines (h : WellFormed (octets s)) :
    WellFormed (octets (convertNewlines s)) := by
  obtain ⟨ws, hws, rfl⟩ := exists_characters h
  exact wellFormed_convertNewlines_flatten ws hws

theorem wellFormed_ended (h : WellFormed (octets s)) : WellFormed (octets (Source.ended s)) := by
  unfold Source.ended
  split_ifs
  · rw [octets_append]
    exact h.append (wellFormed_ascii (by decide))
  · exact h

/-- Behind a byte order mark. -/
theorem Deceives.of_bom (h : Deceives s) : Deceives (Source.bom ++ s) := by
  obtain ⟨ws, hws, hflatten, w, hw, hexcluded⟩ := h
  have hbom : Sequence (octets Source.bom) := isCharacter_iff.1 ⟨by decide, by decide⟩
  refine ⟨octets Source.bom :: ws, List.forall_mem_cons.2 ⟨hbom, hws⟩, ?_, w,
    List.mem_cons_of_mem _ hw, hexcluded⟩
  rw [List.flatten_cons, hflatten, octets_append]

theorem wellFormed_normalise (hs : ¬Deceives s) (name : Text) :
    WellFormed (octets (Source.normalise s name).text) := by
  -- what is left behind a byte order mark
  obtain ⟨left, hleft, hmark⟩ : ∃ left, ¬Deceives left ∧
      left = if decide (s.take 3 = Source.bom) = true then s.drop 3 else s := by
    by_cases hbom : s.take 3 = Source.bom
    · refine ⟨s.drop 3, fun h => hs ?_, by rw [if_pos (decide_eq_true hbom)]⟩
      have := h.of_bom
      rwa [← hbom, List.take_append_drop] at this
    · exact ⟨s, hs, by rw [if_neg (by simpa using hbom)]⟩
  unfold Source.normalise
  dsimp only
  rw [← hmark]
  refine wellFormed_ended (wellFormed_convertNewlines ?_)
  cases hvalid : isValidUtf8 left with
  | true => exact wellFormed_of_isValidUtf8 hvalid hleft
  | false => exact wellFormed_latin1ToUtf8 left

/-- **When texts are judged right**, and what `normalise` makes of them is well formed: unless they
consist of lead bytes with their continuation bytes, one of which is no character. -/
theorem utf8_exact_iff (bytes name : Text) :
    ((isValidUtf8 bytes = true ↔ WellFormed (octets bytes)) ∧
      WellFormed (octets (Source.normalise bytes name).text)) ↔ ¬Deceives bytes := by
  constructor
  · rintro ⟨hexact, -⟩ ⟨ws, hws, hflatten, hexcluded⟩
    refine not_wellFormed hws hexcluded ?_
    rw [hflatten]
    exact hexact.1 (isValidUtf8_iff.2 ⟨ws, hws, hflatten⟩)
  · intro hs
    exact ⟨⟨fun h => wellFormed_of_isValidUtf8 h hs, isValidUtf8_of_wellFormed⟩,
      wellFormed_normalise hs name⟩

end

/-- An overlong form of NUL is taken for a character, and kept. -/
theorem overlong_kept : isValidUtf8 [0xC0, 0x80] = true ∧ ¬WellFormed (octets [0xC0, 0x80]) ∧
    (Source.normalise [0xC0, 0x80] []).text = [0xC0, 0x80, lf] ∧
    ¬WellFormed (octets [0xC0, 0x80, lf]) := by
  have htwo : Sequence [0xC0, 0x80] := .two (by decide) (by decide) ⟨by decide, by decide⟩
  have hexcluded : Excluded [0xC0, 0x80] := .inl (by decide)
  refine ⟨by decide, ?_, by decide +kernel, ?_⟩
  · exact @not_wellFormed [[0xC0, 0x80]] (by simpa using htwo) ⟨_, List.mem_cons_self, hexcluded⟩
  · refine @not_wellFormed [[0xC0, 0x80], [0x0A]] ?_ ⟨_, List.mem_cons_self, hexcluded⟩
    simpa using ⟨htwo, .one (by decide)⟩

end Text
end Canforge
