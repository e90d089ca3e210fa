/-
# Sources one behind the other

The bytes of two sources one behind the other make the source of both texts (`normalise_append`),
where the first ends in an end of a line.  A line of either text is a line of both
(`line_front`, `line_back`), so many lines further down for the second one.
-/

import Canforge.Text.Joined

namespace Canforge
namespace Text

open Canforge.Core

/-! ### The texts -/

section

variable {first second : Text}

/-- The last character of what stands behind some of a text. -/
theorem ends_of_append {front : Text} {c : Byte} (h : ∀ d ∈ (front ++ first).getLast?, d = c) :
    ∀ d ∈ first.getLast?, d = c := by
  intro d hd
  refine h d ?_
  rw [List.getLast?_append, Option.mem_def.1 hd]
  rfl

theorem ends_of_cons {b c : Byte} (h : ∀ d ∈ (b :: first).getLast?, d = c) :
    ∀ d ∈ first.getLast?, d = c :=
  ends_of_append (show ∀ d ∈ ([b] ++ first).getLast?, d = c from h)

/-- A text that is ended stays so with an ended one behind it. -/
theorem ended_join (h : ∀ c ∈ first.getLast?, c = lf) (second : Text) :
    Source.ended (first ++ second) = first ++ Source.ended second := by
  by_cases hnil : second = []
  · rw [hnil, List.append_nil, Source.ended_eq h]
    exact (List.append_nil _).symm
  · have hlast : (first ++ second).getLast? = second.getLast? :=
      List.getLast?_append_of_ne_nil _ hnil
    have hempty : (first ++ second).isEmpty = second.isEmpty := by
      rw [List.isEmpty_eq_false_iff.2 hnil]
      exact List.isEmpty_eq_false_iff.2 (List.append_ne_nil_of_right_ne_nil _ hnil)
    unfold Source.ended
    rw [hlast, hempty]
    split_ifs
    · exact List.append_assoc _ _ _
    · rfl

theorem convertNewlines_join (h : ∀ c ∈ first.getLast?, c = lf) (second : Text) :
    convertNewlines (first ++ second) = convertNewlines first ++ convertNewlines second := by
  induction first using convertNewlines.induct with
  | case1 => rfl
  | case2 c =>
    obtain rfl : c = lf := h c rfl
    rw [List.singleton_append, convertNewlines_cons (by decide)]
    rfl
  | case3 d rest ih ih' =>
    have hd := ends_of_cons h
    have hrest := ends_of_cons hd
    rw [List.cons_append, List.cons_append, convertNewlines, convertNewlines, if_pos rfl,
      if_pos rfl]
    split_ifs
    · rw [ih hrest, List.cons_append]
    · rw [← List.cons_append, ih' hd, List.cons_append]
  | case4 c d rest hc ih =>
    have hd := ends_of_cons h
    rw [List.cons_append, convertNewlines_cons hc, convertNewlines_cons hc, ih hd, List.cons_append]

theorem convertNewlines_ne_nil (h : first ≠ []) : convertNewlines first ≠ [] := by
  induction first using convertNewlines.induct with
  | case1 => exact absurd rfl h
  | case2 => simp [convertNewlines]
  | case3 => simp [convertNewlines]
  | case4 c d rest hc =>
    rw [convertNewlines_cons hc]
    exact List.cons_ne_nil _ _

theorem convertNewlines_ends (h : ∀ c ∈ first.getLast?, c = lf) :
    ∀ c ∈ (convertNewlines first).getLast?, c = lf := by
  induction first using convertNewlines.induct with
  | case1 => exact h
  | case2 c =>
    obtain rfl : c = lf := h c rfl
    rwa [convertNewlines_cons (by decide)]
  | case3 d rest ih ih' =>
    have hd := ends_of_cons h
    have hrest := ends_of_cons hd
    intro c hc
    rw [convertNewlines, if_pos rfl, List.getLast?_cons] at hc
    split_ifs at hc
    · cases hlast : (convertNewlines rest).getLast? with
      | none => simpa [hlast] using hc.symm
      | some e => exact ih hrest c (by simpa [hlast] using hc)
    · cases hlast : (convertNewlines (d :: rest)).getLast? with
      | none => simpa [hlast] using hc.symm
      | some e => exact ih' hd c (by simpa [hlast] using hc)
  | case4 c d rest hc ih =>
    rw [convertNewlines_cons hc, List.getLast?_cons_of_ne_nil (convertNewlines_ne_nil (by simp))]
    exact ih (ends_of_cons h)

/-- The bytes behind the mark. -/
def withoutBom (bytes : Text) : Text := if bytes.take 3 = Source.bom then bytes.drop 3 else bytes

theorem normalise_text {bytes : Text} (h : isValidUtf8 (withoutBom bytes) = true) (name : Text) :
    (Source.normalise bytes name).text = Source.ended (convertNewlines (withoutBom bytes)) := by
  unfold withoutBom at h ⊢
  unfold Source.normalise
  dsimp only
  by_cases hbom : bytes.take 3 = Source.bom
  · rw [if_pos hbom] at h ⊢
    rw [decide_eq_true hbom, if_pos rfl, h]
    rfl
  · rw [if_neg hbom] at h ⊢
    rw [decide_eq_false hbom, if_neg Bool.false_ne_true, h]
    rfl

theorem isCharacter_bom : IsCharacter Source.bom := ⟨by decide, by decide⟩

theorem isValidUtf8_withoutBom {bytes : Text} (h : isValidUtf8 bytes = true) :
    isValidUtf8 (withoutBom bytes) = true := by
  unfold withoutBom
  split_ifs with hbom
  · rw [← List.take_append_drop 3 bytes, hbom, isValidUtf8_append_character isCharacter_bom] at h
    exact h
  · exact h

theorem withoutBom_append (h : ∀ c ∈ first.getLast?, c = lf) (hbom : second.take 3 ≠ Source.bom) :
    withoutBom (first ++ second) = withoutBom first ++ second := by
  unfold withoutBom
  by_cases hlong : 3 ≤ first.length
  · rw [List.take_append_of_le_length hlong, List.drop_append_of_le_length hlong]
    split_ifs <;> rfl
  · have hshort : first.take 3 ≠ Source.bom := fun heq => hlong <| by
      have hlength := congrArg List.length heq
      rw [List.length_take] at hlength
      have : Source.bom.length = 3 := rfl
      omega
    rw [if_neg hshort, if_neg fun heq => ?_]
    by_cases hnil : first = []
    · exact hbom (by rwa [hnil] at heq)
    · -- the mark is no end of a line
      obtain ⟨front, c, rfl⟩ := (List.eq_nil_or_concat' first).resolve_left hnil
      obtain rfl : c = lf := h c (by simp)
      have hmem : lf ∈ (front ++ [lf] ++ second).take 3 := by
        rw [List.take_append, List.take_of_length_le (by omega)]
        simp
      rw [heq] at hmem
      exact absurd hmem (by decide)

/-- **The text of two sources one behind the other.** -/
theorem normalise_append (h : ∀ c ∈ first.getLast?, c = lf) (hfirst : isValidUtf8 first = true)
    (hsecond : isValidUtf8 second = true) (hbom : second.take 3 ≠ Source.bom)
    (name name₁ name₂ : Text) : (Source.normalise (first ++ second) name).text =
      (Source.normalise first name₁).text ++ (Source.normalise second name₂).text := by
  have hclean : withoutBom second = second := if_neg hbom
  have hfirst' := isValidUtf8_withoutBom hfirst
  have hends : ∀ c ∈ (withoutBom first).getLast?, c = lf := by
    have hdrop : ∃ front, first = front ++ withoutBom first := by
      unfold withoutBom
      split_ifs
      · exact ⟨_, (List.take_append_drop 3 first).symm⟩
      · exact ⟨[], rfl⟩
    obtain ⟨front, hfront⟩ := hdrop
    exact ends_of_append (hfront ▸ h)
  have hboth := withoutBom_append h hbom
  have hvalid : isValidUtf8 (withoutBom (first ++ second)) = true := by
    rw [hboth]
    exact isValidUtf8_append hfirst' hsecond
  rw [normalise_text hvalid, normalise_text hfirst', normalise_text (hclean.symm ▸ hsecond), hboth,
    hclean, convertNewlines_join hends, ended_join (convertNewlines_ends hends),
    Source.ended_eq (convertNewlines_ends hends)]

theorem normalise_ne_nil (hvalid : isValidUtf8 second = true) (hbom : second.take 3 ≠ Source.bom)
    (hne : second ≠ []) (name : Text) : (Source.normalise second name).text ≠ [] := by
  have hclean : withoutBom second = second := if_neg hbom
  rw [normalise_text (hclean.symm ▸ hvalid), hclean, Source.ended]
  split_ifs
  · simp
  · exact convertNewlines_ne_nil hne

theorem convertNewlines_length (bytes : Text) : (convertNewlines bytes).length ≤ bytes.length := by
  induction bytes using convertNewlines.induct with
  | case1 => exact le_rfl
  | case2 => exact le_rfl
  | case3 d rest ih ih' =>
    rw [convertNewlines, if_pos rfl, List.length_cons, List.length_cons]
    rw [List.length_cons] at ih' ⊢
    split_ifs <;> omega
  | case4 c d rest hc ih =>
    rw [convertNewlines_cons hc, List.length_cons, List.length_cons]
    omega

/-- A text is no longer than its bytes and the end of its last line. -/
theorem normalise_length {bytes : Text} (h : isValidUtf8 bytes = true) (name : Text) :
    (Source.normalise bytes name).text.length ≤ bytes.length + 1 := by
  have hdrop : (withoutBom bytes).length ≤ bytes.length := by
    unfold withoutBom
    split_ifs <;> simp
  have hconvert := convertNewlines_length (withoutBom bytes)
  rw [normalise_text (isValidUtf8_withoutBom h)]
  unfold Source.ended
  split_ifs
  · rw [List.length_append, List.length_singleton]
    omega
  · omega

end

/-! ### The lines -/

/-- What `normalise` makes of a text: its last line is ended, and its lines are counted. -/
structure Source.Proper (s : Source) : Prop where
  starts : s.lineStarts = lineStartsOf s.text
  ended : ∀ c ∈ s.text.getLast?, c = lf

theorem Source.normalise_proper (bytes name : Text) : (normalise bytes name).Proper :=
  ⟨rfl, normalise_getLast? bytes name⟩

/-- A source in front of another one. -/
structure InFront (first second both : Source) : Prop where
  text : both.text = first.text ++ second.text
  length : both.text.length < 2 ^ 32
  front : first.Proper
  back : second.Proper
  whole : both.Proper

section

variable {first second both : Source} {before after : Text}

theorem InFront.lengths (h : InFront first second both) :
    first.text.length < 2 ^ 32 ∧ second.text.length < 2 ^ 32 := by
  have hlength := h.length
  rw [h.text, List.length_append] at hlength
  omega

/-- The last line of a text is ended behind any place in it. -/
theorem Source.Proper.lf_mem (h : first.Proper) (hsplit : first.text = before ++ after)
    (hne : after ≠ []) : lf ∈ after := by
  obtain ⟨front, c, rfl⟩ := (List.eq_nil_or_concat' after).resolve_left hne
  have hc := h.ended c (by rw [hsplit, ← List.append_assoc, List.getLast?_concat]; rfl)
  simp [hc]

/-- There is nothing in the line behind the text. -/
theorem Source.Proper.line_last (h : first.Proper) (hlength : first.text.length < 2 ^ 32) :
    first.line (placeOf first.text).line = [] := by
  have hline := Source.line_eq h.starts h.ended hlength (List.append_nil first.text).symm
  rw [lineHead_ended h.ended] at hline
  exact hline

/-- A line of the text in front. -/
theorem line_front (h : InFront first second both) (hsplit : first.text = before ++ after)
    (hne : after ≠ []) : both.line (placeOf before).line = first.line (placeOf before).line := by
  have hlf := h.front.lf_mem hsplit hne
  have htail : lineTail (after ++ second.text) = lineTail after := by
    unfold lineTail
    rw [List.takeWhile_append, if_neg fun hall => ?_]
    have hwhole := List.IsPrefix.eq_of_length (List.takeWhile_prefix (· != lf)) hall
    exact absurd (List.mem_takeWhile_imp (hwhole.symm ▸ hlf)) (by simp)
  have hline := Source.line_eq h.whole.starts h.whole.ended h.length
    (show both.text = before ++ (after ++ second.text) by rw [h.text, hsplit, List.append_assoc])
  have hline' := Source.line_eq h.front.starts h.front.ended h.lengths.1 hsplit
  unfold placeOf
  rw [hline, hline', htail]

/-- A line of the text behind. -/
theorem line_back (h : InFront first second both) (hsplit : second.text = before ++ after) :
    both.line ((placeOf before).line + linesOf first.text) = second.line (placeOf before).line := by
  have hline := Source.line_eq h.whole.starts h.whole.ended h.length
    (show both.text = (first.text ++ before) ++ after by rw [h.text, hsplit, List.append_assoc])
  have hline' := Source.line_eq h.back.starts h.back.ended h.lengths.2 hsplit
  have hnumber : (placeOf before).line + linesOf first.text =
      BitVec.ofNat 32 (1 + (first.text ++ before).count lf) := by
    rw [List.count_append, placeOf, linesOf, ← BitVec.ofNat_add]
    congr 1
    omega
  have hhead : lineHead (first.text ++ before) = lineHead before := by
    clear hsplit hline hline' hnumber
    induction before using List.reverseRecOn with
    | nil =>
      rw [List.append_nil]
      exact lineHead_ended h.front.ended
    | append_singleton w c ih =>
      unfold lineHead at ih ⊢
      rw [← List.append_assoc]
      by_cases hc : (c != lf) = true
      · rw [List.rtakeWhile_concat_pos (· != lf) _ c hc,
          List.rtakeWhile_concat_pos (· != lf) _ c hc, ih]
      · rw [List.rtakeWhile_concat_neg (· != lf) _ c hc,
          List.rtakeWhile_concat_neg (· != lf) _ c hc]
  rw [hnumber, hline, hhead]
  exact hline'.symm

/-- The lines of a text are not those of what is behind it. -/
theorem lines_apart (h : InFront first second both) {w w' v v' : Text}
    (hfirst : first.text = w ++ w') (hw' : w' ≠ []) (hsecond : second.text = v ++ v')
    (hv' : v' ≠ []) : (placeOf w).line ≠ (placeOf v).line + linesOf first.text := by
  have hcount : first.text.count lf = w.count lf + w'.count lf := by
    rw [hfirst, List.count_append]
  have hpos := List.count_pos_iff.2 (h.front.lf_mem hfirst hw')
  have hle : first.text.count lf ≤ first.text.length := List.count_le_length
  have hle' : v.count lf ≤ v.length := List.count_le_length
  have hlen := List.length_pos_of_ne_nil hv'
  have hboth := h.length
  rw [h.text, hsecond, List.length_append, List.length_append] at hboth
  unfold placeOf linesOf
  intro heq
  have hnat := congrArg BitVec.toNat heq
  rw [← BitVec.ofNat_add, BitVec.toNat_ofNat, BitVec.toNat_ofNat, Nat.mod_eq_of_lt (by omega),
    Nat.mod_eq_of_lt (by omega)] at hnat
  omega

end

/-! ### The places of the tokens -/

section

variable {R : Type} [Scalar R] {source : Source} {before after : Text} {first : Bool}
  {pieces : List (Piece R)}

/-- The tokens of a text: the end behind all others, and where they are. -/
theorem Reading.places (h : Reading source before first after pieces) : ∃ front e,
    pieces.map (·.token) = front ++ [e] ∧ e.kind = .end ∧ e.location = placeOf (before ++ after) ∧
      ∀ t ∈ front, t.kind ≠ .end ∧
        ∃ w w', after = w ++ w' ∧ w' ≠ [] ∧ t.location = placeOf (before ++ w) := by
  induction h with
  | @last before gap first e _ hkind htext hplace =>
    exact ⟨[], e, rfl, hkind, hplace, by simp⟩
  | @token before gap after first s t pieces _ _ _ _ hne hkind hplace _ _ ih =>
    obtain ⟨front, e, hpieces, he, hlast, hfront⟩ := ih
    refine ⟨t :: front, e, by rw [List.map_cons, hpieces]; rfl, he, ?_, ?_⟩
    · rw [hlast, List.append_assoc, List.append_assoc, List.append_assoc]
    · intro u hu
      rcases List.mem_cons.1 hu with rfl | hu
      · refine ⟨hkind, gap, u.text ++ after, List.append_assoc _ _ _, ?_, hplace⟩
        exact List.append_ne_nil_of_left_ne_nil hne _
      · obtain ⟨hukind, w, w', hw, hw', huplace⟩ := hfront u hu
        refine ⟨hukind, gap ++ t.text ++ w, w', ?_, hw', ?_⟩
        · rw [hw, List.append_assoc, List.append_assoc, List.append_assoc]
        · rw [huplace, List.append_assoc, List.append_assoc, List.append_assoc]

/-- The first token is the first one on its line. -/
theorem Reading.first_token (h : Reading source before true after pieces) :
    ∀ t ∈ (pieces.map (·.token)).head?, t.firstOnLine = true := by
  intro t ht
  cases h with
  | last _ _ _ _ hfirst =>
    obtain rfl := Option.some.inj ht
    exact hfirst
  | token _ _ _ _ _ _ _ hfirst _ =>
    obtain rfl := Option.some.inj ht
    exact hfirst

/-- The tokens of a text that there is nothing to report about. -/
structure Divided (source : Source) (front : List (Token R)) (e : Token R) : Prop where
  tokens : tokenise source = (front ++ [e], [])
  last : e.kind = .end
  place : e.location = placeOf source.text
  places : ∀ t ∈ front, t.kind ≠ .end ∧
    ∃ w w', source.text = w ++ w' ∧ w' ≠ [] ∧ t.location = placeOf w
  first : ∀ t ∈ (front ++ [e]).head?, t.firstOnLine = true

theorem divided_of_quiet (h : (tokenise (R := R) source).2 = []) :
    ∃ (front : List (Token R)) (e : Token R), Divided source front e := by
  obtain ⟨pieces, htokens, hreading⟩ := tokenise_reading (R := R) source
  obtain ⟨front, e, hpieces, hkind, hplace, hfront⟩ := hreading.places
  refine ⟨front, e, ?_, hkind, hplace, hfront, hpieces ▸ hreading.first_token⟩
  rw [← hpieces, ← htokens, ← h]

end

end Text
end Canforge
