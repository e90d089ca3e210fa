/-
# Where the tokens are

The tokens of a source cover all but the blanks and the comments, and the place of each is counted
from the text in front of it (`tokenise_division`).  Places have 32 bits: a source of 2^32 - 1 ends
of lines is the only shorter one than 2^32 whose last line is not counted (`line_wraps`).
-/

import Canforge.Text.Division

namespace Canforge
namespace Text

open Canforge.Core

/-- A source of 2^32 - 1 ends of lines. -/
def kAllNewlines : Text := List.replicate (2 ^ 32 - 1) lf

/-- A token is where the lexer says, between two texts; the one line that has no number of 32 bits
is the one behind `kAllNewlines`. -/
structure PlacedAt {R : Type} (source : Source) (t : Token R) (before after : Text) : Prop where
  line : source.text ≠ kAllNewlines → t.location.line.toNat = 1 + before.count lf
  column : t.location.column.toNat = 1 + (lineHead before).length
  sourceLine : source.line t.location.line = lineHead before ++ lineTail after

section

variable {R : Type} [Scalar R] {source : Source} {before after : Text}

omit [Scalar R] in
/-- A place that is counted is the right one. -/
theorem placedAt_of_placeOf {t : Token R} (hstarts : source.lineStarts = lineStartsOf source.text)
    (hended : ∀ c ∈ source.text.getLast?, c = lf) (hlength : source.text.length < 2 ^ 32)
    (htext : source.text = before ++ after) (hplace : t.location = placeOf before) :
    PlacedAt source t before after := by
  have hle := congrArg List.length htext
  rw [List.length_append] at hle
  have hcount : before.count lf ≤ before.length := List.count_le_length
  have hhead : (lineHead before).length ≤ before.length :=
    List.IsSuffix.length_le (List.rtakeWhile_suffix _ _)
  constructor
  case line =>
    intro hne
    rw [hplace]
    refine (BitVec.toNat_ofNat _ _).trans (Nat.mod_eq_of_lt ?_)
    -- otherwise all 2^32 - 1 bytes of the source are ends of lines
    by_contra hlarge
    have hbefore : before.count lf = before.length := by omega
    have hafter : after = [] := List.length_eq_zero_iff.1 (by omega)
    rw [hafter, List.append_nil] at htext
    refine hne ?_
    rw [htext, kAllNewlines, List.eq_replicate_iff]
    exact ⟨by omega, fun c hc => (List.count_eq_length.1 hbefore c hc).symm⟩
  case column =>
    rw [hplace]
    refine (BitVec.toNat_ofNat _ _).trans (Nat.mod_eq_of_lt ?_)
    by_cases hafter : after = []
    · rw [hafter, List.append_nil] at htext
      rw [lineHead_ended (htext ▸ hended)]
      exact Nat.one_lt_two_pow (by decide)
    · have hpos := List.length_pos_of_ne_nil hafter
      omega
  case sourceLine =>
    rw [hplace]
    exact Source.line_eq hstarts hended hlength htext

/-- **The tokens and their places.** -/
theorem tokenise_division (bytes name : Text)
    (h : (Source.normalise bytes name).text.length < 2 ^ 32) :
    ∃ pieces : List (Piece R), (tokenise (Source.normalise bytes name)).1 = pieces.map (·.token) ∧
      Division (Source.normalise bytes name).text pieces ∧
      ∀ earlier p later, pieces = earlier ++ p :: later →
        PlacedAt (Source.normalise bytes name) p.token (textOf earlier ++ p.gap)
          (p.token.text ++ textOf later) := by
  obtain ⟨pieces, htokens, hreading⟩ :=
    tokenise_reading (R := R) (Source.normalise bytes name)
  refine ⟨pieces, htokens, hreading.division, fun earlier p later heq => ?_⟩
  refine placedAt_of_placeOf rfl (Source.normalise_getLast? bytes name) h ?_ ?_
  · rw [← hreading.textOf_eq, heq, textOf_append]
    simp [textOf]
  · have hsplit := hreading.split heq
    generalize textOf (p :: later) = text at hsplit
    cases hsplit with
    | last _ _ _ hplace => exact hplace
    | token _ _ _ _ _ _ hplace => exact hplace

theorem tokenise_division_comment : ∃ pieces : List (Piece ℚ),
    (tokenise (Source.normalise (ascii "a # b\n\"c\nd\" e") [])).1 = pieces.map (·.token) ∧
      Division (Source.normalise (ascii "a # b\n\"c\nd\" e") []).text pieces ∧
      ∀ earlier p later, pieces = earlier ++ p :: later →
        PlacedAt (Source.normalise (ascii "a # b\n\"c\nd\" e") []) p.token
          (textOf earlier ++ p.gap) (p.token.text ++ textOf later) :=
  tokenise_division (R := ℚ) (ascii "a # b\n\"c\nd\" e") [] (by decide +kernel)

/-- A source of nothing but ends of lines. -/
theorem tokenise_newlines (n : ℕ) (name : Text) :
    ∃ e : Token R, (tokenise (Source.normalise (List.replicate n lf) name)).1 = [e] ∧
      e.location.line = BitVec.ofNat 32 (1 + n) := by
  obtain ⟨pieces, htokens, hreading⟩ :=
    tokenise_reading (R := R) (Source.normalise (List.replicate n lf) name)
  rw [htokens]
  rw [Source.normalise_newlines] at hreading
  generalize htext : List.replicate n lf = text at hreading
  cases hreading with
  | @last _ _ _ e _ _ _ hplace =>
    refine ⟨e, rfl, ?_⟩
    rw [hplace, ← htext, List.nil_append, placeOf, List.count_replicate_self]
  | @token _ gap after _ _ t _ _ hstops _ _ hne =>
    -- a token does not begin with a blank
    obtain ⟨c, w, hw⟩ := List.exists_cons_of_ne_nil hne
    have hmem : c ∈ List.replicate n lf := by rw [htext, hw]; simp
    obtain ⟨hblank, -⟩ := hstops c (w ++ after) (by rw [hw]; rfl)
    rw [List.eq_of_mem_replicate hmem] at hblank
    exact absurd hblank (by decide)

end

/-- The line behind 2^32 - 1 ends of lines has number 2^32, and the lexer counts 0. -/
theorem line_wraps : (Source.normalise kAllNewlines []).text.length < 2 ^ 32 ∧
    ∃ e : Token ℚ, (tokenise (Source.normalise kAllNewlines [])).1 = [e] ∧
      1 + (Source.normalise kAllNewlines []).text.count lf = 2 ^ 32 ∧
      e.location.line.toNat = 0 := by
  have htext : (Source.normalise kAllNewlines []).text = kAllNewlines :=
    Source.normalise_newlines _ _
  have hlength : kAllNewlines.length = 2 ^ 32 - 1 := List.length_replicate
  have hcount : kAllNewlines.count lf = 2 ^ 32 - 1 := List.count_replicate_self
  obtain ⟨e, htokens, hline⟩ := tokenise_newlines (R := ℚ) (2 ^ 32 - 1) []
  refine ⟨?_, e, htokens, ?_, ?_⟩
  · rw [htext, hlength]
    exact Nat.sub_one_lt (by decide)
  · rw [htext, hcount, Nat.add_sub_cancel' Nat.one_le_two_pow]
  · exact (congrArg BitVec.toNat hline).trans (by decide)

end Text
end Canforge
