/-
# What the lexer makes of a text

A lexer behind another one has consumed a piece of the text (`Consumes`), and the text of a token
is that piece (`slice_eq`).  From it: the number of a token is the one its text writes, and the
tokens end in an end (`tokenise_tokens`).
-/

import Canforge.Text.Lexer

namespace Canforge
namespace Text

open Canforge.Core

/-- The characters of a number. -/
def isNumeralChar (c : Byte) : Bool :=
  isDigit c || decide (c = ch '.') || decide (c = ch 'e') || decide (c = ch 'E') ||
    decide (c = ch '+') || decide (c = ch '-')

/-- A text that begins like an unsigned number and has only the characters of one. -/
def RealText (t : Text) : Prop :=
  (∃ c ∈ t.head?, isDigit c ∨ c = ch '.') ∧ ∀ c ∈ t, isNumeralChar c

/-- The exponent of ten behind the digits of a real number. -/
def exponentValue : Text → ℤ
  | [] => 0
  | e :: rest =>
    if e = ch 'e' ∨ e = ch 'E' then
      match rest with
      | [] => 0
      | sign :: digits =>
        if sign = ch '-' then -decimalValue (digits.takeWhile isDigit)
        else if sign = ch '+' then decimalValue (digits.takeWhile isDigit)
        else decimalValue (rest.takeWhile isDigit)
    else 0

/-- The number an unsigned real literal writes. -/
def literalValue (t : Text) : ℚ :=
  let whole := t.takeWhile isDigit
  let behind := t.drop whole.length
  let fraction := if behind.head? = some (ch '.') then (behind.drop 1).takeWhile isDigit else []
  let exponent :=
    if behind.head? = some (ch '.') then (behind.drop 1).dropWhile isDigit else behind
  decimalValue (whole ++ fraction) * 10 ^ (exponentValue exponent - fraction.length)

/-- `12.50e1` is 125. -/
example : literalValue (ascii "12.50e1") = 125 := by decide +kernel

/-- The number a token writes. -/
def Token.written {R : Type} (t : Token R) : ℚ :=
  if t.kind = .integer then decimalValue t.text else literalValue t.text

theorem Token.written_nonneg {R : Type} (t : Token R) : 0 ≤ t.written := by
  unfold Token.written literalValue
  split_ifs <;> positivity

namespace Lexer

/-- `e` is `s` after the bytes `w`. -/
def Consumes (s e : Lexer) (w : Text) : Prop := s.rest = w ++ e.rest ∧ e.pos = s.pos + w.length

variable {s e f : Lexer} {w v : Text} {c : Byte}

theorem Consumes.refl (s : Lexer) : s.Consumes s [] := ⟨rfl, rfl⟩

theorem Consumes.trans (h : s.Consumes e w) (h' : e.Consumes f v) : s.Consumes f (w ++ v) := by
  constructor
  · rw [h.1, h'.1, List.append_assoc]
  · rw [h'.2, h.2, List.length_append, Nat.add_assoc]

/-- The text between two lexers is what the second one has consumed. -/
theorem slice_eq (h : s.Consumes e w) : s.slice e = w := by
  rw [slice, h.2, Nat.add_sub_cancel_left, h.1, List.take_left]

theorem Consumes.length_le (h : s.Consumes e w) : e.rest.length ≤ s.rest.length := by
  rw [h.1, List.length_append]
  omega

theorem Consumes.length_lt (h : s.Consumes e w) (hw : w ≠ []) :
    e.rest.length < s.rest.length := by
  have := List.length_pos_iff.2 hw
  rw [h.1, List.length_append]
  omega

theorem advance_consumes {rest : Text} (h : s.rest = c :: rest) : s.Consumes s.advance [c] := by
  unfold advance
  rw [h]
  dsimp only
  split_ifs with hc
  · exact ⟨h, rfl⟩
  · exact ⟨h, rfl⟩

theorem advanceN_consumes {n : ℕ} (h : n ≤ s.rest.length) :
    s.Consumes (advance^[n] s) (s.rest.take n) := by
  induction n with
  | zero => exact Consumes.refl s
  | succ n ih =>
    have hn := ih (by omega)
    rw [Function.iterate_succ_apply']
    have hrest : (advance^[n] s).rest = s.rest.drop n :=
      List.append_cancel_left (hn.1.symm.trans (List.take_append_drop n s.rest).symm)
    have hdrop : s.rest.drop n = s.rest[n] :: s.rest.drop (n + 1) := List.drop_eq_getElem_cons h
    have hone := hn.trans (advance_consumes (hrest.trans hdrop))
    rw [← List.take_concat_get' _ _ h]
    exact hone

theorem advanceWhile_consumes (s : Lexer) (p : Byte → Bool) :
    s.Consumes (s.advanceWhile p) (s.rest.takeWhile p) := by
  have hprefix := List.takeWhile_prefix (l := s.rest) p
  have h := advanceN_consumes hprefix.length_le
  rwa [← List.prefix_iff_eq_take.1 hprefix] at h

theorem peek_zero (h : s.peek 0 ≠ 0) : ∃ rest, s.rest = s.peek 0 :: rest := by
  unfold peek at *
  cases hr : s.rest with
  | nil => simp [hr] at h
  | cons d rest => exact ⟨rest, by simp⟩

/-- A step over a character that is there. -/
theorem advance_peek (h : s.peek 0 ≠ 0) : s.Consumes s.advance [s.peek 0] := by
  obtain ⟨rest, hrest⟩ := peek_zero h
  exact advance_consumes hrest

/-- The character behind one that is there. -/
theorem advance_peek_zero (h : s.peek 0 ≠ 0) : s.advance.peek 0 = s.peek 1 := by
  obtain ⟨rest, hrest⟩ := peek_zero h
  have hadv : s.advance.rest = rest :=
    (List.cons.inj (hrest.symm.trans (advance_consumes hrest).1)).2.symm
  simp only [peek, hadv]
  rw [hrest]
  rfl

theorem peek_zero_of_not_atEnd (h : s.atEnd = false) : ∃ rest, s.rest = s.peek 0 :: rest := by
  unfold atEnd at h
  unfold peek
  cases hr : s.rest with
  | nil => simp [hr] at h
  | cons d rest => exact ⟨rest, by simp⟩

/-- `skip_trivia` goes forward. -/
theorem skipTrivia_consumes (s : Lexer) : ∃ w, s.Consumes s.skipTrivia w := by
  unfold skipTrivia
  generalize s.rest.length = fuel
  induction fuel generalizing s with
  | zero => exact ⟨[], Consumes.refl s⟩
  | succ fuel ih =>
    rw [skipTriviaFrom]
    cases hend : s.atEnd with
    | true => exact ⟨[], Consumes.refl s⟩
    | false =>
      obtain ⟨rest, hrest⟩ := peek_zero_of_not_atEnd hend
      have hstep := advance_consumes hrest
      have hwhile := advanceWhile_consumes s (· != lf)
      dsimp only
      rw [if_neg Bool.false_ne_true]
      split_ifs
      · obtain ⟨w, hw⟩ := ih s.advance
        exact ⟨_, hstep.trans hw⟩
      · obtain ⟨w, hw⟩ := ih (s.advanceWhile (· != lf))
        exact ⟨_, hwhile.trans hw⟩
      · obtain ⟨w, hw⟩ := ih (s.advanceWhile (· != lf))
        exact ⟨_, hwhile.trans hw⟩
      · exact ⟨[], Consumes.refl s⟩

/-! ### Numbers -/

/-- `e` is `s` after characters of a number. -/
def Spells (s e : Lexer) : Prop := ∃ w, s.Consumes e w ∧ ∀ c ∈ w, isNumeralChar c

theorem Spells.refl (s : Lexer) : s.Spells s := ⟨[], Consumes.refl s, by simp⟩

theorem Spells.trans (h : s.Spells e) (h' : e.Spells f) : s.Spells f := by
  obtain ⟨w, hw, hall⟩ := h
  obtain ⟨v, hv, hall'⟩ := h'
  refine ⟨w ++ v, hw.trans hv, ?_⟩
  intro c hc
  rcases List.mem_append.1 hc with hc | hc
  · exact hall c hc
  · exact hall' c hc

theorem Spells.length_le (h : s.Spells e) : e.rest.length ≤ s.rest.length := by
  obtain ⟨w, hw, -⟩ := h
  exact hw.length_le

theorem advance_spells (h : isNumeralChar (s.peek 0)) : s.Spells s.advance := by
  have hne : s.peek 0 ≠ 0 := by
    intro h0
    rw [h0] at h
    revert h
    decide
  refine ⟨_, advance_peek hne, ?_⟩
  simpa using h

theorem advanceWhile_spells (s : Lexer) : s.Spells (s.advanceWhile isDigit) := by
  refine ⟨_, advanceWhile_consumes s isDigit, ?_⟩
  intro c hc
  have hdigit : isDigit c = true := List.mem_takeWhile_imp hc
  simp [isNumeralChar, hdigit]

theorem lexFraction_spells (s : Lexer) : s.Spells s.lexFraction.2 := by
  unfold lexFraction
  split_ifs with h h'
  · exact (advance_spells (by rw [h.1]; decide)).trans (advanceWhile_spells _)
  · exact advance_spells (by rw [h'.1]; decide)
  · exact Spells.refl s

theorem lexExponent_spells (s : Lexer) : s.Spells s.lexExponent.2 := by
  unfold lexExponent
  by_cases he : s.peek 0 = ch 'e' ∨ s.peek 0 = ch 'E'
  · rw [if_pos he]
    dsimp only
    have hone : s.Spells s.advance := by
      refine advance_spells ?_
      rcases he with h | h <;> · rw [h]; decide
    by_cases hdigits : ((s.peek 1 = ch '+' ∨ s.peek 1 = ch '-') ∧ isDigit (s.peek 2)) ∨
        isDigit (s.peek 1)
    · rw [if_pos hdigits]
      by_cases hsigned : s.peek 1 = ch '+' ∨ s.peek 1 = ch '-'
      · have hne : s.peek 0 ≠ 0 := by rcases he with h | h <;> · rw [h]; decide
        have htwo : s.advance.Spells s.advance.advance := by
          refine advance_spells ?_
          rw [advance_peek_zero hne]
          rcases hsigned with h | h <;> · rw [h]; decide
        simp only [if_pos hsigned]
        exact (hone.trans htwo).trans (advanceWhile_spells _)
      · simp only [if_neg hsigned]
        exact hone.trans (advanceWhile_spells _)
    · rw [if_neg hdigits]
      exact Spells.refl s
  · rw [if_neg he]
    exact Spells.refl s

/-- Where `tokenise` asks for a number. -/
def AtNumber (s : Lexer) : Prop := isDigit (s.peek 0) ∨ (s.peek 0 = ch '.' ∧ isDigit (s.peek 1))

theorem advanceWhile_of_not {p : Byte → Bool} (h : p (s.peek 0) = false) :
    s.advanceWhile p = s := by
  have : s.rest.takeWhile p = [] := by
    unfold peek at h
    cases hr : s.rest with
    | nil => rfl
    | cons c rest => simp_all
  rw [advanceWhile, this]
  rfl

/-- **The text of a number**: it begins and goes on as one. -/
theorem lexNumeral_spells (h : s.AtNumber) :
    ∃ w, s.Consumes s.lexNumeral.2 w ∧ w ≠ [] ∧ RealText w := by
  have hdigits := advanceWhile_spells s
  have hfraction := lexFraction_spells (s.advanceWhile isDigit)
  have hexponent := lexExponent_spells (s.advanceWhile isDigit).lexFraction.2
  have hlt : (s.advanceWhile isDigit).lexFraction.2.rest.length < s.rest.length := by
    rcases h with hd | ⟨hdot, hd⟩
    · have hne : s.peek 0 ≠ 0 := by
        intro h0
        rw [h0] at hd
        revert hd
        decide
      obtain ⟨rest, hrest⟩ := peek_zero hne
      refine lt_of_le_of_lt hfraction.length_le ((advanceWhile_consumes s isDigit).length_lt ?_)
      rw [hrest, List.takeWhile_cons, if_pos hd]
      exact List.cons_ne_nil _ _
    · have hsame : s.advanceWhile isDigit = s := advanceWhile_of_not (by rw [hdot]; decide)
      rw [hsame, lexFraction, if_pos ⟨hdot, hd⟩]
      have hone := advance_peek (s := s) (by rw [hdot]; decide)
      exact lt_of_le_of_lt (advanceWhile_spells _).length_le (hone.length_lt (by simp))
  obtain ⟨w, hw, hall⟩ := (hdigits.trans hfraction).trans hexponent
  have hne : w ≠ [] := by
    rintro rfl
    have := hw.1
    rw [List.nil_append] at this
    have hle := hexponent.length_le
    rw [← this] at hle
    omega
  refine ⟨w, hw, hne, ?_, hall⟩
  obtain ⟨c, v, rfl⟩ := List.exists_cons_of_ne_nil hne
  have hpeek : s.peek 0 = c := by rw [peek, hw.1]; rfl
  refine ⟨c, rfl, ?_⟩
  rw [← hpeek]
  exact h.imp id And.left

/-! ### Tokens -/

/-- Two steps over characters that are there. -/
theorem advance_advance_consumes (h : s.peek 0 ≠ 0) (h' : s.peek 1 ≠ 0) :
    s.Consumes s.advance.advance [s.peek 0, s.peek 1] := by
  have htwo : s.advance.Consumes s.advance.advance [s.advance.peek 0] :=
    advance_peek (by rwa [advance_peek_zero h])
  rw [advance_peek_zero h] at htwo
  exact (advance_peek h).trans htwo

theorem lexStringFrom_consumes (fuel : ℕ) (s : Lexer) (value : Text) :
    ∃ w, s.Consumes (lexStringFrom fuel s value).2.2 w := by
  induction fuel generalizing s value with
  | zero => exact ⟨[], Consumes.refl s⟩
  | succ fuel ih =>
    rw [lexStringFrom]
    cases hend : s.atEnd with
    | true => exact ⟨[], Consumes.refl s⟩
    | false =>
      obtain ⟨rest, hrest⟩ := peek_zero_of_not_atEnd hend
      have hone := advance_consumes hrest
      have next (value : Text) : ∃ w, s.Consumes (lexStringFrom fuel s.advance value).2.2 w := by
        obtain ⟨w, hw⟩ := ih s.advance value
        exact ⟨_, hone.trans hw⟩
      have skip (h : s.peek 0 ≠ 0) (h' : s.peek 1 ≠ 0) (value : Text) :
          ∃ w, s.Consumes (lexStringFrom fuel s.advance.advance value).2.2 w := by
        obtain ⟨w, hw⟩ := ih s.advance.advance value
        exact ⟨_, (advance_advance_consumes h h').trans hw⟩
      rw [if_neg Bool.false_ne_true]
      by_cases hslash : s.peek 0 = ch '\\'
      · simp only [if_pos hslash]
        split_ifs with hnext
        · refine skip (by rw [hslash]; decide) ?_ _
          rcases hnext with h | h <;> · rw [h]; decide
        · exact next _
      · simp only [if_neg hslash]
        by_cases hquote : s.peek 0 = ch '"'
        · simp only [if_pos hquote]
          split_ifs with hnext
          · exact skip (by rw [hquote]; decide) (by rw [hnext]; decide) _
          · exact ⟨_, hone⟩
        · simp only [if_neg hquote]
          exact next _

end Lexer

/-- The numbers of a token are those its text writes. -/
structure Token.WellLexed {R : Type} [Scalar R] (t : Token R) : Prop where
  integer : t.kind = .integer →
    t.integer = strtoull t.text ∧ t.real = Scalar.ofNat t.integer.toNat
  real : t.kind = .real → RealText t.text ∧ t.real = Scalar.strtod t.text

namespace Lexer

variable {s e : Lexer} {w : Text} {R : Type} [Scalar R] {source : Source}

/-- What the lexer makes of a piece of the text: a token of it, behind which it goes on. -/
structure Lexes (s e : Lexer) (t : Token R) : Prop where
  consumes : s.Consumes e t.text
  nonempty : t.text ≠ []
  not_end : t.kind ≠ .end
  wellLexed : t.WellLexed

theorem lexIdentifier_lexes (h : isIdentContinue (s.peek 0)) :
    s.Lexes (s.lexIdentifier (R := R)).2 (s.lexIdentifier (R := R)).1 := by
  have hconsumes := advanceWhile_consumes s isIdentContinue
  have hne : s.rest.takeWhile isIdentContinue ≠ [] := by
    obtain ⟨rest, hrest⟩ := peek_zero (s := s) (by
      intro h0
      rw [h0] at h
      revert h
      decide)
    rw [hrest, List.takeWhile_cons, if_pos h]
    exact List.cons_ne_nil _ _
  have hslice := slice_eq hconsumes
  unfold lexIdentifier
  refine ⟨?_, ?_, by simp, ⟨by simp, by simp⟩⟩
  · simpa only [hslice] using hconsumes
  · simpa only [hslice] using hne

theorem lexNumber_lexes (h : s.AtNumber) :
    s.Lexes (s.lexNumber (R := R)).2 (s.lexNumber (R := R)).1 := by
  obtain ⟨w, hw, hne, hreal⟩ := lexNumeral_spells h
  unfold lexNumber
  cases hnumeral : s.lexNumeral with
  | mk isReal e =>
    rw [hnumeral] at hw
    dsimp only at hw ⊢
    have hslice := slice_eq hw
    by_cases hname : isIdentContinue (e.peek 0) ∧ isReal = false
    · rw [if_pos hname]
      have hmore := hw.trans (advanceWhile_consumes e isIdentContinue)
      refine ⟨?_, ?_, by simp, ⟨by simp, by simp⟩⟩
      · simpa only [slice_eq hmore] using hmore
      · simp [slice_eq hmore, hne]
    · rw [if_neg hname]
      cases isReal with
      | true =>
        rw [if_pos rfl]
        refine ⟨?_, ?_, by simp, ⟨by simp, ?_⟩⟩
        · simpa only [hslice] using hw
        · simpa only [hslice] using hne
        · intro _
          rw [hslice]
          exact ⟨hreal, rfl⟩
      | false =>
        rw [if_neg Bool.false_ne_true]
        refine ⟨?_, ?_, by simp, ⟨?_, by simp⟩⟩
        · simpa only [hslice] using hw
        · simpa only [hslice] using hne
        · intro _
          exact ⟨rfl, rfl⟩

theorem lexString_lexes (h : s.peek 0 = ch '"') :
    s.Lexes (s.lexString (R := R) source).2.1 (s.lexString (R := R) source).1 := by
  have hone := advance_peek (s := s) (by rw [h]; decide)
  obtain ⟨w, hw⟩ := lexStringFrom_consumes s.advance.rest.length s.advance []
  have hmore := hone.trans hw
  have hslice := slice_eq hmore
  unfold lexString
  refine ⟨?_, ?_, by simp, ⟨by simp, by simp⟩⟩
  · simpa only [hslice] using hmore
  · simp [hslice]

theorem punctuation_cases (c : Byte) : punctuation c ≠ .end ∧ punctuation c ≠ .integer ∧
    punctuation c ≠ .real := by
  revert c
  decide +kernel

theorem lexPunctuation_lexes (h : s.atEnd = false) :
    s.Lexes (s.lexPunctuation (R := R) source).2.1 (s.lexPunctuation (R := R) source).1 := by
  obtain ⟨rest, hrest⟩ := peek_zero_of_not_atEnd h
  have hone := advance_consumes hrest
  have hslice := slice_eq hone
  obtain ⟨hend, hinteger, hreal⟩ := punctuation_cases (s.peek 0)
  unfold lexPunctuation
  refine ⟨?_, ?_, hend, ⟨fun h => absurd h hinteger, fun h => absurd h hreal⟩⟩
  · simpa only [hslice] using hone
  · simp [hslice]

/-- **Every token is a piece of the text and well lexed.** -/
theorem lexToken_lexes (h : s.atEnd = false) :
    s.Lexes (s.lexToken (R := R) source).2.1 (s.lexToken (R := R) source).1 := by
  unfold lexToken
  dsimp only
  by_cases hnumber : isDigit (s.peek 0) ∨ (s.peek 0 = ch '.' ∧ isDigit (s.peek 1))
  · rw [if_pos hnumber]
    exact lexNumber_lexes hnumber
  · rw [if_neg hnumber]
    by_cases hname : isIdentStart (s.peek 0)
    · rw [if_pos hname]
      refine lexIdentifier_lexes ?_
      unfold isIdentStart at hname
      unfold isIdentContinue
      simp only [Bool.or_eq_true] at hname ⊢
      tauto
    · rw [if_neg hname]
      by_cases hquote : s.peek 0 = ch '"'
      · rw [if_pos hquote]
        exact lexString_lexes hquote
      · rw [if_neg hquote]
        exact lexPunctuation_lexes h

theorem Consumes.atLineStart (h : s.Consumes e w) (b : Bool) :
    s.Consumes { e with atLineStart := b } w := h

/-- What is true of the tokens of a text. -/
structure Tokens (tokens : List (Token R)) : Prop where
  wellLexed : ∀ t ∈ tokens, t.WellLexed
  terminated : ∃ t ∈ tokens.getLast?, t.kind = .end

theorem tokeniseFrom_tokens {fuel : ℕ} (h : s.rest.length < fuel) :
    Tokens (tokeniseFrom (R := R) source fuel s).1 := by
  induction fuel generalizing s with
  | zero => exact absurd h (Nat.not_lt_zero _)
  | succ fuel ih =>
    rw [tokeniseFrom]
    obtain ⟨w, hw⟩ := skipTrivia_consumes s
    dsimp only
    cases hend : ({ s.skipTrivia with atLineStart := false } : Lexer).atEnd with
    | true =>
      rw [if_pos rfl]
      constructor
      · intro t ht
        obtain rfl := List.mem_singleton.1 ht
        exact ⟨by simp, by simp⟩
      · exact ⟨_, rfl, rfl⟩
    | false =>
      rw [if_neg Bool.false_ne_true]
      have hlexes := @lexToken_lexes _ R _ source hend
      have hrest : (({ s.skipTrivia with atLineStart := false } : Lexer).lexToken
          (R := R) source).2.1.rest.length < fuel := by
        have := hlexes.consumes.length_lt hlexes.nonempty
        have := hw.length_le
        simp only at *
        omega
      have htail := ih hrest
      constructor
      · rintro t (- | ⟨-, ht⟩)
        · exact ⟨hlexes.wellLexed.integer, hlexes.wellLexed.real⟩
        · exact htail.wellLexed t ht
      · obtain ⟨t, ht, hkind⟩ := htail.terminated
        refine ⟨t, ?_, hkind⟩
        rw [List.getLast?_cons, ht]
        rfl

end Lexer

/-- **The tokens of a source**: each is what its text writes, and they end in an end. -/
theorem tokenise_tokens {R : Type} [Scalar R] (source : Source) :
    Lexer.Tokens (tokenise (R := R) source).1 :=
  Lexer.tokeniseFrom_tokens (Nat.lt_succ_self _)

end Text
end Canforge
