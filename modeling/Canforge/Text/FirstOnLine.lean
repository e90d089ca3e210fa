/-
# The first tokens on their lines

The lexer takes every end of a line as the begin of one, also inside a string, so that a token
behind a string that goes on from an earlier line counts as the first one on its line.  A pass over
the text finds such tokens (`overruns`), and a source without them, and no other one, has all flags
right (`first_on_line_iff`).
-/

import Canforge.Text.Division

namespace Canforge
namespace Text

open Canforge.Core

/-! ### Which flags are right -/

/-- A byte of an earlier token is on the line on which a token begins. -/
def SharesLine {R : Type} (earlier : List (Piece R)) (p : Piece R) : Prop :=
  ∃ front q back, earlier = front ++ q :: back ∧ ∃ k < q.token.text.length,
    (textOf front ++ q.gap ++ q.token.text.take k).count lf = (textOf earlier ++ p.gap).count lf

/-- Every flag says whether its token is the first one on its line. -/
def FlagsRight {R : Type} (pieces : List (Piece R)) : Prop :=
  ∀ earlier p later, pieces = earlier ++ p :: later →
    (p.token.firstOnLine = true ↔ ¬SharesLine earlier p)

/-- What a byte of a text is in; `multi` is whether there was an end of a line in the string, or in
the token in front of it. -/
inductive Within
  | blank (multi : Bool)
  | comment
  | string (multi : Bool)
  | escaped (multi : Bool)
  deriving DecidableEq, Repr

/-- A token begins on the last line of a string that began on an earlier one. -/
def overruns : Within → Text → Bool
  | _, [] => false
  | .blank multi, c :: rest =>
    if isBlank c then overruns (.blank (multi && c != lf)) rest
    else if c = ch '#' ∨ (c = ch '/' ∧ rest.head? = some (ch '/')) then overruns .comment rest
    else if multi then true
    else if c = ch '"' then overruns (.string false) rest
    else overruns (.blank false) rest
  | .comment, c :: rest => overruns (if c = lf then .blank false else .comment) rest
  | .string multi, c :: rest =>
    if c = ch '\\' then
      if rest.head? = some (ch '"') ∨ rest.head? = some (ch '\\') then
        overruns (.escaped multi) rest
      else overruns (.string multi) rest
    else if c = ch '"' then
      if rest.head? = some (ch '"') then overruns (.escaped multi) rest
      else overruns (.blank multi) rest
    else overruns (.string (multi || c == lf)) rest
  | .escaped multi, _ :: rest => overruns (.string multi) rest

section

variable {more w : Text} {m : Bool}

@[simp] theorem overruns_nil (b : Within) : overruns b [] = false := by
  cases b <;> rfl

theorem overruns_blank_cons (m : Bool) (c : Byte) (rest : Text) :
    overruns (.blank m) (c :: rest) =
      if isBlank c then overruns (.blank (m && c != lf)) rest
      else if c = ch '#' ∨ (c = ch '/' ∧ rest.head? = some (ch '/')) then overruns .comment rest
      else if m then true
      else if c = ch '"' then overruns (.string false) rest
      else overruns (.blank false) rest := rfl

theorem overruns_comment_cons (c : Byte) (rest : Text) : overruns .comment (c :: rest) =
    overruns (if c = lf then .blank false else .comment) rest := rfl

theorem overruns_string_cons (m : Bool) (c : Byte) (rest : Text) :
    overruns (.string m) (c :: rest) =
      if c = ch '\\' then
        if rest.head? = some (ch '"') ∨ rest.head? = some (ch '\\') then overruns (.escaped m) rest
        else overruns (.string m) rest
      else if c = ch '"' then
        if rest.head? = some (ch '"') then overruns (.escaped m) rest else overruns (.blank m) rest
      else overruns (.string (m || c == lf)) rest := rfl

theorem overruns_escaped_cons (m : Bool) (c : Byte) (rest : Text) :
    overruns (.escaped m) (c :: rest) = overruns (.string m) rest := rfl

theorem overruns_comment {body : Text} (h : lf ∉ body) (more : Text) :
    overruns .comment (body ++ more) = overruns .comment more := by
  induction body with
  | nil => rfl
  | cons c body ih =>
    obtain ⟨hc, hbody⟩ := not_or.1 (mt List.mem_cons.2 h)
    rw [List.cons_append, overruns_comment_cons, if_neg (Ne.symm hc), ih hbody]

/-- A comment ends at the end of its line. -/
theorem overruns_comment_end (h : ∀ c ∈ more.head?, c = lf) (m : Bool) :
    overruns .comment more = overruns (.blank m) more := by
  cases more with
  | nil => simp
  | cons c more =>
    obtain rfl : c = lf := h c rfl
    rw [overruns_comment_cons, if_pos rfl, overruns_blank_cons, if_pos (by decide)]
    simp

/-- The mark of a comment is seen as its begin. -/
theorem overruns_mark {mark : Text} (h : mark = ascii "#" ∨ mark = ascii "//") (m : Bool)
    (more : Text) : overruns (.blank m) (mark ++ more) = overruns .comment more := by
  rcases h with rfl | rfl
  · have hmark : ascii "#" ++ more = ch '#' :: more := rfl
    rw [hmark, overruns_blank_cons, if_neg (by decide), if_pos (.inl rfl)]
  · have hmark : ascii "//" ++ more = ch '/' :: ch '/' :: more := rfl
    rw [hmark, overruns_blank_cons, if_neg (by decide), if_pos (.inr ⟨rfl, rfl⟩),
      overruns_comment_cons, if_neg (by decide)]

/-- Over a gap. -/
theorem overruns_trivia {gap : Text} (h : Trivia more gap) (m : Bool) :
    overruns (.blank m) (gap ++ more) = overruns (.blank (m && !gap.contains lf)) more := by
  induction h generalizing m with
  | nil => simp
  | @blank c w hblank _ ih =>
    have hne : (c != lf) = !(lf == c) := by rw [bne, BEq.comm]
    rw [List.cons_append, overruns_blank_cons, if_pos hblank, ih, List.contains_cons, Bool.not_or,
      Bool.and_assoc, hne]
  | @comment mark body w hmark hbody hend _ ih =>
    have hmark' : lf ∉ mark := by rcases hmark with rfl | rfl <;> decide
    have hall : (mark ++ body ++ w).contains lf = w.contains lf := by simp [hmark', hbody]
    rw [List.append_assoc, List.append_assoc, overruns_mark hmark, overruns_comment hbody,
      overruns_comment_end hend m, ih, hall]

/-- A token in sight of a string that ends on its line. -/
theorem overruns_stops (h : Stops more) (hne : more ≠ []) : overruns (.blank true) more = true := by
  obtain ⟨c, rest, rfl⟩ := List.exists_cons_of_ne_nil hne
  obtain ⟨hblank, hhash, hslash⟩ := h c rest rfl
  rw [overruns_blank_cons, hblank, if_neg Bool.false_ne_true, if_neg (not_or.2 ⟨hhash, hslash⟩),
    if_pos rfl]

/-- The characters of the tokens that are no strings, a slash apart. -/
def isPlain (c : Byte) : Bool :=
  !isBlank c && c != ch '#' && c != ch '/' && c != ch '"'

theorem overruns_plain (h : ∀ c ∈ w, isPlain c = true) (more : Text) :
    overruns (.blank false) (w ++ more) = overruns (.blank false) more := by
  induction w with
  | nil => rfl
  | cons c w ih =>
    have hc := h c List.mem_cons_self
    simp only [isPlain, Bool.and_eq_true, Bool.not_eq_true', bne_iff_ne] at hc
    obtain ⟨⟨⟨hblank, hhash⟩, hslash⟩, hquote⟩ := hc
    rw [List.cons_append, overruns_blank_cons, hblank, if_neg Bool.false_ne_true,
      if_neg (not_or.2 ⟨hhash, fun h => hslash h.1⟩), if_neg Bool.false_ne_true, if_neg hquote]
    exact ih fun d hd => h d (List.mem_cons_of_mem _ hd)

end

/-! ### Over a token -/

namespace Lexer

variable {s e : Lexer} {R : Type} [Scalar R] {source : Source}

/-- The lexer behind the rest of a string, which is in a body that ends in its quote if there is
one. -/
def ClosesAt (m : Bool) (s e : Lexer) : Prop :=
  ∃ body, s.rest = body ++ e.rest ∧
    overruns (.string m) s.rest = overruns (.blank (m || body.contains lf)) e.rest ∧
    (e.rest = [] ∨ body.getLast? = some (ch '"'))

omit [Scalar R] in
/-- A step inside of a string. -/
theorem ClosesAt.step {m m' : Bool} {s' : Lexer} {w : Text} (h : ClosesAt m' s' e)
    (hrest : s.rest = w ++ s'.rest) (hover : overruns (.string m) s.rest =
      overruns (.string m') s'.rest) (hm : m' = (m || w.contains lf)) : ClosesAt m s e := by
  obtain ⟨body, hbody, hsame, hend⟩ := h
  refine ⟨w ++ body, ?_, ?_, ?_⟩
  · rw [hrest, hbody, List.append_assoc]
  · rw [hover, hsame, hm, Bool.or_assoc]
    congr 3
    simp
  · refine hend.imp_right fun hquote => ?_
    rw [List.getLast?_append, hquote]
    rfl

theorem lexStringFrom_closesAt {fuel : ℕ} {value : Text} {m : Bool} (h : s.rest.length ≤ fuel) :
    ClosesAt m s (lexStringFrom fuel s value).2.2 := by
  induction fuel generalizing s value m with
  | zero =>
    have hnil : s.rest = [] := List.length_eq_zero_iff.1 (Nat.le_zero.1 h)
    exact ⟨[], rfl, by simp [lexStringFrom, hnil], .inl hnil⟩
  | succ fuel ih =>
    rw [lexStringFrom]
    cases hrest : s.rest with
    | nil =>
      have hend : s.atEnd = true := by rw [atEnd, hrest]; rfl
      rw [if_pos hend]
      exact ⟨[], rfl, by simp [hrest], .inl hrest⟩
    | cons c rest =>
      have hpeek : s.peek 0 = c := peek_zero_cons hrest
      have hone : (behind s [c]).rest = rest := rest_behind (w := [c]) hrest
      have hle : rest.length ≤ fuel := by
        rw [hrest] at h
        exact Nat.le_of_succ_le_succ h
      rw [atEnd_cons hrest, if_neg Bool.false_ne_true, hpeek]
      dsimp only
      -- a character and the one behind it, which it escapes
      have htwo : ∀ d ∈ rest.head?, d ≠ lf → c ≠ lf →
          overruns (.string m) (c :: rest) = overruns (.escaped m) rest → ∀ value,
          ClosesAt m s (lexStringFrom fuel s.advance.advance value).2.2 := by
        intro d hd hdl hcl hescaped value
        obtain ⟨tail, rfl⟩ : ∃ tail, rest = d :: tail := ⟨_, List.eq_cons_of_mem_head? hd⟩
        have hrest₂ : (behind (behind s [c]) [d]).rest = tail := rest_behind (w := [d]) hone
        refine ClosesAt.step (w := [c, d])
          (@ih (behind (behind s [c]) [d]) value m (by rw [hrest₂]; exact Nat.le_of_succ_le hle))
          ?_ ?_ ?_
        · rw [hrest, hrest₂]
          rfl
        · rw [hrest, hrest₂, hescaped, overruns_escaped_cons]
        · simp [Ne.symm hdl, Ne.symm hcl]
      -- a character of its own
      have hsingle : ∀ m', m' = (m || c == lf) →
          overruns (.string m) (c :: rest) = overruns (.string m') rest → ∀ value,
          ClosesAt m s (lexStringFrom fuel s.advance value).2.2 := by
        intro m' hm' hover value
        refine ClosesAt.step (w := [c])
          (@ih (behind s [c]) value m' (by rw [hone]; exact hle)) ?_ ?_ ?_
        · rw [hrest, hone]
          rfl
        · rw [hrest, hone, hover]
        · rw [hm', List.contains_cons, BEq.comm]
          simp
      have hover := overruns_string_cons m c rest
      have hquote₁ : s.peek 1 = ch '"' ↔ rest.head? = some (ch '"') :=
        peek_one_iff hrest (by decide)
      have hslash₁ : s.peek 1 = ch '\\' ↔ rest.head? = some (ch '\\') :=
        peek_one_iff hrest (by decide)
      split_ifs with hslash hnext hquote hdouble
      · have hcl : c ≠ lf := by rw [hslash]; decide
        have hnext' := hnext.imp hquote₁.1 hslash₁.1
        rw [if_pos hslash, if_pos hnext'] at hover
        rcases hnext' with hd | hd
        · exact htwo _ hd (by decide) hcl hover _
        · exact htwo _ hd (by decide) hcl hover _
      · rw [if_pos hslash, if_neg (mt (Or.imp hquote₁.2 hslash₁.2) hnext)] at hover
        refine hsingle m ?_ hover _
        rw [hslash, beq_eq_false_iff_ne.2 (by decide), Bool.or_false]
      · rw [if_neg hslash, if_pos hquote, if_pos (hquote₁.1 hdouble)] at hover
        exact htwo _ (hquote₁.1 hdouble) (by decide) (by rw [hquote]; decide) hover _
      · rw [if_neg hslash, if_pos hquote, if_neg (mt hquote₁.2 hdouble)] at hover
        refine ⟨[c], ?_, ?_, .inr (by rw [hquote]; rfl)⟩
        · exact hrest.trans (congrArg (c :: ·) hone.symm)
        · rw [hrest, hover]
          refine (congrArg (overruns (.blank m)) hone.symm).trans ?_
          have hnone : [c].contains lf = false := by rw [hquote]; decide
          rw [hnone, Bool.or_false]
          rfl
      · rw [if_neg hslash, if_neg hquote] at hover
        exact hsingle _ rfl hover _

theorem isPlain_cases (c : Byte) : (isNumeralChar c = true → isPlain c = true) ∧
    (isIdentContinue c = true → isPlain c = true) := by
  revert c
  decide +kernel

theorem isPlain_of_isNumeralChar {c : Byte} (h : isNumeralChar c = true) : isPlain c = true :=
  (isPlain_cases c).1 h

theorem isPlain_of_isIdentContinue {c : Byte} (h : isIdentContinue c = true) :
    isPlain c = true :=
  (isPlain_cases c).2 h

theorem lexNumber_plain (h : s.AtNumber) :
    ∀ c ∈ (s.lexNumber (R := R)).1.text, isPlain c = true := by
  obtain ⟨w, hw, -, -, hnumeral⟩ := lexNumeral_spells h
  have hplain : ∀ c ∈ w, isPlain c = true := fun c hc => isPlain_of_isNumeralChar (hnumeral c hc)
  unfold lexNumber
  cases hread : s.lexNumeral with
  | mk isReal e =>
    rw [hread] at hw
    have hmore := hw.trans (advanceWhile_consumes e isIdentContinue)
    dsimp only
    split_ifs
    · dsimp only
      rw [slice_eq hmore]
      intro c hc
      rcases List.mem_append.1 hc with hc | hc
      · exact hplain c hc
      · exact isPlain_of_isIdentContinue (List.mem_takeWhile_imp hc)
    · dsimp only
      rwa [slice_eq hw]
    · dsimp only
      rwa [slice_eq hw]

theorem lexIdentifier_plain (s : Lexer) :
    ∀ c ∈ (s.lexIdentifier (R := R)).1.text, isPlain c = true := by
  intro c hc
  unfold lexIdentifier at hc
  dsimp only at hc
  rw [slice_eq (advanceWhile_consumes s isIdentContinue)] at hc
  exact isPlain_of_isIdentContinue (List.mem_takeWhile_imp hc)

/-- What the pass over the text has to say of a token. -/
def PassedOver (s e : Lexer) (w : Text) : Prop :=
  overruns (.blank false) s.rest = overruns (.blank (w.contains lf)) e.rest ∧
    (w.getLast? = some lf → e.rest = [])

theorem passedOver_of_plain {w : Text} (hrest : s.rest = w ++ e.rest) (hnone : lf ∉ w)
    (h : overruns (.blank false) (w ++ e.rest) = overruns (.blank false) e.rest) :
    PassedOver s e w := by
  have hcontains : w.contains lf = false := by simpa using hnone
  refine ⟨?_, fun hlast => absurd (List.mem_of_getLast? hlast) hnone⟩
  rw [hrest, h, hcontains]

theorem lf_notMem_of_plain {w : Text} (h : ∀ c ∈ w, isPlain c = true) : lf ∉ w :=
  fun hmem => absurd (h lf hmem) (by decide)

theorem lexString_passedOver (h : s.peek 0 = ch '"') : PassedOver s
    (s.lexString (R := R) source).2.1 (s.lexString (R := R) source).1.text := by
  obtain ⟨rest, hrest⟩ := peek_zero (s := s) (by rw [h]; decide)
  rw [h] at hrest
  have hone : s.advance.rest = rest := rest_behind (w := [ch '"']) hrest
  have hlexes := (@lexString_lexes _ R _ source h).consumes.1
  obtain ⟨body, hbody, hover, hend⟩ :=
    @lexStringFrom_closesAt s.advance _ [] false le_rfl
  change PassedOver s (lexStringFrom s.advance.rest.length s.advance []).2.2 _
  have htext : (s.lexString (R := R) source).1.text = ch '"' :: body := by
    rw [hrest, ← hone, hbody] at hlexes
    exact (List.append_cancel_right hlexes).symm
  rw [htext]
  constructor
  · rw [hrest, overruns_blank_cons, if_neg (by decide),
      if_neg (not_or.2 ⟨by decide, fun h => absurd h.1 (by decide)⟩), if_neg Bool.false_ne_true,
      if_pos rfl, ← hone, hover, List.contains_cons]
    rfl
  · intro hlast
    refine hend.resolve_right fun hquote => ?_
    rw [List.getLast?_cons, hquote] at hlast
    exact absurd hlast (by decide)

theorem lexNumber_passedOver (h : s.AtNumber) :
    PassedOver s (s.lexNumber (R := R)).2 (s.lexNumber (R := R)).1.text := by
  have hplain := lexNumber_plain (R := R) h
  have hconsumes := (lexNumber_lexes (R := R) h).consumes.1
  exact passedOver_of_plain hconsumes (lf_notMem_of_plain hplain) (overruns_plain hplain _)

theorem lexIdentifier_passedOver (h : isIdentContinue (s.peek 0) = true) :
    PassedOver s (s.lexIdentifier (R := R)).2 (s.lexIdentifier (R := R)).1.text := by
  have hplain := lexIdentifier_plain (R := R) s
  have hconsumes := (lexIdentifier_lexes (R := R) h).consumes.1
  exact passedOver_of_plain hconsumes (lf_notMem_of_plain hplain) (overruns_plain hplain _)

theorem lexPunctuation_passedOver {c : Byte} {rest : Text} (hrest : s.rest = c :: rest)
    (hstops : Stops s.rest) (hquote : c ≠ ch '"') : PassedOver s
      (s.lexPunctuation (R := R) source).2.1 (s.lexPunctuation (R := R) source).1.text := by
  obtain ⟨hblank, hhash, hslash⟩ := hstops c rest hrest
  have hone : s.advance.rest = rest := rest_behind (w := [c]) hrest
  have htext : (s.lexPunctuation (R := R) source).1.text = [c] := slice_behind (w := [c]) hrest
  have hbehind : (s.lexPunctuation (R := R) source).2.1 = s.advance := rfl
  rw [htext, hbehind]
  refine passedOver_of_plain ?_ ?_ ?_
  · rw [hrest, hone]
    rfl
  · intro hmem
    rw [← List.mem_singleton.1 hmem] at hblank
    exact absurd hblank (by decide)
  · rw [List.singleton_append, overruns_blank_cons, hblank, hone, if_neg Bool.false_ne_true,
      if_neg (not_or.2 ⟨hhash, hslash⟩), if_neg Bool.false_ne_true, if_neg hquote]

/-- **Over a token.**  A token that ends in an end of a line is a string that is never closed. -/
theorem lexToken_passedOver (h : s.rest ≠ []) (hstops : Stops s.rest) : PassedOver s
    (s.lexToken (R := R) source).2.1 (s.lexToken (R := R) source).1.text := by
  obtain ⟨c, rest, hrest⟩ := List.exists_cons_of_ne_nil h
  have hpeek : s.peek 0 = c := peek_zero_cons hrest
  unfold lexToken
  dsimp only
  by_cases hnumber : isDigit (s.peek 0) ∨ (s.peek 0 = ch '.' ∧ isDigit (s.peek 1))
  · rw [if_pos hnumber]
    dsimp only
    exact lexNumber_passedOver hnumber
  · rw [if_neg hnumber]
    by_cases hname : isIdentStart (s.peek 0)
    · rw [if_pos hname]
      dsimp only
      refine lexIdentifier_passedOver ?_
      unfold isIdentStart at hname
      unfold isIdentContinue
      simp only [Bool.or_eq_true] at hname ⊢
      tauto
    · rw [if_neg hname]
      by_cases hquote : s.peek 0 = ch '"'
      · rw [if_pos hquote]
        exact lexString_passedOver hquote
      · rw [if_neg hquote]
        exact lexPunctuation_passedOver hrest hstops (hpeek ▸ hquote)

/-- The same of a piece of a text. -/
theorem passedOver_text {t : Token R} {after : Text} (hrest : s.rest = t.text ++ after)
    (hlex : (s.lexToken (R := R) source).1.text = t.text) (hne : t.text ≠ [])
    (hstops : Stops (t.text ++ after)) :
    overruns (.blank false) (t.text ++ after) = overruns (.blank (t.text.contains lf)) after ∧
      (t.text.getLast? = some lf → after = []) := by
  have hnil : s.rest ≠ [] := by
    rw [hrest]
    exact List.append_ne_nil_of_left_ne_nil hne _
  have hend : s.atEnd = false := by
    obtain ⟨c, rest, hcons⟩ := List.exists_cons_of_ne_nil hnil
    exact atEnd_cons hcons
  have hconsumes := (@lexToken_lexes _ R _ source hend).consumes.1
  have hpass := @lexToken_passedOver _ R _ source hnil (hrest ▸ hstops)
  have hafter : (s.lexToken (R := R) source).2.1.rest = after := by
    rw [hlex, hrest] at hconsumes
    exact (List.append_cancel_left hconsumes).symm
  unfold PassedOver at hpass
  rwa [hrest, hlex, hafter] at hpass

end Lexer

/-! ### Over all pieces -/

section

variable {R : Type} [Scalar R] {source : Source} {before after : Text} {first : Bool}
  {pieces earlier front : List (Piece R)} {p q : Piece R}

omit [Scalar R] in
/-- A token without an end of a line in front of it, and behind a token with one in it. -/
def Late : Bool → List (Piece R) → Prop
  | _, [] => False
  | multi, p :: rest =>
    (multi = true ∧ lf ∉ p.gap ∧ p.token.text ≠ []) ∨ Late (p.token.text.contains lf) rest

/-- **The pass over a text finds the late tokens.** -/
theorem Reading.overruns_iff (h : Reading source before first after pieces) (m : Bool) :
    overruns (.blank m) after = true ↔ Late m pieces := by
  induction h generalizing m with
  | @last _ gap _ e htrivia _ htext =>
    have hover := overruns_trivia htrivia m
    rw [List.append_nil, overruns_nil] at hover
    simp [hover, Late, htext]
  | @token _ gap after _ s t pieces htrivia hstops hrest hlex hne _ _ _ _ ih =>
    obtain ⟨hpass, -⟩ := Lexer.passedOver_text hrest hlex hne hstops
    rw [List.append_assoc, overruns_trivia htrivia, Late]
    cases hm : m && !gap.contains lf with
    | true =>
      obtain ⟨hm, hgap⟩ := Bool.and_eq_true_iff.1 hm
      rw [overruns_stops hstops (List.append_ne_nil_of_left_ne_nil hne _)]
      exact iff_of_true rfl (.inl ⟨hm, by simpa using hgap, hne⟩)
    | false =>
      rw [hpass, ih]
      refine ⟨.inr, fun h => h.resolve_left fun hlate => ?_⟩
      simp [hlate.1, hlate.2.1] at hm

omit [Scalar R] in
theorem late_iff (m : Bool) : Late m pieces ↔
    (m = true ∧ ∃ p later, pieces = p :: later ∧ lf ∉ p.gap ∧ p.token.text ≠ []) ∨
    ∃ front q p later, pieces = front ++ q :: p :: later ∧
      lf ∈ q.token.text ∧ lf ∉ p.gap ∧ p.token.text ≠ [] := by
  induction pieces generalizing m with
  | nil => simp [Late]
  | cons r pieces ih =>
    rw [Late, ih]
    constructor
    · rintro (⟨hm, hlate⟩ | ⟨hr, p, later, rfl, hlate⟩ | ⟨front, q, p, later, rfl, hlate⟩)
      · exact .inl ⟨hm, r, pieces, rfl, hlate⟩
      · exact .inr ⟨[], r, p, later, rfl, by simpa using hr, hlate⟩
      · exact .inr ⟨r :: front, q, p, later, rfl, hlate⟩
    · rintro (⟨hm, p, later, heq, hlate⟩ | ⟨front, q, p, later, heq, hq, hlate⟩)
      · obtain ⟨rfl, rfl⟩ := List.cons.inj heq
        exact .inl ⟨hm, hlate⟩
      · cases front with
        | nil =>
          obtain ⟨rfl, rfl⟩ := List.cons.inj heq
          exact .inr (.inl ⟨by simpa using hq, p, later, rfl, hlate⟩)
        | cons r' front =>
          obtain ⟨rfl, rfl⟩ := List.cons.inj heq
          exact .inr (.inr ⟨front, q, p, later, rfl, hq, hlate⟩)

omit [Scalar R] in
/-- A token shares its line when the token in front of it ends there. -/
theorem sharesLine_concat (hne : q.token.text ≠ []) : SharesLine (front ++ [q]) p ↔
    lf ∉ p.gap ∧ q.token.text.getLast? ≠ some lf := by
  have htext : textOf (front ++ [q]) = textOf front ++ q.gap ++ q.token.text := by
    rw [textOf_append]
    simp [textOf]
  constructor
  · rintro ⟨front', q', back, heq, k, hk, hcount⟩
    -- what stands between the byte and the token is without an end of a line
    have hsplit : textOf (front ++ [q]) = textOf front' ++ q'.gap ++ q'.token.text.take k ++
        (q'.token.text.drop k ++ textOf back) := by
      rw [heq, textOf_append, ← List.append_assoc _ (q'.token.text.drop k),
        List.append_assoc _ (q'.token.text.take k), List.take_append_drop]
      simp [textOf]
    have hne' : q'.token.text.drop k ++ textOf back ≠ [] := by
      refine List.append_ne_nil_of_left_ne_nil (List.ne_nil_of_length_pos ?_) _
      rw [List.length_drop]
      omega
    generalize textOf front' ++ q'.gap ++ q'.token.text.take k = upto at hsplit hcount
    generalize q'.token.text.drop k ++ textOf back = between at hsplit hne'
    rw [hsplit, List.count_append, List.count_append] at hcount
    have hbetween : lf ∉ between := List.count_eq_zero.1 (by omega)
    have hgap : lf ∉ p.gap := List.count_eq_zero.1 (by omega)
    refine ⟨hgap, fun hlast => hbetween ?_⟩
    have hlast' : (upto ++ between).getLast? = some lf := by
      rw [← hsplit, htext, List.getLast?_append, hlast]
      rfl
    rw [List.getLast?_append_of_ne_nil _ hne'] at hlast'
    exact List.mem_of_getLast? hlast'
  · rintro ⟨hgap, hlast⟩
    obtain ⟨body, c, hbody⟩ := (List.eq_nil_or_concat' q.token.text).resolve_left hne
    have hc : c ≠ lf := by
      rintro rfl
      exact hlast (by rw [hbody, List.getLast?_concat])
    refine ⟨front, q, [], rfl, body.length, by simp [hbody], ?_⟩
    have hgap' : p.gap.count lf = 0 := List.count_eq_zero.2 hgap
    rw [htext, hbody, List.take_left]
    simp [hc, hgap']

/-- What the flag of a token is. -/
theorem Reading.firstOnLine_eq (h : Reading source before first after pieces)
    {later : List (Piece R)} (heq : pieces = earlier ++ p :: later) :
    p.token.firstOnLine = ((earlier.getLast?.map (·.token.text.contains lf)).getD first ||
      p.gap.contains lf) := by
  have hsplit := h.split heq
  generalize textOf (p :: later) = text at hsplit
  cases hsplit with
  | last _ _ _ _ hfirst => exact hfirst
  | token _ _ _ _ _ _ _ hfirst => exact hfirst

/-- A token in front of another one. -/
theorem Reading.text_of_earlier (h : Reading source before first after pieces)
    {later : List (Piece R)} (heq : pieces = front ++ q :: p :: later) :
    q.token.text ≠ [] ∧ (q.token.text.getLast? = some lf → textOf (p :: later) = []) := by
  have hsplit := h.split heq
  generalize textOf (q :: p :: later) = text at hsplit
  cases hsplit with
  | token _ hstops hrest hlex hne _ _ _ hreading =>
    rw [hreading.textOf_eq]
    exact ⟨hne, (Lexer.passedOver_text hrest hlex hne hstops).2⟩

/-- A token without a text is the last one. -/
theorem Reading.last_of_empty (h : Reading source before first after pieces)
    {later : List (Piece R)} (heq : pieces = earlier ++ p :: later) (hempty : p.token.text = []) :
    later = [] := by
  have hsplit := h.split heq
  generalize textOf (p :: later) = text at hsplit
  cases hsplit with
  | last => rfl
  | token _ _ _ _ hne => exact absurd hempty hne

theorem getLast?_eq_lf {w : Text} (hne : w ≠ []) (h : ∀ c ∈ w.getLast?, c = lf) :
    w.getLast? = some lf := by
  obtain ⟨body, c, rfl⟩ := (List.eq_nil_or_concat' w).resolve_left hne
  rw [List.getLast?_concat, h c (by simp)]

/-- **The flags of a reading.** -/
theorem Reading.flagsRight_iff (h : Reading source [] true after pieces)
    (hended : ∀ c ∈ after.getLast?, c = lf) :
    FlagsRight pieces ↔ overruns (.blank false) after = false := by
  rw [← Bool.not_eq_true, h.overruns_iff, late_iff]
  constructor
  · rintro hright (⟨hm, -⟩ | ⟨front, q, p, later, heq, hq, hgap, hne⟩)
    · cases hm
    · obtain ⟨hqne, hclosed⟩ := h.text_of_earlier heq
      have heq' : pieces = (front ++ [q]) ++ p :: later := by simp [heq]
      have hset : p.token.firstOnLine = true := by
        rw [h.firstOnLine_eq heq', List.getLast?_concat]
        simp [hq]
      refine (hright _ p later heq').1 hset ((sharesLine_concat hqne).2 ⟨hgap, fun hlast => ?_⟩)
      have hnil := hclosed hlast
      simp [textOf, hne] at hnil
  · intro hlate earlier p later heq
    rw [h.firstOnLine_eq heq]
    rcases List.eq_nil_or_concat' earlier with rfl | ⟨front, q, rfl⟩
    · refine iff_of_true rfl ?_
      rintro ⟨front, q, back, hnil, -⟩
      exact absurd hnil (by simp)
    · have heq' : pieces = front ++ q :: p :: later := by simp [heq]
      obtain ⟨hqne, -⟩ := h.text_of_earlier heq'
      rw [sharesLine_concat hqne, List.getLast?_concat]
      by_cases hgap : lf ∈ p.gap
      · exact iff_of_true (by simp [hgap]) fun hshares => hshares.1 hgap
      · have hflag : ((Option.map (fun r : Piece R => r.token.text.contains lf) (some q)).getD true ||
            p.gap.contains lf) = true ↔ lf ∈ q.token.text := by simp [hgap]
        rw [hflag]
        constructor
        · rintro hmem ⟨-, hlast⟩
          by_cases hne : p.token.text = []
          · -- the end stands on the line of its own that is behind the text
            obtain rfl := h.last_of_empty heq hne
            have htext : after = textOf front ++ q.gap ++ q.token.text ++ p.gap := by
              rw [← h.textOf_eq, heq', textOf_append]
              simp [textOf, hne]
            by_cases hnil : p.gap = []
            · rw [htext, hnil, List.append_nil, List.getLast?_append_of_ne_nil _ hqne] at hended
              exact hlast (getLast?_eq_lf hqne hended)
            · rw [htext, List.getLast?_append_of_ne_nil _ hnil] at hended
              exact hgap (List.mem_of_getLast? (getLast?_eq_lf hnil hended))
          · exact hlate (.inr ⟨front, q, p, later, heq', hmem, hgap, hne⟩)
        · intro hshares
          exact List.mem_of_getLast? (not_not.1 fun hlast => hshares ⟨hgap, hlast⟩)

/-- **When the flags are right.**  Exactly when no token begins on the last line of a string that
began on an earlier line. -/
theorem first_on_line_iff (bytes name : Text) :
    ∃ pieces : List (Piece R), (tokenise (Source.normalise bytes name)).1 = pieces.map (·.token) ∧
      Division (Source.normalise bytes name).text pieces ∧
      (FlagsRight pieces ↔
        overruns (.blank false) (Source.normalise bytes name).text = false) := by
  obtain ⟨pieces, htokens, hreading⟩ := tokenise_reading (R := R) (Source.normalise bytes name)
  exact ⟨pieces, htokens, hreading.division,
    hreading.flagsRight_iff (Source.normalise_getLast? bytes name)⟩

end

/-- A string over two lines, and a name behind it. -/
def twoLines : Text := ascii "\"a\nb\" c"

/-- The name is on the line of the end of the string, and counts as the first token there. -/
theorem behind_string_first : ((tokenise (R := ℚ) (Source.normalise twoLines [])).1.map
      fun t => (t.text, t.location, t.firstOnLine)) =
      [(ascii "\"a\nb\"", ⟨1, 1⟩, true), (ascii "c", ⟨2, 4⟩, true), ([], ⟨3, 1⟩, true)] ∧
    ∃ pieces : List (Piece ℚ),
      (tokenise (Source.normalise twoLines [])).1 = pieces.map (·.token) ∧
      Division (Source.normalise twoLines []).text pieces ∧ ¬FlagsRight pieces := by
  obtain ⟨pieces, htokens, hreading⟩ := tokenise_reading (R := ℚ) (Source.normalise twoLines [])
  refine ⟨by decide +kernel, pieces, htokens, hreading.division, ?_⟩
  rw [hreading.flagsRight_iff (Source.normalise_getLast? twoLines [])]
  decide +kernel

end Text
end Canforge
