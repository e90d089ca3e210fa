/-
# The pieces of a text

Every step of the lexer is an `advance`, so that a lexer that has consumed a text is `behind` it.
What lies between two tokens is `Trivia`; `tokenise` divides a text into pieces, each a gap and a
token behind it (`Reading`), and at each of them it has counted lines and columns from the text in
front of it.
-/

import Canforge.Text.Normalise
import Canforge.Text.Tokens

namespace Canforge
namespace Text

open Canforge.Core

/-! ### The lexer behind some characters -/

/-- The lexer behind the characters of `w`. -/
def behind (s : Lexer) (w : Text) : Lexer := Lexer.advance^[w.length] s

section

variable {s : Lexer} {v w more : Text} {c : Byte}

@[simp] theorem behind_nil : behind s [] = s := rfl

theorem behind_behind (s : Lexer) (v w : Text) : behind (behind s v) w = behind s (v ++ w) := by
  rw [behind, behind, behind, List.length_append, Nat.add_comm, Function.iterate_add_apply]

theorem advance_eq (s : Lexer) (c : Byte) : s.advance = behind s [c] := rfl

theorem consumes_behind (h : s.rest = w ++ more) : s.Consumes (behind s w) w := by
  have hle : w.length ≤ s.rest.length := by simp [h]
  have hconsumes := Lexer.advanceN_consumes hle
  rwa [h, List.take_left] at hconsumes

theorem rest_behind (h : s.rest = w ++ more) : (behind s w).rest = more :=
  List.append_cancel_left ((consumes_behind h).1.symm.trans h)

theorem slice_behind (h : s.rest = w ++ more) : s.slice (behind s w) = w :=
  Lexer.slice_eq (consumes_behind h)

/-- A line begins behind an end of a line. -/
theorem atLineStart_behind (h : s.rest = w ++ more) :
    (behind s w).atLineStart = (s.atLineStart || w.contains lf) := by
  induction w generalizing s with
  | nil => simp
  | cons c w ih =>
    have hone : s.advance.rest = w ++ more := rest_behind (w := [c]) h
    have hstep : behind s (c :: w) = behind s.advance w := (behind_behind s [c] w).symm
    have hflag : s.advance.atLineStart = (s.atLineStart || decide (c = lf)) := by
      unfold Lexer.advance
      rw [h, List.cons_append]
      dsimp only
      split_ifs with hc
      · simp [hc]
      · simp [hc]
    rw [hstep, ih hone, hflag, List.contains_cons, Bool.or_assoc]
    congr 2
    by_cases hc : c = lf
    · simp [hc]
    · simp [hc, Ne.symm hc]

theorem peek_zero_cons (h : s.rest = c :: more) : s.peek 0 = c := by
  rw [Lexer.peek, h]
  rfl

theorem peek_one_cons {d : Byte} (h : s.rest = c :: d :: more) : s.peek 1 = d := by
  rw [Lexer.peek, h]
  rfl

theorem atEnd_cons (h : s.rest = c :: more) : s.atEnd = false := by
  rw [Lexer.atEnd, h]
  rfl

theorem takeWhile_append {p : Byte → Bool} (hall : ∀ c ∈ w, p c) (hstop : ∀ c ∈ more.head?, ¬p c) :
    (w ++ more).takeWhile p = w := by
  rw [List.takeWhile_append_of_pos hall]
  cases more with
  | nil => simp
  | cons c more =>
    have hc : ¬p c := hstop c rfl
    simp [hc]

/-- A loop over the bytes of one kind ends behind them. -/
theorem advanceWhile_eq {p : Byte → Bool} (h : s.rest = w ++ more) (hall : ∀ c ∈ w, p c)
    (hstop : ∀ c ∈ more.head?, ¬p c) : s.advanceWhile p = behind s w := by
  rw [Lexer.advanceWhile, h, takeWhile_append hall hstop, behind]

end

/-! ### Every step is an advance -/

namespace Lexer

/-- `e` is `s` behind some characters. -/
def Reaches (s e : Lexer) : Prop := ∃ w, s.rest = w ++ e.rest ∧ e = behind s w

variable {s e f : Lexer} {w : Text}

theorem Reaches.refl (s : Lexer) : s.Reaches s := ⟨[], rfl, rfl⟩

theorem Reaches.trans (h : s.Reaches e) (h' : e.Reaches f) : s.Reaches f := by
  obtain ⟨w, hw, he⟩ := h
  obtain ⟨v, hv, hf⟩ := h'
  refine ⟨w ++ v, ?_, ?_⟩
  · rw [hw, hv, List.append_assoc]
  · rw [hf, he, behind_behind]

theorem advance_reaches (s : Lexer) : s.Reaches s.advance := by
  cases hrest : s.rest with
  | nil =>
    have hsame : s.advance = s := by
      unfold advance
      rw [hrest]
    rw [hsame]
    exact Reaches.refl s
  | cons c rest => exact ⟨[c], hrest.trans (congrArg (c :: ·) (rest_behind (w := [c]) hrest).symm), rfl⟩

theorem advanceWhile_reaches (s : Lexer) (p : Byte → Bool) : s.Reaches (s.advanceWhile p) :=
  ⟨_, (advanceWhile_consumes s p).1, rfl⟩

theorem lexFraction_reaches (s : Lexer) : s.Reaches s.lexFraction.2 := by
  unfold lexFraction
  split_ifs
  · exact (advance_reaches s).trans (advanceWhile_reaches _ _)
  · exact advance_reaches s
  · exact Reaches.refl s

theorem lexExponent_reaches (s : Lexer) : s.Reaches s.lexExponent.2 := by
  unfold lexExponent
  dsimp only
  split_ifs
  · exact ((advance_reaches s).trans (advance_reaches _)).trans (advanceWhile_reaches _ _)
  · exact (advance_reaches s).trans (advanceWhile_reaches _ _)
  · exact Reaches.refl s
  · exact Reaches.refl s

theorem lexNumeral_reaches (s : Lexer) : s.Reaches s.lexNumeral.2 :=
  ((advanceWhile_reaches s _).trans (lexFraction_reaches _)).trans (lexExponent_reaches _)

theorem lexStringFrom_reaches (fuel : ℕ) (s : Lexer) (value : Text) :
    s.Reaches (lexStringFrom fuel s value).2.2 := by
  fun_induction lexStringFrom fuel s value with
  | case1 s value => exact Reaches.refl s
  | case2 fuel s value hend => exact Reaches.refl s
  | case3 fuel s value hend c hslash next hnext ih =>
    exact ((advance_reaches s).trans (advance_reaches _)).trans ih
  | case4 fuel s value hend c hslash next hnext ih => exact (advance_reaches s).trans ih
  | case5 fuel s value hend c hslash hquote hdouble ih =>
    exact ((advance_reaches s).trans (advance_reaches _)).trans ih
  | case6 fuel s value hend c hslash hquote hdouble => exact advance_reaches s
  | case7 fuel s value hend c hslash hquote ih => exact (advance_reaches s).trans ih

variable {R : Type} [Scalar R] {source : Source}

theorem lexNumber_reaches (s : Lexer) : s.Reaches (s.lexNumber (R := R)).2 := by
  have hnumeral := lexNumeral_reaches s
  unfold lexNumber
  cases hread : s.lexNumeral with
  | mk isReal e =>
    rw [hread] at hnumeral
    dsimp only at hnumeral ⊢
    split_ifs
    · exact hnumeral.trans (advanceWhile_reaches e _)
    · exact hnumeral
    · exact hnumeral

/-- **The lexer behind a token** is the one that has advanced over its text. -/
theorem lexToken_eq_behind (h : s.atEnd = false) : (s.lexToken (R := R) source).2.1 =
    behind s (s.lexToken (R := R) source).1.text := by
  have hreaches : s.Reaches (s.lexToken (R := R) source).2.1 := by
    unfold lexToken
    dsimp only
    split_ifs
    · exact lexNumber_reaches s
    · exact advanceWhile_reaches s _
    · exact (advance_reaches s).trans (lexStringFrom_reaches _ _ _)
    · exact advance_reaches s
  obtain ⟨w, hw, he⟩ := hreaches
  have hconsumes := (@lexToken_lexes _ R _ source h).consumes
  have htext : (s.lexToken (R := R) source).1.text = w :=
    List.append_cancel_right (hconsumes.1.symm.trans hw)
  rw [htext]
  exact he

end Lexer

/-! ### What lies between the tokens -/

/-- The blanks of `skip_trivia`. -/
def isBlank (c : Byte) : Bool :=
  decide (c = ch ' ' ∨ c = ch '\t' ∨ c = lf ∨ c = 0x0B ∨ c = 0x0C)

/-- Blanks and comments in front of a text; a comment goes to the end of its line. -/
inductive Trivia (more : Text) : Text → Prop
  | nil : Trivia more []
  | blank {c : Byte} {w : Text} : isBlank c = true → Trivia more w → Trivia more (c :: w)
  | comment {mark body w : Text} : mark = ascii "#" ∨ mark = ascii "//" → lf ∉ body →
      (∀ c ∈ (w ++ more).head?, c = lf) → Trivia more w → Trivia more (mark ++ body ++ w)

/-- No trivia begin at a text. -/
def Stops (more : Text) : Prop :=
  ∀ c rest, more = c :: rest →
    isBlank c = false ∧ c ≠ ch '#' ∧ ¬(c = ch '/' ∧ rest.head? = some (ch '/'))

namespace Lexer

theorem peek_one_iff {s : Lexer} {c d : Byte} {rest : Text} (h : s.rest = c :: rest) (hd : d ≠ 0) :
    s.peek 1 = d ↔ rest.head? = some d := by
  rw [peek, h]
  cases rest with
  | nil => exact iff_of_false (fun h0 => hd h0.symm) (by simp)
  | cons b rest => simp

/-- A comment ends in front of the end of its line, or of the text. -/
theorem advanceWhile_comment {s : Lexer} {mark rest : Text} (h : s.rest = mark ++ rest)
    (hmark : mark = ascii "#" ∨ mark = ascii "//") :
    ∃ body, lf ∉ body ∧ s.rest = mark ++ body ++ (s.advanceWhile (· != lf)).rest ∧
      s.advanceWhile (· != lf) = behind s (mark ++ body) ∧
      ∀ c ∈ (s.advanceWhile (· != lf)).rest.head?, c = lf := by
  have hmark' : ∀ c ∈ mark, (c != lf) = true := by
    rcases hmark with rfl | rfl <;> decide
  have htake : s.rest.takeWhile (· != lf) = mark ++ rest.takeWhile (· != lf) := by
    rw [h, List.takeWhile_append_of_pos hmark']
  have hrest := (advanceWhile_consumes s (· != lf)).1
  refine ⟨rest.takeWhile (· != lf), fun hmem => ?_, ?_, ?_, fun c hc => ?_⟩
  · exact absurd (List.mem_takeWhile_imp hmem) (by simp)
  · rwa [htake] at hrest
  · rw [← htake]
    rfl
  · have hdrop : (s.advanceWhile (· != lf)).rest = s.rest.dropWhile (· != lf) :=
      List.append_cancel_left (hrest.symm.trans List.takeWhile_append_dropWhile.symm)
    have hhead := List.head?_dropWhile_not (· != lf) s.rest
    rw [← hdrop, Option.mem_def.1 hc] at hhead
    simpa using hhead

theorem skipTriviaFrom_spec {fuel : ℕ} {s : Lexer} (h : s.rest.length ≤ fuel) :
    ∃ gap, s.rest = gap ++ (skipTriviaFrom fuel s).rest ∧ skipTriviaFrom fuel s = behind s gap ∧
      Trivia (skipTriviaFrom fuel s).rest gap ∧ Stops (skipTriviaFrom fuel s).rest := by
  induction fuel generalizing s with
  | zero =>
    have hnil : s.rest = [] := List.length_eq_zero_iff.1 (Nat.le_zero.1 h)
    refine ⟨[], rfl, rfl, .nil, fun c rest heq => ?_⟩
    exact absurd (hnil.symm.trans heq) (List.cons_ne_nil _ _).symm
  | succ fuel ih =>
    rw [skipTriviaFrom]
    cases hrest : s.rest with
    | nil =>
      have hend : s.atEnd = true := by rw [atEnd, hrest]; rfl
      rw [if_pos hend]
      refine ⟨[], hrest.symm, rfl, .nil, fun c rest heq => ?_⟩
      exact absurd (hrest.symm.trans heq) (List.cons_ne_nil _ _).symm
    | cons c rest =>
      have hpeek : s.peek 0 = c := peek_zero_cons hrest
      rw [atEnd_cons hrest, if_neg Bool.false_ne_true, hpeek]
      dsimp only
      -- a comment is consumed as a whole, and the end of its line stays
      have hcomment : ∀ mark : Text, (mark = ascii "#" ∨ mark = ascii "//") →
          (∃ tail, c :: rest = mark ++ tail) →
          ∃ gap, c :: rest = gap ++ (skipTriviaFrom fuel (s.advanceWhile (· != lf))).rest ∧
            skipTriviaFrom fuel (s.advanceWhile (· != lf)) = behind s gap ∧
            Trivia (skipTriviaFrom fuel (s.advanceWhile (· != lf))).rest gap ∧
            Stops (skipTriviaFrom fuel (s.advanceWhile (· != lf))).rest := by
        rintro mark hmark ⟨tail, htail⟩
        obtain ⟨body, hbody, hsplit, hbehind, hhead⟩ :=
          advanceWhile_comment (hrest.trans htail) hmark
        have hne : mark ++ body ≠ [] := by rcases hmark with rfl | rfl <;> simp [ascii]
        have hlt : (s.advanceWhile (· != lf)).rest.length ≤ fuel := by
          have hlength := congrArg List.length hsplit
          rw [List.length_append] at hlength
          have := List.length_pos_of_ne_nil hne
          omega
        obtain ⟨gap, hgap, he, htrivia, hstops⟩ := ih hlt
        refine ⟨mark ++ body ++ gap, ?_, ?_, ?_, hstops⟩
        · rw [← hrest, hsplit, List.append_assoc (mark ++ body), ← hgap]
        · rw [he, hbehind, behind_behind]
        · exact .comment hmark hbody (fun d hd => hhead d (hgap ▸ hd)) htrivia
      split_ifs with hblank hhash hslash
      · have hone := rest_behind (w := [c]) hrest
        obtain ⟨gap, hgap, he, htrivia, hstops⟩ := @ih (behind s [c]) (by
          rw [hone]
          rw [hrest] at h
          exact Nat.le_of_succ_le_succ h)
        refine ⟨c :: gap, ?_, ?_, ?_, hstops⟩
        · exact congrArg (c :: ·) (hone.symm.trans hgap)
        · exact he.trans (behind_behind s [c] gap)
        · exact .blank (decide_eq_true hblank) htrivia
      · exact hcomment (ascii "#") (.inl rfl) ⟨rest, by rw [hhash]; rfl⟩
      · obtain ⟨tail, rfl⟩ : ∃ tail, rest = ch '/' :: tail := by
          have hhead := (peek_one_iff hrest (by decide)).1 hslash.2
          exact ⟨rest.tail, (List.eq_cons_of_mem_head? hhead)⟩
        exact hcomment (ascii "//") (.inr rfl) ⟨tail, by rw [hslash.1]; rfl⟩
      · refine ⟨[], hrest.symm, rfl, .nil, fun d tail heq => ?_⟩
        obtain ⟨rfl, rfl⟩ := List.cons.inj (hrest.symm.trans heq)
        refine ⟨decide_eq_false hblank, hhash, fun hmark => hslash ⟨hmark.1, ?_⟩⟩
        exact (peek_one_iff hrest (by decide)).2 hmark.2

/-- **What `skip_trivia` skips.** -/
theorem skipTrivia_spec (s : Lexer) : ∃ gap, s.rest = gap ++ s.skipTrivia.rest ∧
    s.skipTrivia = behind s gap ∧ Trivia s.skipTrivia.rest gap ∧ Stops s.skipTrivia.rest :=
  skipTriviaFrom_spec le_rfl

end Lexer

/-! ### The pieces -/

/-- A gap and the token behind it. -/
structure Piece (R : Type) where
  gap : Text
  token : Token R

/-- The text of some pieces. -/
def textOf {R : Type} (pieces : List (Piece R)) : Text :=
  pieces.flatMap fun p => p.gap ++ p.token.text

/-- Where the lexer is behind a text. -/
def placeOf (before : Text) : SourceLocation :=
  ⟨BitVec.ofNat 32 (1 + before.count lf), BitVec.ofNat 32 (1 + (lineHead before).length)⟩

section

variable {R : Type} [Scalar R] (source : Source)

/-- The pieces that `tokenise` makes of a text behind another one, where `first` is whether a line
began in front of it. -/
inductive Reading : Text → Bool → Text → List (Piece R) → Prop
  | last {before gap : Text} {first : Bool} {e : Token R} : Trivia [] gap → e.kind = .end →
      e.text = [] → e.location = placeOf (before ++ gap) →
      e.firstOnLine = (first || gap.contains lf) → Reading before first gap [⟨gap, e⟩]
  | token {before gap after : Text} {first : Bool} {s : Lexer} {t : Token R}
      {pieces : List (Piece R)} : Trivia (t.text ++ after) gap → Stops (t.text ++ after) →
      s.rest = t.text ++ after → (s.lexToken source : Token R × _).1.text = t.text →
      t.text ≠ [] → t.kind ≠ .end → t.location = placeOf (before ++ gap) →
      t.firstOnLine = (first || gap.contains lf) →
      Reading (before ++ gap ++ t.text) (t.text.contains lf) after pieces →
      Reading before first (gap ++ t.text ++ after) (⟨gap, t⟩ :: pieces)

end

namespace Lexer

theorem here_advance {s : Lexer} {before rest : Text} {c : Byte} (h : s.rest = c :: rest)
    (hplace : s.here = placeOf before) : s.advance.here = placeOf (before ++ [c]) := by
  obtain ⟨hline, hcolumn⟩ := SourceLocation.mk.inj hplace
  have hsucc : ∀ n, BitVec.ofNat 32 (n + 1) = BitVec.ofNat 32 n + 1 := fun n => BitVec.ofNat_add n 1
  unfold advance placeOf lineHead
  rw [h]
  dsimp only
  split_ifs with hc
  · rw [hc, List.count_append, List.count_singleton_self, ← Nat.add_assoc, hsucc,
      List.rtakeWhile_concat_neg _ _ _ (by simp), ← hline]
    rfl
  · have hcount : (before ++ [c]).count lf = before.count lf := by simp [hc]
    rw [hcount, List.rtakeWhile_concat_pos _ _ _ (by simpa using hc), List.length_append,
      List.length_singleton, ← Nat.add_assoc, hsucc (_ + _), ← hline]
    exact congrArg (fun column => SourceLocation.mk s.line (column + 1)) hcolumn

/-- The place of a lexer is counted from the text in front of it. -/
theorem here_behind {s : Lexer} {before w more : Text} (h : s.rest = w ++ more)
    (hplace : s.here = placeOf before) : (behind s w).here = placeOf (before ++ w) := by
  induction w generalizing s before with
  | nil => rwa [List.append_nil]
  | cons c w ih =>
    have hone := @ih (behind s [c]) (before ++ [c]) (rest_behind (w := [c]) h)
      (here_advance h hplace)
    rwa [behind_behind, List.append_assoc] at hone

theorem lexToken_location {R : Type} [Scalar R] {source : Source} (s : Lexer) :
    (s.lexToken (R := R) source).1.location = s.here := by
  unfold lexToken
  dsimp only
  split_ifs
  · unfold lexNumber
    dsimp only
    split_ifs <;> rfl
  · rfl
  · rfl
  · rfl

theorem tokeniseFrom_reading {R : Type} [Scalar R] {source : Source} {fuel : ℕ} {s : Lexer}
    {before : Text} (hfuel : s.rest.length < fuel) (hplace : s.here = placeOf before) :
    ∃ pieces, (tokeniseFrom (R := R) source fuel s).1 = pieces.map (·.token) ∧
      Reading source before s.atLineStart s.rest pieces := by
  induction fuel generalizing s before with
  | zero => exact absurd hfuel (Nat.not_lt_zero _)
  | succ fuel ih =>
    obtain ⟨gap, hgap, hskip, htrivia, hstops⟩ := skipTrivia_spec s
    have hfirst : s.skipTrivia.atLineStart = (s.atLineStart || gap.contains lf) := by
      rw [hskip]
      exact atLineStart_behind hgap
    have hhere : s.skipTrivia.here = placeOf (before ++ gap) := by
      rw [hskip]
      exact here_behind hgap hplace
    rw [tokeniseFrom]
    dsimp only
    rw [hgap]
    -- the flag is no part of what the lexer has read
    generalize hs : ({ s.skipTrivia with atLineStart := false } : Lexer) = s₁
    have hrest : s₁.rest = s.skipTrivia.rest := by rw [← hs]
    have hhere₁ : s₁.here = placeOf (before ++ gap) := by rw [← hs]; exact hhere
    cases hend : s₁.atEnd with
    | true =>
      have hnil : s.skipTrivia.rest = [] := hrest.symm.trans (List.isEmpty_iff.1 hend)
      rw [if_pos rfl, hnil, List.append_nil]
      rw [hnil] at htrivia
      exact ⟨[⟨gap, _⟩], rfl, .last htrivia rfl rfl hhere₁ hfirst⟩
    | false =>
      rw [if_neg Bool.false_ne_true]
      have hlexes := @lexToken_lexes _ R _ source hend
      have hbehind := @lexToken_eq_behind _ R _ source hend
      have hlocation := @lexToken_location R _ source s₁
      have hlt : (s₁.lexToken (R := R) source).2.1.rest.length < fuel := by
        have := hlexes.consumes.length_lt hlexes.nonempty
        have := congrArg List.length hgap
        rw [List.length_append] at this
        have := congrArg List.length hrest
        omega
      have hafter := hlexes.consumes.1
      have hplace' := here_behind hafter hhere₁
      rw [← hbehind] at hplace'
      obtain ⟨pieces, htokens, hreading⟩ := ih hlt hplace'
      have hflag := atLineStart_behind hafter
      rw [← hbehind] at hflag
      have hlow : s₁.atLineStart = false := by rw [← hs]
      rw [hflag, hlow, Bool.false_or] at hreading
      let t : Token R :=
        { (s₁.lexToken (R := R) source).1 with firstOnLine := s.skipTrivia.atLineStart }
      refine ⟨⟨gap, t⟩ :: pieces, ?_, ?_⟩
      · rw [List.map_cons, htokens]
      · rw [← hrest, hafter] at htrivia hstops ⊢
        rw [← List.append_assoc]
        exact .token (t := t) htrivia hstops hafter rfl hlexes.nonempty hlexes.not_end
          (hlocation.trans hhere₁) hfirst hreading

end Lexer

/-- **A source is divided into pieces.** -/
theorem tokenise_reading {R : Type} [Scalar R] (source : Source) :
    ∃ pieces, (tokenise (R := R) source).1 = pieces.map (·.token) ∧
      Reading source [] true source.text pieces :=
  Lexer.tokeniseFrom_reading (s := { rest := source.text }) (Nat.lt_succ_self _) rfl

section

variable {R : Type} [Scalar R] {source : Source} {before after : Text} {first : Bool}
  {pieces : List (Piece R)}

omit [Scalar R] in
theorem textOf_append (a b : List (Piece R)) : textOf (a ++ b) = textOf a ++ textOf b :=
  List.flatMap_append

/-- The pieces make up the text. -/
theorem Reading.textOf_eq (h : Reading source before first after pieces) :
    textOf pieces = after := by
  induction h with
  | last _ _ htext => simp [textOf, htext]
  | token _ _ _ _ _ _ _ _ _ ih => rw [← ih, textOf, List.flatMap_cons]; rfl

/-- What is read at a piece, behind the earlier ones. -/
theorem Reading.split (h : Reading source before first after pieces)
    {earlier later : List (Piece R)} {p : Piece R} (heq : pieces = earlier ++ p :: later) :
    Reading source (before ++ textOf earlier)
      ((earlier.getLast?.map (·.token.text.contains lf)).getD first) (textOf (p :: later))
      (p :: later) := by
  induction earlier generalizing before first after pieces with
  | nil =>
    obtain rfl : pieces = p :: later := heq
    rw [h.textOf_eq]
    simpa [textOf] using h
  | cons q earlier ih =>
    cases h with
    | last => simp at heq
    | token htrivia hstops hrest hlex hne hkind hplace hfirst hreading =>
      obtain ⟨rfl, htail⟩ := List.cons.inj heq
      have hsplit := ih hreading htail
      rw [List.getLast?_cons, textOf, List.flatMap_cons, ← List.append_assoc, ← List.append_assoc]
      cases hlast : earlier.getLast? with
      | none => rwa [hlast] at hsplit
      | some r => rwa [hlast] at hsplit

/-- Gaps of trivia with tokens between them; the last token, and no other one, is the end. -/
structure Division (text : Text) (pieces : List (Piece R)) : Prop where
  text : textOf pieces = text
  trivia : ∀ earlier p later, pieces = earlier ++ p :: later →
    Trivia (p.token.text ++ textOf later) p.gap
  ended : ∃ front e, pieces = front ++ [e] ∧ e.token.kind = .end ∧ e.token.text = [] ∧
    ∀ p ∈ front, p.token.kind ≠ .end ∧ p.token.text ≠ []

theorem Reading.division (h : Reading source before first after pieces) :
    Division after pieces := by
  refine ⟨h.textOf_eq, fun earlier p later heq => ?_, ?_⟩
  · have hsplit := h.split heq
    generalize textOf (p :: later) = text at hsplit
    cases hsplit with
    | last htrivia _ htext => rwa [htext]
    | token htrivia _ _ _ _ _ _ _ hreading => rwa [hreading.textOf_eq]
  · induction h with
    | @last _ gap _ e _ hkind htext => exact ⟨[], ⟨gap, e⟩, rfl, hkind, htext, nofun⟩
    | @token _ gap _ _ _ t _ _ _ _ _ hne hkind _ _ _ ih =>
      obtain ⟨front, e, rfl, hend, hempty, hfront⟩ := ih
      refine ⟨⟨gap, t⟩ :: front, e, rfl, hend, hempty, fun p hp => ?_⟩
      rcases List.mem_cons.1 hp with rfl | hp
      · exact ⟨hkind, hne⟩
      · exact hfront p hp

end

end Text
end Canforge
