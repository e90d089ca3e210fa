/-
# A text in front of another one

The tokens of two texts one behind the other, the first of which ends in an end of a line: if the
lexer has nothing to report about the first, its tokens come first, and those of the second one
follow, so many lines further down (`tokenise_join`).  A lexer in the first text runs `Along` with
one in both: it looks at most at the character behind a token, and that is never behind the end of
the last line.
-/

import Canforge.Text.Positions

namespace Canforge
namespace Text

open Canforge.Core

/-- A token so many lines further down. -/
def moveBy {R : Type} (shift : BitVec 32) (t : Token R) : Token R :=
  { t with location := ⟨t.location.line + shift, t.location.column⟩ }

theorem moveBy_zero {R : Type} (t : Token R) : moveBy 0 t = t := by
  simp [moveBy]

/-! ### Gaps -/

section

variable {gap gap' more more' w : Text}

theorem Trivia.append (h : Trivia (gap' ++ more) gap) (h' : Trivia more gap') :
    Trivia more (gap ++ gap') := by
  induction h with
  | nil => exact h'
  | blank hc _ ih => exact .blank hc ih
  | @comment mark body w hmark hbody hhead _ ih =>
    rw [List.append_assoc]
    exact .comment hmark hbody (by rwa [List.append_assoc]) ih

/-- What stands behind a gap that ends in the end of a line does not matter to it. -/
theorem Trivia.ended (h : Trivia [] gap) (hend : ∀ c ∈ gap.getLast?, c = lf) (more : Text) :
    Trivia more gap := by
  induction h with
  | nil => exact .nil
  | @blank c w hc _ ih =>
    refine .blank hc (ih fun d hd => ?_)
    cases w with
    | nil => cases hd
    | cons e w => exact hend d (by simpa using hd)
  | @comment mark body w hmark hbody hhead _ ih =>
    cases w with
    | nil =>
      -- a comment with nothing behind it is not ended
      rw [List.append_nil] at hend
      have hne : mark ++ body ≠ [] := by rcases hmark with rfl | rfl <;> simp [ascii]
      obtain ⟨c, hc⟩ := Option.ne_none_iff_exists'.1 (mt List.getLast?_eq_none_iff.1 hne)
      have hlf := hend c hc
      have hmem := List.mem_of_getLast? hc
      rw [hlf] at hmem
      rcases List.mem_append.1 hmem with hmem | hmem
      · rcases hmark with rfl | rfl <;> exact absurd hmem (by decide)
      · exact absurd hmem hbody
    | cons e w =>
      refine .comment hmark hbody (fun c hc => hhead c (by simpa using hc)) (ih fun d hd => ?_)
      exact hend d (by simpa using hd)

/-- More text behind what stops a gap. -/
theorem Trivia.grow (h : Trivia more gap) (hne : more ≠ []) (rest : Text) :
    Trivia (more ++ rest) gap := by
  induction h with
  | nil => exact .nil
  | blank hc _ ih => exact .blank hc ih
  | @comment mark body w hmark hbody hhead _ ih =>
    refine .comment hmark hbody (fun c hc => hhead c ?_) ih
    obtain ⟨d, later, rfl⟩ := List.exists_cons_of_ne_nil hne
    cases w <;> simpa using hc

theorem Stops.nil_of_trivia (h : Stops (gap ++ more)) (hgap : Trivia more gap) : gap = [] := by
  cases hgap with
  | nil => rfl
  | @blank c w hc _ => exact absurd hc (by simp [(h c (w ++ more) rfl).1])
  | @comment mark body w hmark _ _ _ =>
    rcases hmark with rfl | rfl
    · obtain ⟨-, hhash, -⟩ := h (ch '#') (body ++ w ++ more) (by simp [ascii])
      exact absurd rfl hhash
    · obtain ⟨-, -, hslash⟩ := h (ch '/') (ch '/' :: body ++ w ++ more) (by simp [ascii])
      exact absurd ⟨rfl, rfl⟩ hslash

/-- The body of a comment is what stands in front of the end of the line. -/
theorem takeWhile_body {body : Text} (hbody : lf ∉ body) (hhead : ∀ c ∈ more.head?, c = lf) :
    (body ++ more).takeWhile (· != lf) = body :=
  takeWhile_append (fun c hc => by simpa using fun heq : c = lf => hbody (heq ▸ hc))
    fun c hc => by simp [hhead c hc]

/-- **A gap goes as far as it can.** -/
theorem Trivia.unique (h : Trivia more gap) (hstops : Stops more) (h' : Trivia more' gap')
    (hstops' : Stops more') (heq : gap ++ more = gap' ++ more') : gap = gap' := by
  induction h generalizing gap' with
  | nil =>
    rw [List.nil_append] at heq
    exact (Stops.nil_of_trivia (heq ▸ hstops) h').symm
  | @blank c w hc hw ih =>
    cases h' with
    | nil =>
      rw [List.nil_append] at heq
      exact Stops.nil_of_trivia (heq ▸ hstops') (.blank hc hw)
    | @blank c' w' _ hw' =>
      obtain ⟨rfl, htail⟩ := List.cons.inj heq
      rw [ih hw' htail]
    | @comment mark body w' hmark _ _ _ =>
      rcases hmark with rfl | rfl
      all_goals
        obtain ⟨rfl, -⟩ := List.cons.inj heq
        exact absurd hc (by decide)
  | @comment mark body w hmark hbody hhead hw ih =>
    cases h' with
    | nil =>
      rw [List.nil_append] at heq
      exact Stops.nil_of_trivia (heq ▸ hstops') (.comment hmark hbody hhead hw)
    | @blank c' w' hc' _ =>
      rcases hmark with rfl | rfl
      all_goals
        obtain ⟨rfl, -⟩ := List.cons.inj heq
        exact absurd hc' (by decide)
    | @comment mark' body' w' hmark' hbody' hhead' hw' =>
      have hmarks : mark = mark' := by
        rcases hmark with rfl | rfl <;> rcases hmark' with rfl | rfl
        · rfl
        · exact absurd (List.cons.inj heq).1 (by decide)
        · exact absurd (List.cons.inj heq).1 (by decide)
        · rfl
      subst hmarks
      rw [List.append_assoc, List.append_assoc, List.append_assoc, List.append_assoc] at heq
      have hrest := List.append_cancel_left heq
      have hbodies : body = body' := by
        rw [← takeWhile_body hbody hhead, hrest, takeWhile_body hbody' hhead']
      subst hbodies
      rw [ih hw' (List.append_cancel_left hrest)]

/-- What `skip_trivia` skips is the gap. -/
theorem skipTrivia_eq {s : Lexer} (h : s.rest = gap ++ more) (hgap : Trivia more gap)
    (hstops : Stops more) : s.skipTrivia = behind s gap := by
  obtain ⟨gap', hrest, hskip, hgap', hstops'⟩ := Lexer.skipTrivia_spec s
  rw [hskip, hgap.unique hstops hgap' hstops' (h.symm.trans hrest)]

end

/-! ### Two lexers -/

/-- A lexer in a text, and one in the same text so many lines and bytes further on, with more
behind it. -/
structure Along (shift : BitVec 32) (bytes : ℕ) (more : Text) (s s' : Lexer) : Prop where
  rest : s'.rest = s.rest ++ more
  pos : s'.pos = s.pos + bytes
  line : s'.line = s.line + shift
  column : s'.column = s.column
  atLineStart : s'.atLineStart = s.atLineStart

/-- A text that goes on, to the end of its last line at least. -/
def Unfinished (rest : Text) : Prop := ∃ front, rest = front ++ [lf]

section

variable {shift : BitVec 32} {bytes : ℕ} {more w after : Text} {s s' : Lexer}

theorem Unfinished.ne_nil {rest : Text} (h : Unfinished rest) : rest ≠ [] := by
  obtain ⟨front, rfl⟩ := h
  simp

theorem Unfinished.tail {c : Byte} {rest : Text} (h : Unfinished (c :: rest)) (hc : c ≠ lf) :
    Unfinished rest := by
  obtain ⟨front, hfront⟩ := h
  cases front with
  | nil => exact absurd (List.cons.inj hfront).1 hc
  | cons d front => exact ⟨front, (List.cons.inj hfront).2⟩

theorem Unfinished.of_append (h : Unfinished (w ++ after)) (hne : after ≠ []) :
    Unfinished after := by
  obtain ⟨front, hfront⟩ := h
  obtain ⟨init, c, rfl⟩ := (List.eq_nil_or_concat' after).resolve_left hne
  rw [← List.append_assoc] at hfront
  obtain ⟨-, hc⟩ := List.append_inj' hfront rfl
  exact ⟨init, by rw [hc]⟩

theorem Along.advance {c : Byte} {rest : Text} (h : Along shift bytes more s s')
    (hrest : s.rest = c :: rest) : Along shift bytes more s.advance s'.advance := by
  have hrest' : s'.rest = c :: (rest ++ more) := by rw [h.rest, hrest]; rfl
  unfold Lexer.advance
  rw [hrest, hrest']
  dsimp only
  split_ifs
  · refine ⟨rfl, ?_, ?_, rfl, rfl⟩
    · change s'.pos + 1 = s.pos + 1 + bytes
      rw [h.pos]
      omega
    · change s'.line + 1 = s.line + 1 + shift
      rw [h.line, add_right_comm]
  · refine ⟨rfl, ?_, h.line, ?_, h.atLineStart⟩
    · change s'.pos + 1 = s.pos + 1 + bytes
      rw [h.pos]
      omega
    · exact congrArg (· + 1) h.column

theorem Along.behind (h : Along shift bytes more s s') (hrest : s.rest = w ++ after) :
    Along shift bytes more (behind s w) (behind s' w) := by
  induction w generalizing s s' with
  | nil => exact h
  | cons c w ih =>
    have hone := h.advance hrest
    have hnext := ih hone (rest_behind (w := [c]) hrest)
    rwa [advance_eq s c, advance_eq s' c, behind_behind, behind_behind] at hnext

theorem Along.here (h : Along shift bytes more s s') :
    s'.here = ⟨s.here.line + shift, s.here.column⟩ := by
  rw [Lexer.here, h.line, h.column]
  rfl

theorem Along.peek (h : Along shift bytes more s s') {n : ℕ} (hn : n < s.rest.length) :
    s'.peek n = s.peek n := by
  rw [Lexer.peek, Lexer.peek, h.rest, List.getD_append _ _ _ _ hn]

/-- The text between two lexers. -/
theorem Along.slice {e e' : Lexer} (h : Along shift bytes more s s')
    (he : Along shift bytes more e e') (hreaches : s.Reaches e) : s'.slice e' = s.slice e := by
  obtain ⟨w, hw, heq⟩ := hreaches
  have hcons : s.Consumes e w := heq ▸ consumes_behind hw
  have hcons' : s'.Consumes e' w := by
    refine ⟨?_, ?_⟩
    · rw [h.rest, hw, he.rest, List.append_assoc]
    · rw [he.pos, hcons.2, h.pos]
      omega
  rw [Lexer.slice_eq hcons, Lexer.slice_eq hcons']

/-- Two lexers with the end of the line in front of them, or nothing behind the text. -/
structure Inside (shift : BitVec 32) (bytes : ℕ) (more : Text) (s s' : Lexer) : Prop where
  along : Along shift bytes more s s'
  closed : more = [] ∨ Unfinished s.rest

namespace Inside

/-- What is seen behind characters that do not end the line. -/
theorem peek (h : Inside shift bytes more s s') {n : ℕ} (hn : ∀ i < n, s.peek i ≠ lf) :
    s'.peek n = s.peek n := by
  rcases h.closed with hnil | ⟨front, hfront⟩
  · rw [Lexer.peek, Lexer.peek, h.along.rest, hnil, List.append_nil]
  · refine h.along.peek ?_
    by_contra hlong
    have hlength : s.rest.length = front.length + 1 := by rw [hfront]; simp
    refine hn front.length (by omega) ?_
    rw [Lexer.peek, hfront]
    simp

theorem peek_zero (h : Inside shift bytes more s s') : s'.peek 0 = s.peek 0 :=
  h.peek fun i hi => absurd hi (Nat.not_lt_zero i)

theorem peek_one (h : Inside shift bytes more s s') (hc : s.peek 0 ≠ lf) : s'.peek 1 = s.peek 1 :=
  h.peek fun i hi => by rwa [Nat.lt_one_iff.1 hi]

/-- Behind some of the text, the end of the line apart. -/
theorem behind (h : Inside shift bytes more s s') (hrest : s.rest = w ++ after)
    (hlf : w.getLast? ≠ some lf) :
    Inside shift bytes more (behind s w) (behind s' w) := by
  refine ⟨h.along.behind hrest, h.closed.imp_right fun hopen => ?_⟩
  rw [rest_behind hrest]
  rw [hrest] at hopen
  refine hopen.of_append fun hnil => hlf ?_
  obtain ⟨front, hfront⟩ := hopen
  rw [hnil, List.append_nil] at hfront
  rw [hfront]
  simp

theorem advance (h : Inside shift bytes more s s') (hc : s.peek 0 ≠ lf) :
    Inside shift bytes more s.advance s'.advance := by
  cases hs : s.rest with
  | nil =>
    have hmore : more = [] := h.closed.resolve_right fun hopen => hopen.ne_nil hs
    have hs' : s'.rest = [] := by rw [h.along.rest, hs, hmore]; rfl
    have hstay : s.advance = s := by rw [Lexer.advance, hs]
    have hstay' : s'.advance = s' := by rw [Lexer.advance, hs']
    rwa [hstay, hstay']
  | cons c rest =>
    rw [peek_zero_cons hs] at hc
    exact h.behind (w := [c]) hs (by simpa using hc)

theorem advanceWhile (h : Inside shift bytes more s s') {p : Byte → Bool} (hp : p lf = false) :
    Inside shift bytes more (s.advanceWhile p) (s'.advanceWhile p) := by
  have hsplit : s.rest = s.rest.takeWhile p ++ s.rest.dropWhile p :=
    (List.takeWhile_append_dropWhile).symm
  have hall : ∀ d ∈ s.rest.takeWhile p, p d = true := fun d hd => List.mem_takeWhile_imp hd
  have hrest' : s'.rest = s.rest.takeWhile p ++ (s.rest.dropWhile p ++ more) := by
    rw [h.along.rest, ← List.append_assoc, ← hsplit]
  have hstop : ∀ c ∈ (s.rest.dropWhile p ++ more).head?, ¬p c = true := by
    intro c hc
    by_cases hne : s.rest.dropWhile p = []
    · rcases h.closed with hnil | ⟨front, hfront⟩
      · simp [hne, hnil] at hc
      · have hlast := List.dropWhile_eq_nil_iff.1 hne lf (by simp [hfront])
        rw [hp] at hlast
        cases hlast
    · rw [List.head?_append_of_ne_nil _ hne, List.head?_eq_some_head hne] at hc
      rw [← Option.some.inj hc]
      simp [List.head_dropWhile_not p hne]
  have hsame : s.advanceWhile p = Text.behind s (s.rest.takeWhile p) := rfl
  rw [hsame, advanceWhile_eq hrest' hall hstop]
  refine h.behind hsplit fun hlast => ?_
  have := hall lf (List.mem_of_getLast? hlast)
  rw [hp] at this
  cases this

theorem lexFraction (h : Inside shift bytes more s s') :
    s'.lexFraction.1 = s.lexFraction.1 ∧
      Inside shift bytes more s.lexFraction.2 s'.lexFraction.2 := by
  unfold Lexer.lexFraction
  rw [h.peek_zero]
  by_cases hdot : s.peek 0 = ch '.'
  · have hne : s.peek 0 ≠ lf := by rw [hdot]; decide
    rw [h.peek_one hne]
    have hadvance := h.advance hne
    split_ifs
    · exact ⟨rfl, hadvance.advanceWhile (by decide)⟩
    · exact ⟨rfl, hadvance⟩
    · exact ⟨rfl, h⟩
  · rw [if_neg fun hc => hdot hc.1, if_neg fun hc => hdot hc.1, if_neg fun hc => hdot hc.1,
      if_neg fun hc => hdot hc.1]
    exact ⟨rfl, h⟩

theorem lexExponent (h : Inside shift bytes more s s') :
    s'.lexExponent.1 = s.lexExponent.1 ∧
      Inside shift bytes more s.lexExponent.2 s'.lexExponent.2 := by
  unfold Lexer.lexExponent
  dsimp only
  rw [h.peek_zero]
  by_cases he : s.peek 0 = ch 'e' ∨ s.peek 0 = ch 'E'
  · have hne : s.peek 0 ≠ lf := by rcases he with he | he <;> · rw [he]; decide
    rw [if_pos he, if_pos he, h.peek_one hne]
    have hadvance := h.advance hne
    by_cases hsigned : s.peek 1 = ch '+' ∨ s.peek 1 = ch '-'
    · have hsign : s.peek 1 ≠ lf := by rcases hsigned with hone | hone <;> · rw [hone]; decide
      have htwo : s'.peek 2 = s.peek 2 := by
        refine h.peek fun i hi => ?_
        interval_cases i
        · exact hne
        · exact hsign
      rw [htwo]
      have hzero : s.peek 0 ≠ 0 := by rcases he with he | he <;> · rw [he]; decide
      have hnext := hadvance.advance (by rwa [Lexer.advance_peek_zero hzero])
      split_ifs
      · exact ⟨rfl, hnext.advanceWhile (by decide)⟩
      · exact ⟨rfl, h⟩
    · simp only [hsigned, false_and, false_or, if_false]
      split_ifs
      · exact ⟨rfl, hadvance.advanceWhile (by decide)⟩
      · exact ⟨rfl, h⟩
  · rw [if_neg he, if_neg he]
    exact ⟨rfl, h⟩

theorem lexNumeral (h : Inside shift bytes more s s') :
    s'.lexNumeral.1 = s.lexNumeral.1 ∧ Inside shift bytes more s.lexNumeral.2 s'.lexNumeral.2 := by
  obtain ⟨hfraction, hmantissa⟩ := (h.advanceWhile (p := isDigit) (by decide)).lexFraction
  obtain ⟨hexponent, hend⟩ := hmantissa.lexExponent
  refine ⟨?_, hend⟩
  simp only [Lexer.lexNumeral]
  rw [hfraction, hexponent]

variable {R : Type} [Scalar R]

/-- The token and what is behind it, in both texts. -/
def Same (shift : BitVec 32) (bytes : ℕ) (more : Text) (r r' : Token R × Lexer) : Prop :=
  r'.1 = moveBy shift r.1 ∧ Inside shift bytes more r.2 r'.2

theorem lexIdentifier (h : Inside shift bytes more s s') :
    Same shift bytes more (s.lexIdentifier (R := R)) s'.lexIdentifier := by
  have hend := h.advanceWhile (p := isIdentContinue) (by decide)
  have hslice := h.along.slice hend.along (Lexer.advanceWhile_reaches s isIdentContinue)
  refine ⟨?_, hend⟩
  simp only [Lexer.lexIdentifier, moveBy]
  rw [hslice, h.along.here]

theorem lexNumber (h : Inside shift bytes more s s') :
    Same shift bytes more (s.lexNumber (R := R)) s'.lexNumber := by
  obtain ⟨hreal, hend⟩ := h.lexNumeral
  have hnumeral := Lexer.lexNumeral_reaches s
  unfold Lexer.lexNumber
  cases hread : s.lexNumeral with
  | mk isReal e =>
    cases hread' : s'.lexNumeral with
    | mk isReal' e' =>
      rw [hread, hread'] at hreal hend
      rw [hread] at hnumeral
      dsimp only at hreal hend hnumeral ⊢
      subst hreal
      have hslice := h.along.slice hend.along hnumeral
      have hname := hend.advanceWhile (p := isIdentContinue) (by decide)
      have hslice' := h.along.slice hname.along
        (hnumeral.trans (Lexer.advanceWhile_reaches e isIdentContinue))
      rw [hend.peek_zero]
      split_ifs
      · refine ⟨?_, hname⟩
        simp only [moveBy]
        rw [hslice', h.along.here]
      · refine ⟨?_, hend⟩
        simp only [moveBy]
        rw [hslice, h.along.here]
      · refine ⟨?_, hend⟩
        simp only [moveBy]
        rw [hslice, h.along.here]

/-- A string that is closed in the text. -/
theorem lexStringFrom {fuel fuel' : ℕ} {value read : Text} {e : Lexer}
    (h : Along shift bytes more s s') (hclosed : more = [] ∨ s.rest = [] ∨ Unfinished s.rest)
    (hle : fuel ≤ fuel') (hrun : Lexer.lexStringFrom fuel s value = (read, true, e)) :
    ∃ e', Lexer.lexStringFrom fuel' s' value = (read, true, e') ∧
      Inside shift bytes more e e' := by
  induction fuel generalizing fuel' s s' value with
  | zero => simp [Lexer.lexStringFrom] at hrun
  | succ fuel ih =>
    obtain ⟨fuel', rfl⟩ : ∃ n, fuel' = n + 1 := ⟨fuel' - 1, by omega⟩
    have hle' := Nat.le_of_succ_le_succ hle
    rw [Lexer.lexStringFrom] at hrun
    cases hs : s.rest with
    | nil =>
      have hat : s.atEnd = true := by rw [Lexer.atEnd, hs]; rfl
      rw [if_pos hat] at hrun
      simp at hrun
    | cons c rest =>
      have hopen : Inside shift bytes more s s' :=
        ⟨h, hclosed.imp_right fun hor => hor.resolve_left (by rw [hs]; exact List.cons_ne_nil _ _)⟩
      have hs' : s'.rest = c :: (rest ++ more) := by rw [h.rest, hs]; rfl
      have hgo : ∀ {f f' : Lexer} {v : Text}, Inside shift bytes more f f' →
          Lexer.lexStringFrom fuel f v = (read, true, e) →
          ∃ e', Lexer.lexStringFrom fuel' f' v = (read, true, e') ∧
            Inside shift bytes more e e' := fun hf hread =>
        ih hf.along (hf.closed.imp_right .inr) hle' hread
      have hc : s.peek 0 = c := peek_zero_cons hs
      rw [atEnd_cons hs, if_neg Bool.false_ne_true] at hrun
      rw [Lexer.lexStringFrom, atEnd_cons hs', if_neg Bool.false_ne_true, hopen.peek_zero]
      dsimp only at hrun ⊢
      by_cases hlf : c = lf
      · -- behind the end of a line the text may be at its end
        have hslash : ¬s.peek 0 = ch '\\' := by rw [hc, hlf]; decide
        have hquote : ¬s.peek 0 = ch '"' := by rw [hc, hlf]; decide
        rw [if_neg hslash, if_neg hquote] at hrun ⊢
        refine ih (h.advance hs) (hclosed.imp_right fun hor => ?_) hle' hrun
        have hrest : s.advance.rest = rest := rest_behind (w := [c]) hs
        rw [hrest]
        by_cases hnil : rest = []
        · exact .inl hnil
        · rw [hs] at hor
          exact .inr (Unfinished.of_append (w := [c])
            (hor.resolve_left (List.cons_ne_nil _ _)) hnil)
      · have hne : s.peek 0 ≠ lf := by rwa [hc]
        have hone := hopen.advance hne
        have htwo : s.peek 0 ≠ 0 → s.peek 1 ≠ lf →
            Inside shift bytes more s.advance.advance s'.advance.advance := fun hzero hnext =>
          hone.advance (by rwa [Lexer.advance_peek_zero hzero])
        rw [hopen.peek_one hne]
        by_cases hslash : s.peek 0 = ch '\\'
        · rw [if_pos hslash] at hrun ⊢
          by_cases hnext : s.peek 1 = ch '"' ∨ s.peek 1 = ch '\\'
          · rw [if_pos hnext] at hrun ⊢
            rw [hone.peek_zero]
            refine hgo (htwo (by rw [hslash]; decide) ?_) hrun
            rcases hnext with hnext | hnext <;> · rw [hnext]; decide
          · rw [if_neg hnext] at hrun ⊢
            exact hgo hone hrun
        · rw [if_neg hslash] at hrun ⊢
          by_cases hquote : s.peek 0 = ch '"'
          · rw [if_pos hquote] at hrun ⊢
            by_cases hnext : s.peek 1 = ch '"'
            · rw [if_pos hnext] at hrun ⊢
              rw [hone.peek_zero]
              exact hgo (htwo (by rw [hquote]; decide) (by rw [hnext]; decide)) hrun
            · rw [if_neg hnext] at hrun ⊢
              cases hrun
              exact ⟨_, rfl, hone⟩
          · rw [if_neg hquote] at hrun ⊢
            exact hgo hone hrun

section

variable {source source' : Source}

/-- The same, with nothing to report in the longer text. -/
def Quiet (shift : BitVec 32) (bytes : ℕ) (more : Text)
    (r r' : Token R × Lexer × List Diagnostic) : Prop :=
  r'.2.2 = [] ∧ Same shift bytes more (r.1, r.2.1) (r'.1, r'.2.1)

theorem lexString (h : Inside shift bytes more s s') (hquote : s.peek 0 = ch '"')
    (hquiet : (s.lexString (R := R) source).2.2 = []) :
    Quiet shift bytes more (s.lexString (R := R) source) (s'.lexString source') := by
  have hone := h.advance (by rw [hquote]; decide)
  unfold Lexer.lexString at hquiet ⊢
  dsimp only at hquiet ⊢
  cases hread : Lexer.lexStringFrom s.advance.rest.length s.advance [] with
  | mk read rest =>
    obtain ⟨terminated, e⟩ := rest
    rw [hread] at hquiet
    cases terminated with
    | false => simp at hquiet
    | true =>
      have hle : s.advance.rest.length ≤ s'.advance.rest.length := by
        rw [hone.along.rest, List.length_append]
        exact Nat.le_add_right _ _
      obtain ⟨e', hread', hend⟩ :=
        lexStringFrom hone.along (hone.closed.imp_right .inr) hle hread
      have hreaches := (Lexer.advance_reaches s).trans
        (Lexer.lexStringFrom_reaches s.advance.rest.length s.advance [])
      rw [hread] at hreaches
      rw [hread']
      refine ⟨rfl, ?_, hend⟩
      simp only [moveBy]
      rw [h.along.slice hend.along hreaches, h.along.here]

theorem lexPunctuation (h : Inside shift bytes more s s') (hne : s.peek 0 ≠ lf)
    (hquiet : (s.lexPunctuation (R := R) source).2.2 = []) :
    Quiet shift bytes more (s.lexPunctuation (R := R) source) (s'.lexPunctuation source') := by
  have hend := h.advance hne
  unfold Lexer.lexPunctuation at hquiet ⊢
  dsimp only at hquiet ⊢
  rw [h.peek_zero]
  by_cases hkind : Lexer.punctuation (s.peek 0) = .unknown
  · rw [if_pos hkind] at hquiet
    cases hquiet
  · refine ⟨if_neg hkind, ?_, hend⟩
    simp only [moveBy]
    rw [h.along.slice hend.along (Lexer.advance_reaches s), h.along.here]

/-- **A token of both texts**, if there is nothing to report about it. -/
theorem lexToken (source' : Source) (h : Inside shift bytes more s s') (hne : s.peek 0 ≠ lf)
    (hquiet : (s.lexToken (R := R) source).2.2 = []) :
    Quiet shift bytes more (s.lexToken (R := R) source) (s'.lexToken source') := by
  unfold Lexer.lexToken at hquiet ⊢
  dsimp only at hquiet ⊢
  rw [h.peek_zero, h.peek_one hne]
  by_cases hnumber : isDigit (s.peek 0) ∨ (s.peek 0 = ch '.' ∧ isDigit (s.peek 1))
  · rw [if_pos hnumber, if_pos hnumber]
    have hsame := h.lexNumber (R := R)
    generalize s.lexNumber (R := R) = r at hsame ⊢
    generalize s'.lexNumber (R := R) = r' at hsame ⊢
    exact ⟨rfl, hsame⟩
  · rw [if_neg hnumber] at hquiet
    rw [if_neg hnumber, if_neg hnumber]
    by_cases hname : isIdentStart (s.peek 0)
    · rw [if_pos hname, if_pos hname]
      have hsame := h.lexIdentifier (R := R)
      generalize s.lexIdentifier (R := R) = r at hsame ⊢
      generalize s'.lexIdentifier (R := R) = r' at hsame ⊢
      exact ⟨rfl, hsame⟩
    · rw [if_neg hname] at hquiet
      rw [if_neg hname, if_neg hname]
      by_cases hquote : s.peek 0 = ch '"'
      · rw [if_pos hquote] at hquiet
        rw [if_pos hquote, if_pos hquote]
        exact h.lexString hquote hquiet
      · rw [if_neg hquote] at hquiet
        rw [if_neg hquote, if_neg hquote]
        exact h.lexPunctuation hne hquiet

end

end Inside

end

/-! ### All tokens -/

section

variable {R : Type} [Scalar R] {source source' : Source} {s s' : Lexer}

/-- The token behind all the others. -/
def Lexer.endToken (R : Type) [Scalar R] (s : Lexer) : Token R :=
  { location := s.here, real := Scalar.lit 0, firstOnLine := s.atLineStart }

/-- The tokens from a lexer on, and what there is to report. -/
def Lexer.tokens (R : Type) [Scalar R] (source : Source) (s : Lexer) :
    List (Token R) × List Diagnostic :=
  tokeniseFrom source (s.rest.length + 1) s

/-- The lexer behind a gap, where the next token is read. -/
def Lexer.atToken (s : Lexer) : Lexer := { s.skipTrivia with atLineStart := false }

theorem Lexer.length_behind_token (source : Source) (h : s.atToken.atEnd = false) :
    (s.atToken.lexToken (R := R) source).2.1.rest.length < s.rest.length := by
  have hlexes := @lexToken_lexes _ R _ source h
  have htoken := hlexes.consumes.length_lt hlexes.nonempty
  obtain ⟨gap, hgap, -⟩ := skipTrivia_spec s
  have hlength := congrArg List.length hgap
  rw [List.length_append] at hlength
  have hat : s.atToken.rest.length = s.skipTrivia.rest.length := rfl
  omega

/-- A round of `tokenise`: a token in front of those that `later` reads behind it. -/
def Lexer.round (source : Source) (s : Lexer) (later : Lexer → List (Token R) × List Diagnostic) :
    List (Token R) × List Diagnostic :=
  if s.atToken.atEnd then ([s.skipTrivia.endToken R], [])
  else
    let r : Token R × Lexer × List Diagnostic := s.atToken.lexToken source
    ({ r.1 with firstOnLine := s.skipTrivia.atLineStart } :: (later r.2.1).1,
      r.2.2 ++ (later r.2.1).2)

theorem Lexer.tokeniseFrom_succ (fuel : ℕ) (s : Lexer) :
    tokeniseFrom (R := R) source (fuel + 1) s = s.round source (tokeniseFrom source fuel) := by
  have hat : ({ s.skipTrivia with atLineStart := false } : Lexer) = s.atToken := rfl
  rw [tokeniseFrom, round]
  dsimp only
  rw [hat]
  split_ifs
  · rfl
  · generalize s.atToken.lexToken (R := R) source = r
    rfl

theorem Lexer.round_congr {later later' : Lexer → List (Token R) × List Diagnostic}
    (h : ∀ e : Lexer, e.rest.length < s.rest.length → later e = later' e) :
    s.round source later = s.round source later' := by
  unfold round
  split_ifs with hend
  · rfl
  · have hlt := length_behind_token (R := R) (s := s) source (by simpa using hend)
    dsimp only
    rw [h _ hlt]

/-- More fuel than there are bytes changes nothing. -/
theorem Lexer.tokeniseFrom_eq {fuel : ℕ} (h : s.rest.length < fuel) :
    tokeniseFrom (R := R) source fuel s = s.tokens R source := by
  unfold tokens
  suffices hsame : ∀ fuel' : ℕ, s.rest.length < fuel' →
      tokeniseFrom (R := R) source fuel s = tokeniseFrom source fuel' s from hsame _ (by omega)
  intro fuel' h'
  induction fuel generalizing fuel' s with
  | zero => exact absurd h (Nat.not_lt_zero _)
  | succ fuel ih =>
    obtain ⟨fuel', rfl⟩ : ∃ n, fuel' = n + 1 := ⟨fuel' - 1, by omega⟩
    rw [tokeniseFrom_succ, tokeniseFrom_succ]
    exact round_congr fun e he => ih (by omega) fuel' (by omega)

theorem Lexer.tokens_eq (s : Lexer) : s.tokens R source = s.round source (tokens R source) := by
  rw [tokens, tokeniseFrom_succ]
  exact round_congr fun e he => tokeniseFrom_eq he

/-- The tokens are those behind the gap. -/
theorem Lexer.tokens_congr (h : s.skipTrivia = s'.skipTrivia) :
    s.tokens R source = s'.tokens R source := by
  rw [tokens_eq, tokens_eq s', round, round, atToken, atToken, h]

theorem Stops.grow {rest more : Text} (h : Stops rest) (hne : rest ≠ [])
    (hclosed : more = [] ∨ Unfinished rest) : Stops (rest ++ more) := by
  intro c later heq
  obtain ⟨d, w, rfl⟩ := List.exists_cons_of_ne_nil hne
  obtain ⟨rfl, rfl⟩ := List.cons.inj heq
  obtain ⟨hblank, hhash, hslash⟩ := h d w rfl
  refine ⟨hblank, hhash, fun hpair => hslash ⟨hpair.1, ?_⟩⟩
  rcases hclosed with rfl | hopen
  · simpa using hpair.2
  · have hw : w ≠ [] := by
      have hlf : d ≠ lf := by rw [hpair.1]; decide
      exact (hopen.tail hlf).ne_nil
    rw [← hpair.2]
    exact (List.head?_append_of_ne_nil _ hw).symm

/-- Where the lexers are at the end of the text. -/
structure Handover (shift : BitVec 32) (bytes : ℕ) (more before : Text) (f f' : Lexer) : Prop where
  along : Along shift bytes more f f'
  atEnd : f.rest = []
  place : f.here = placeOf before
  atLineStart : more = [] ∨ f.atLineStart = true

/-- A gap to the end of the text. -/
theorem Inside.handover {shift : BitVec 32} {bytes : ℕ} {more before : Text}
    (h : Inside shift bytes more s s') (hplace : s.here = placeOf before)
    (hend : s.skipTrivia.rest = []) : ∃ f',
      Handover shift bytes more (before ++ s.rest) s.skipTrivia f' ∧
        s'.skipTrivia = f'.skipTrivia := by
  obtain ⟨gap, hgap, hskip, htrivia, -⟩ := Lexer.skipTrivia_spec s
  rw [hend] at htrivia
  rw [hend, List.append_nil] at hgap
  have hrest : s.rest = gap ++ [] := by rw [hgap, List.append_nil]
  refine ⟨Text.behind s' gap, ⟨?_, hend, ?_, ?_⟩, ?_⟩
  · rw [hskip]
    exact h.along.behind hrest
  · rw [hskip, hgap]
    exact Lexer.here_behind hrest hplace
  · refine h.closed.imp_right fun ⟨front, hfront⟩ => ?_
    rw [hskip, atLineStart_behind hrest, ← hgap, hfront]
    simp
  · have hrest' : s'.rest = gap ++ more := by rw [h.along.rest, hgap]
    obtain ⟨gap', hgap', hskip', htrivia', hstops'⟩ := Lexer.skipTrivia_spec (Text.behind s' gap)
    rw [rest_behind hrest'] at hgap'
    have hall : Trivia more gap := by
      rcases h.closed with hnil | ⟨front, hfront⟩
      · rwa [hnil]
      · refine htrivia.ended (fun c hc => ?_) more
        rw [← hgap, hfront] at hc
        simpa using hc.symm
    rw [hskip', behind_behind]
    have hwhole : s'.rest = (gap ++ gap') ++ (Text.behind s' gap).skipTrivia.rest := by
      rw [hrest', hgap', List.append_assoc]
    refine skipTrivia_eq hwhole (.append ?_ htrivia') ?_
    · rwa [← hgap']
    · exact hstops'

/-- A token in front of the end of the text. -/
theorem Inside.atToken {shift : BitVec 32} {bytes : ℕ} {more before : Text}
    (h : Inside shift bytes more s s') (hplace : s.here = placeOf before)
    (hne : s.skipTrivia.rest ≠ []) : ∃ gap, s.rest = gap ++ s.atToken.rest ∧
      Inside shift bytes more s.atToken s'.atToken ∧
      s.atToken.here = placeOf (before ++ gap) ∧ s.atToken.peek 0 ≠ lf ∧
      s'.skipTrivia.atLineStart = s.skipTrivia.atLineStart := by
  obtain ⟨gap, hgap, hskip, htrivia, hstops⟩ := Lexer.skipTrivia_spec s
  have hclosed : more = [] ∨ Unfinished s.skipTrivia.rest := by
    refine h.closed.imp_right fun hopen => ?_
    rw [hgap] at hopen
    exact hopen.of_append hne
  have hrest' : s'.rest = gap ++ (s.skipTrivia.rest ++ more) := by
    rw [h.along.rest, hgap, List.append_assoc]
  have hskip' : s'.skipTrivia = Text.behind s' gap :=
    skipTrivia_eq hrest' (htrivia.grow hne more) (hstops.grow hne hclosed)
  have hbehind := h.along.behind hgap
  rw [← hskip, ← hskip'] at hbehind
  refine ⟨gap, hgap, ⟨⟨hbehind.rest, hbehind.pos, hbehind.line, hbehind.column, rfl⟩, hclosed⟩,
    ?_, fun hlf => ?_, hbehind.atLineStart⟩
  · change s.skipTrivia.here = _
    rw [hskip]
    exact Lexer.here_behind hgap hplace
  · obtain ⟨c, w, hw⟩ := List.exists_cons_of_ne_nil hne
    have hc : s.atToken.peek 0 = c := peek_zero_cons hw
    rw [hc] at hlf
    have hblank := (hstops c w hw).1
    rw [hlf] at hblank
    exact absurd hblank (by decide)

/-- **The tokens of a text in front of another one**, if there is nothing to report about it. -/
theorem tokens_handover (source' : Source) {shift : BitVec 32} {bytes : ℕ} {more before : Text}
    (h : Inside shift bytes more s s') (hplace : s.here = placeOf before)
    (hquiet : (s.tokens R source).2 = []) : ∃ front f f',
      Handover shift bytes more (before ++ s.rest) f f' ∧
        (s.tokens R source).1 = front ++ [f.endToken R] ∧
        s'.tokens R source' = (front.map (moveBy shift) ++ (f'.tokens R source').1,
          (f'.tokens R source').2) := by
  induction hn : s.rest.length using Nat.strong_induction_on generalizing s s' before with
  | _ n ih =>
    rw [s.tokens_eq, Lexer.round] at hquiet ⊢
    by_cases hend : s.skipTrivia.rest = []
    · have hat : s.atToken.atEnd = true := List.isEmpty_iff.2 hend
      obtain ⟨f', hover, hskip⟩ := h.handover hplace hend
      rw [if_pos hat]
      exact ⟨[], s.skipTrivia, f', hover, rfl, Lexer.tokens_congr hskip⟩
    · obtain ⟨gap, hgap, hinside, hhere, hlf, hfirst⟩ := h.atToken hplace hend
      have hat : s.atToken.atEnd = false := List.isEmpty_eq_false_iff.2 hend
      have hat' : s'.atToken.atEnd = false := by
        refine List.isEmpty_eq_false_iff.2 ?_
        rw [hinside.along.rest]
        exact List.append_ne_nil_of_left_ne_nil hend _
      have hlt := Lexer.length_behind_token (R := R) source hat
      have hconsumes := (@Lexer.lexToken_lexes _ R _ source hat).consumes.1
      have hbehind := @Lexer.lexToken_eq_behind _ R _ source hat
      rw [if_neg (by simp [hat])] at hquiet ⊢
      rw [s'.tokens_eq, Lexer.round, if_neg (by simp [hat'])]
      dsimp only at hquiet ⊢
      obtain ⟨hout, hmore⟩ := List.append_eq_nil_iff.1 hquiet
      obtain ⟨hout', htoken, hafter⟩ := hinside.lexToken (R := R) source' hlf hout
      have hplace' := Lexer.here_behind hconsumes hhere
      rw [← hbehind] at hplace'
      dsimp only at htoken hafter
      obtain ⟨front, f, f', hover, hfront, hfront'⟩ := ih _ (hn ▸ hlt) hafter hplace' hmore rfl
      rw [List.append_assoc, List.append_assoc, ← hconsumes, ← hgap] at hover
      refine ⟨{ (s.atToken.lexToken (R := R) source).1 with
        firstOnLine := s.skipTrivia.atLineStart } :: front, f, f', hover, ?_, ?_⟩
      · rw [hfront]
        rfl
      · rw [hfront', hout', htoken, hfirst]
        rfl

/-- The tokens of the same text elsewhere. -/
theorem tokens_moved (source' : Source) {shift : BitVec 32} {bytes : ℕ} {before : Text}
    (h : Along shift bytes [] s s') (hplace : s.here = placeOf before)
    (hquiet : (s.tokens R source).2 = []) :
    s'.tokens R source' = ((s.tokens R source).1.map (moveBy shift), []) := by
  obtain ⟨front, f, f', hover, hfront, hfront'⟩ :=
    tokens_handover source' ⟨h, .inl rfl⟩ hplace hquiet
  obtain ⟨hrest, -, hline, hcolumn, hstart⟩ := hover.along
  have hnil : f'.rest = [] := by rw [hrest, hover.atEnd]; rfl
  have hskip : f'.skipTrivia = f' := by rw [Lexer.skipTrivia, hnil]; rfl
  have hat : f'.atToken.atEnd = true := by
    rw [Lexer.atToken, hskip, Lexer.atEnd, hnil]
    rfl
  have hlast : f'.endToken R = moveBy shift (f.endToken R) := by
    simp only [Lexer.endToken, Lexer.here, moveBy]
    rw [hline, hcolumn, hstart]
  rw [hfront', hfront, f'.tokens_eq, Lexer.round, if_pos hat, hskip, List.map_append, hlast]
  rfl

end

/-- The lines of a text. -/
def linesOf (text : Text) : BitVec 32 := BitVec.ofNat 32 (text.count lf)

/-- **The tokens of two texts one behind the other**, where the first one is whole lines and the
lexer has nothing to report. -/
theorem tokenise_join {R : Type} [Scalar R] {first second both : Source}
    (htext : both.text = first.text ++ second.text) (hends : ∀ c ∈ first.text.getLast?, c = lf)
    (hne : second.text ≠ []) (hfirst : (tokenise (R := R) first).2 = [])
    (hsecond : (tokenise (R := R) second).2 = []) :
    tokenise (R := R) both = ((tokenise first).1.dropLast ++
      (tokenise second).1.map (moveBy (linesOf first.text)), []) := by
  change Lexer.tokens R both { rest := both.text } = _
  have hbegin : ∀ text : Text, ({ rest := text } : Lexer).here = placeOf [] := fun _ => rfl
  by_cases hnil : first.text = []
  · have hnone : (tokenise (R := R) first).1.dropLast = [] := by
      change (Lexer.tokens R first { rest := first.text }).1.dropLast = []
      rw [hnil]
      rfl
    have hsame : Along (linesOf first.text) 0 [] { rest := second.text } { rest := both.text } := by
      rw [htext, hnil]
      exact ⟨(List.append_nil _).symm, rfl, rfl, rfl, rfl⟩
    rw [tokens_moved (R := R) _ hsame (hbegin _) hsecond, hnone]
    rfl
  · obtain ⟨front, c, hfront⟩ := (List.eq_nil_or_concat' first.text).resolve_left hnil
    have hopen : Unfinished first.text := ⟨front, by
      rw [hfront, hends c (by simp [hfront])]⟩
    have halong : Along 0 0 second.text { rest := first.text } { rest := both.text } :=
      ⟨htext, rfl, rfl, rfl, rfl⟩
    obtain ⟨tokens, f, f', hover, htokens, htokens'⟩ :=
      tokens_handover (R := R) both ⟨halong, .inr hopen⟩ (hbegin _) hfirst
    have hplace := hover.place
    rw [List.nil_append] at hplace
    obtain ⟨hline, hcolumn⟩ := SourceLocation.mk.inj hplace
    have hbehind : Along (linesOf first.text) f'.pos [] { rest := second.text } f' := by
      refine ⟨?_, (Nat.zero_add _).symm, ?_, ?_, ?_⟩
      · rw [hover.along.rest, hover.atEnd, List.append_nil]
        rfl
      · rw [hover.along.line, hline, add_zero, BitVec.ofNat_add]
        rfl
      · rw [hover.along.column, hcolumn, lineHead_ended hends]
        rfl
      · rw [hover.along.atLineStart]
        exact hover.atLineStart.resolve_left hne
    have hdrop : (tokenise (R := R) first).1.dropLast = tokens := by
      change (Lexer.tokens R first { rest := first.text }).1.dropLast = tokens
      rw [htokens, List.dropLast_concat]
    have hstay : tokens.map (moveBy 0) = tokens :=
      (List.map_congr_left fun t _ => moveBy_zero t).trans (List.map_id _)
    rw [htokens', tokens_moved (R := R) _ hbehind (hbegin _) hsecond, hdrop, hstay]
    rfl

end Text
end Canforge
