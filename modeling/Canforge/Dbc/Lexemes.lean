/-
# Written tokens

A text that is written is a list of `Item`s, gaps and tokens in turn.  Where no token runs into
the next item (`Spaced`), the lexer reads the tokens that were written, and an end behind them
(`tokenise_items`).
-/

import Canforge.Dbc.Writer
import Canforge.Text.Division

namespace Canforge
namespace Dbc

open Canforge.Core Text

/-! ### Gaps -/

/-- The characters of a gap. -/
def isGap (c : Byte) : Bool := decide (c = ch ' ') || decide (c = ch '\t') || decide (c = lf)

/-- What `skip_trivia` does not skip. -/
def startsToken (more : Text) : Prop :=
  ∀ c ∈ more.head?, isGap c = false ∧ c ≠ 0x0B ∧ c ≠ 0x0C ∧ c ≠ ch '#' ∧ c ≠ ch '/'

section

variable {s : Lexer} {w more : Text}

theorem skipTriviaFrom_gap {fuel : ℕ} (h : s.rest = w ++ more) (hall : ∀ c ∈ w, isGap c)
    (hstop : startsToken more) (hfuel : w.length ≤ fuel) :
    Lexer.skipTriviaFrom fuel s = behind s w := by
  induction fuel generalizing s w with
  | zero =>
    obtain rfl := List.length_eq_zero_iff.1 (Nat.le_zero.1 hfuel)
    rfl
  | succ fuel ih =>
    rw [Lexer.skipTriviaFrom]
    cases w with
    | nil =>
      cases more with
      | nil =>
        have hend : s.atEnd = true := by rw [Lexer.atEnd, h]; rfl
        rw [if_pos hend]
        rfl
      | cons c more =>
        obtain ⟨hgap, hvt, hff, hhash, hslash⟩ := hstop c rfl
        have hpeek : s.peek 0 = c := peek_zero_cons h
        have hskip : ¬(c = ch ' ' ∨ c = ch '\t' ∨ c = lf ∨ c = 0x0B ∨ c = 0x0C) := by
          simp only [isGap, Bool.or_eq_false_iff, decide_eq_false_iff_not] at hgap
          tauto
        rw [atEnd_cons h, if_neg Bool.false_ne_true, hpeek]
        dsimp only
        rw [if_neg hskip, if_neg hhash, if_neg fun h => hslash h.1]
        rfl
    | cons c w =>
      have hpeek : s.peek 0 = c := peek_zero_cons h
      have hgap : isGap c := hall c List.mem_cons_self
      have hskip : c = ch ' ' ∨ c = ch '\t' ∨ c = lf ∨ c = 0x0B ∨ c = 0x0C := by
        simp only [isGap, Bool.or_eq_true, decide_eq_true_eq] at hgap
        tauto
      rw [atEnd_cons h, if_neg Bool.false_ne_true, hpeek]
      dsimp only
      rw [if_pos hskip, advance_eq s c, ih (rest_behind (w := [c]) h)
        (fun d hd => hall d (List.mem_cons_of_mem _ hd)) (by simpa using hfuel)]
      exact behind_behind s [c] w

/-- **A gap is skipped.** -/
theorem skipTrivia_gap (h : s.rest = w ++ more) (hall : ∀ c ∈ w, isGap c)
    (hstop : startsToken more) : s.skipTrivia = behind s w :=
  skipTriviaFrom_gap h hall hstop (by simp [h])

end

/-! ### Lexemes -/

/-- A token that is written. -/
inductive Lexeme
  | word (w : Text)
  | number (w : Text)
  | string (value : Text)
  | mark (c : Byte)
  deriving DecidableEq, Repr

/-- The pieces of an unsigned number. -/
structure NumberText where
  whole : Text
  fraction : Text
  exponent : Text
  whole_ne : whole ≠ []
  whole_digits : ∀ c ∈ whole, isDigit c
  fraction_eq : fraction = [] ∨ ∃ ds, fraction = ch '.' :: ds ∧ ds ≠ [] ∧ ∀ c ∈ ds, isDigit c
  exponent_eq : exponent = [] ∨ ∃ sign ds, exponent = ch 'e' :: (sign ++ ds) ∧
    (sign = [] ∨ sign = [ch '+'] ∨ sign = [ch '-']) ∧ ds ≠ [] ∧ ∀ c ∈ ds, isDigit c

/-- An unsigned number. -/
def NumberText.text (n : NumberText) : Text := n.whole ++ n.fraction ++ n.exponent

/-- The marks of the grammar. -/
def kMarks : Text := ascii ":;,|@+-()[]"

/-- How the kinds of characters are told apart. -/
theorem char_kinds (c : Byte) :
    (isIdentContinue c = false → isDigit c = false ∧ c ≠ ch 'e' ∧ c ≠ ch 'E') ∧
    (isIdentStart c = true → isDigit c = false ∧ c ≠ ch '.') ∧
    (kMarks.contains c = true → isDigit c = false ∧ c ≠ ch '.' ∧
      isIdentStart c = false ∧ c ≠ ch '"' ∧ Lexer.punctuation c ≠ .unknown) ∧
    (kMarks.contains c = true ∨ isGap c = true → isIdentContinue c = false ∧ c ≠ ch '.' ∧
      c ≠ ch '"' ∧ c < 0x80 ∧ c ≠ cr) ∧
    (isIdentStart c = true ∨ isDigit c = true ∨ c = ch '"' ∨ kMarks.contains c = true →
      isGap c = false ∧ c ≠ 0x0B ∧ c ≠ 0x0C ∧ c ≠ ch '#' ∧ c ≠ ch '/') := by
  revert c
  decide +kernel

/-- Where a name, a number or a string ends. -/
theorem break_cases {c : Byte} (h : kMarks.contains c = true ∨ isGap c = true) :
    isIdentContinue c = false ∧ c ≠ ch '.' ∧ c ≠ ch '"' ∧ c < 0x80 ∧ c ≠ cr :=
  (char_kinds c).2.2.2.1 h

namespace Lexeme

/-- The text of a lexeme. -/
def text : Lexeme → Text
  | word w => w
  | number w => w
  | string value => quoted value
  | mark c => [c]

/-- What a lexeme has to be for the lexer to read it as a whole. -/
def Valid : Lexeme → Prop
  | word w => (∃ c ∈ w.head?, isIdentStart c) ∧ ∀ c ∈ w, isIdentContinue c
  | number w => ∃ n : NumberText, n.text = w
  | string _ => True
  | mark c => kMarks.contains c

/-- The token of a lexeme at a place. -/
def token {R : Type} [Scalar R] (l : Lexeme) (location : SourceLocation) (firstOnLine : Bool) :
    Token R :=
  match l with
  | word w => { kind := .identifier, text := w, location, real := Scalar.lit 0, firstOnLine }
  | number w =>
    if w.all isDigit then
      { kind := .integer, text := w, location, integer := strtoull w,
        real := Scalar.ofNat (strtoull w).toNat, firstOnLine }
    else { kind := .real, text := w, location, real := Scalar.strtod w, firstOnLine }
  | string value =>
    { kind := .string, text := quoted value, location, value, real := Scalar.lit 0, firstOnLine }
  | mark c => { kind := Lexer.punctuation c, text := [c], location, real := Scalar.lit 0, firstOnLine }

/-- What a lexeme ends at: nothing that the lexer would read as a part of it. -/
def Ends (l : Lexeme) (more : Text) : Prop :=
  match l with
  | word _ => ∀ c ∈ more.head?, isIdentContinue c = false
  | number _ => ∀ c ∈ more.head?, isIdentContinue c = false ∧ c ≠ ch '.'
  | string _ => ∀ c ∈ more.head?, c ≠ ch '"'
  | mark _ => True

end Lexeme

section

variable {R : Type} [Scalar R] {s : Lexer} {w more : Text} {c : Byte}

/-- What the next character is, or the NUL behind the end. -/
theorem peek_zero_of {P : Byte → Prop} (h : s.rest = more) (hhead : ∀ c ∈ more.head?, P c)
    (hnul : P 0) : P (s.peek 0) := by
  rw [Lexer.peek, h]
  cases more with
  | nil => exact hnul
  | cons c more => exact hhead c rfl

theorem lexIdentifier_eq (h : s.rest = w ++ more) (hall : ∀ c ∈ w, isIdentContinue c)
    (hends : (Lexeme.word w).Ends more) :
    s.lexIdentifier = ((Lexeme.word w).token (R := R) s.here false, behind s w) := by
  have hloop := advanceWhile_eq h hall fun c hc => by simp [hends c hc]
  rw [Lexer.lexIdentifier, hloop]
  simp only [slice_behind h, Lexeme.token]

/-- A character that does not go on with a name is no digit, and does not begin an exponent. -/
theorem of_not_identContinue (h : isIdentContinue c = false) :
    isDigit c = false ∧ c ≠ ch 'e' ∧ c ≠ ch 'E' :=
  (char_kinds c).1 h

/-- The lexer behind the digits of a number. -/
theorem digits_eq {ds : Text} (h : s.rest = ds ++ more) (hall : ∀ c ∈ ds, isDigit c)
    (hstop : ∀ c ∈ more.head?, isDigit c = false) : s.advanceWhile isDigit = behind s ds :=
  advanceWhile_eq h hall fun c hc => by simp [hstop c hc]

theorem lexFraction_eq {fraction : Text} (h : s.rest = fraction ++ more)
    (hfraction : fraction = [] ∨ ∃ ds, fraction = ch '.' :: ds ∧ ds ≠ [] ∧ ∀ c ∈ ds, isDigit c)
    (hstop : ∀ c ∈ more.head?, isDigit c = false ∧ c ≠ ch '.') :
    s.lexFraction = (!fraction.isEmpty, behind s fraction) := by
  rw [Lexer.lexFraction]
  rcases hfraction with rfl | ⟨ds, rfl, hne, hall⟩
  · have hdot : s.peek 0 ≠ ch '.' := peek_zero_of h (fun c hc => (hstop c hc).2) (by decide)
    rw [if_neg fun h => hdot h.1, if_neg fun h => hdot h.1]
    rfl
  · have hdot : s.peek 0 = ch '.' := peek_zero_cons h
    obtain ⟨d, ds, rfl⟩ := List.exists_cons_of_ne_nil hne
    have hdigit : isDigit (s.peek 1) := by
      rw [peek_one_cons h]
      exact hall d List.mem_cons_self
    have hrest : (behind s [ch '.']).rest = d :: ds ++ more := rest_behind h
    rw [if_pos ⟨hdot, hdigit⟩, advance_eq s (ch '.'),
      digits_eq hrest hall fun c hc => (hstop c hc).1, behind_behind]
    rfl

theorem lexExponent_eq {exponent : Text} (h : s.rest = exponent ++ more)
    (hexponent : exponent = [] ∨ ∃ sign ds, exponent = ch 'e' :: (sign ++ ds) ∧
      (sign = [] ∨ sign = [ch '+'] ∨ sign = [ch '-']) ∧ ds ≠ [] ∧ ∀ c ∈ ds, isDigit c)
    (hstop : ∀ c ∈ more.head?, isIdentContinue c = false) :
    s.lexExponent = (!exponent.isEmpty, behind s exponent) := by
  rw [Lexer.lexExponent]
  rcases hexponent with rfl | ⟨sign, ds, rfl, hsign, hne, hall⟩
  · have he : ¬(s.peek 0 = ch 'e' ∨ s.peek 0 = ch 'E') := by
      refine peek_zero_of h (P := fun c => ¬(c = ch 'e' ∨ c = ch 'E')) (fun c hc => ?_) (by decide)
      have := of_not_identContinue (hstop c hc)
      tauto
    rw [if_neg he]
    rfl
  · have he : s.peek 0 = ch 'e' := peek_zero_cons h
    have hdigits (c : Byte) (hc : c ∈ more.head?) : isDigit c = false :=
      (of_not_identContinue (hstop c hc)).1
    obtain ⟨d, ds, rfl⟩ := List.exists_cons_of_ne_nil hne
    have hd : isDigit d := hall d List.mem_cons_self
    rw [if_pos (.inl he)]
    have hone : (behind s [ch 'e']).rest = sign ++ (d :: ds ++ more) := by
      rw [← List.append_assoc]
      exact rest_behind h
    rcases hsign with rfl | hsign
    · have hpeek : s.peek 1 = d := peek_one_cons h
      have hsigned : ¬(s.peek 1 = ch '+' ∨ s.peek 1 = ch '-') := by
        rw [hpeek]
        rintro (rfl | rfl) <;> exact absurd hd (by decide)
      have hdigits' : (behind s [ch 'e']).advanceWhile isDigit =
          behind (behind s [ch 'e']) (d :: ds) := digits_eq hone hall hdigits
      dsimp only
      rw [if_pos (.inr (by rwa [hpeek])), if_neg hsigned, advance_eq s (ch 'e'), hdigits',
        behind_behind]
      rfl
    · obtain ⟨c, rfl, hc⟩ : ∃ c, sign = [c] ∧ (c = ch '+' ∨ c = ch '-') := by
        rcases hsign with rfl | rfl
        · exact ⟨_, rfl, .inl rfl⟩
        · exact ⟨_, rfl, .inr rfl⟩
      have hpeek : s.peek 1 = c := peek_one_cons h
      have hpeek₂ : isDigit (s.peek 2) := by
        rw [Lexer.peek, h]
        exact hd
      have htwo : (behind (behind s [ch 'e']) [c]).rest = d :: ds ++ more := rest_behind hone
      dsimp only
      rw [if_pos (.inl ⟨by rwa [hpeek], hpeek₂⟩), if_pos (by rwa [hpeek]), advance_eq s (ch 'e'),
        advance_eq _ c, digits_eq htwo hall hdigits, behind_behind, behind_behind]
      rfl

theorem NumberText.all_isDigit (n : NumberText) :
    n.text.all isDigit = (n.fraction.isEmpty && n.exponent.isEmpty) := by
  have hwhole : n.whole.all isDigit = true := by simpa using n.whole_digits
  rw [NumberText.text, List.all_append, List.all_append, hwhole, Bool.true_and]
  congr 1
  · rcases n.fraction_eq with heq | ⟨ds, heq, -, -⟩ <;> rw [heq]
    · rfl
    · exact Bool.and_eq_false_imp.2 fun h => absurd h (by decide)
  · rcases n.exponent_eq with heq | ⟨sign, ds, heq, -, -, -⟩ <;> rw [heq]
    · rfl
    · exact Bool.and_eq_false_imp.2 fun h => absurd h (by decide)

/-- What stands behind the digits of a number is no digit. -/
theorem not_isDigit_of_exponent {exponent : Text}
    (hexponent : exponent = [] ∨ ∃ sign ds, exponent = ch 'e' :: (sign ++ ds) ∧
      (sign = [] ∨ sign = [ch '+'] ∨ sign = [ch '-']) ∧ ds ≠ [] ∧ ∀ c ∈ ds, isDigit c)
    (hends : ∀ c ∈ more.head?, isIdentContinue c = false ∧ c ≠ ch '.') :
    ∀ c ∈ (exponent ++ more).head?, isDigit c = false ∧ c ≠ ch '.' := by
  rcases hexponent with rfl | ⟨sign, ds, rfl, -, -, -⟩
  · exact fun c hc => ⟨(of_not_identContinue (hends c hc).1).1, (hends c hc).2⟩
  · rintro c hc
    obtain rfl := Option.some.inj hc
    decide

theorem not_isDigit_of_fraction {fraction : Text}
    (hfraction : fraction = [] ∨ ∃ ds, fraction = ch '.' :: ds ∧ ds ≠ [] ∧ ∀ c ∈ ds, isDigit c)
    (hstop : ∀ c ∈ more.head?, isDigit c = false) :
    ∀ c ∈ (fraction ++ more).head?, isDigit c = false := by
  rcases hfraction with rfl | ⟨ds, rfl, -, -⟩
  · exact hstop
  · rintro c hc
    obtain rfl := Option.some.inj hc
    decide

theorem lexNumeral_eq (n : NumberText) (h : s.rest = n.text ++ more)
    (hends : (Lexeme.number n.text).Ends more) :
    s.lexNumeral = (!n.text.all isDigit, behind s n.text) := by
  have hexponent := not_isDigit_of_exponent n.exponent_eq hends
  have hfraction := not_isDigit_of_fraction n.fraction_eq fun c hc => (hexponent c hc).1
  rw [NumberText.text, List.append_assoc, List.append_assoc] at h
  have hone := rest_behind h
  have htwo := rest_behind hone
  rw [Lexer.lexNumeral, digits_eq h n.whole_digits hfraction,
    lexFraction_eq hone n.fraction_eq hexponent]
  dsimp only
  rw [lexExponent_eq htwo n.exponent_eq fun c hc => (hends c hc).1, behind_behind, behind_behind,
    n.all_isDigit, ← List.append_assoc, Bool.not_and]
  rfl

theorem lexNumber_eq (n : NumberText) (h : s.rest = n.text ++ more)
    (hends : (Lexeme.number n.text).Ends more) :
    s.lexNumber = ((Lexeme.number n.text).token (R := R) s.here false, behind s n.text) := by
  have hpeek : isIdentContinue ((behind s n.text).peek 0) = false :=
    peek_zero_of (P := fun c => isIdentContinue c = false) (rest_behind h)
      (fun c hc => (hends c hc).1) (by decide)
  rw [Lexer.lexNumber, lexNumeral_eq n h hends]
  dsimp only
  rw [if_neg fun h => absurd h.1 (by simp [hpeek]), slice_behind h]
  cases hall : n.text.all isDigit with
  | false => simp [Lexeme.token, hall]
  | true => simp [Lexeme.token, hall]

/-- The escaped text of a string. -/
def escaped (value : Text) : Text :=
  value.flatMap fun c => if c = ch '"' ∨ c = ch '\\' then [ch '\\', c] else [c]

theorem lexStringFrom_eq {value read : Text} {fuel : ℕ}
    (h : s.rest = escaped value ++ ch '"' :: more) (hends : (Lexeme.string value).Ends more)
    (hfuel : (escaped value).length < fuel) :
    Lexer.lexStringFrom fuel s read = (read ++ value, true, behind s (escaped value ++ [ch '"'])) := by
  induction value generalizing s read fuel with
  | nil =>
    cases fuel with
    | zero => exact absurd hfuel (Nat.not_lt_zero _)
    | succ fuel =>
      have hpeek : s.peek 0 = ch '"' := peek_zero_cons h
      have hone : (behind s [ch '"']).rest = more := rest_behind h
      have hnext : s.peek 1 ≠ ch '"' := by
        rw [Lexer.peek, h]
        cases more with
        | nil => decide
        | cons c more => exact hends c rfl
      rw [Lexer.lexStringFrom, atEnd_cons h, if_neg Bool.false_ne_true, hpeek]
      dsimp only
      rw [if_neg (by decide), if_pos rfl, if_neg hnext, List.append_nil]
      rfl
  | cons c value ih =>
    cases fuel with
    | zero => exact absurd hfuel (Nat.not_lt_zero _)
    | succ fuel =>
      by_cases hc : c = ch '"' ∨ c = ch '\\'
      · have hescaped : escaped (c :: value) = ch '\\' :: c :: escaped value := by
          simp [escaped, hc]
        rw [hescaped] at h hfuel ⊢
        have hpeek : s.peek 0 = ch '\\' := peek_zero_cons h
        have hpeek₁ : s.peek 1 = c := peek_one_cons h
        have hone : (behind s [ch '\\']).rest = c :: (escaped value ++ ch '"' :: more) :=
          rest_behind h
        have htwo : (behind (behind s [ch '\\']) [c]).rest = escaped value ++ ch '"' :: more :=
          rest_behind hone
        rw [Lexer.lexStringFrom, atEnd_cons h, if_neg Bool.false_ne_true, hpeek, hpeek₁]
        dsimp only
        rw [if_pos rfl, if_pos hc, advance_eq s (ch '\\'), peek_zero_cons hone,
          advance_eq _ c, ih htwo hends (by simp at hfuel; omega), behind_behind, behind_behind]
        simp
      · have hescaped : escaped (c :: value) = c :: escaped value := by simp [escaped, hc]
        rw [hescaped] at h hfuel ⊢
        have hpeek : s.peek 0 = c := peek_zero_cons h
        have hone : (behind s [c]).rest = escaped value ++ ch '"' :: more := rest_behind h
        rw [Lexer.lexStringFrom, atEnd_cons h, if_neg Bool.false_ne_true, hpeek]
        dsimp only
        rw [if_neg fun h => hc (.inr h), if_neg fun h => hc (.inl h), advance_eq s c,
          ih hone hends (by simp at hfuel; omega), behind_behind]
        simp

theorem lexString_eq {value : Text} {source : Source} (h : s.rest = quoted value ++ more)
    (hends : (Lexeme.string value).Ends more) :
    s.lexString source =
      ((Lexeme.string value).token (R := R) s.here false, behind s (quoted value), []) := by
  have hquoted : quoted value = [ch '"'] ++ (escaped value ++ [ch '"']) := rfl
  have hone : (behind s [ch '"']).rest = escaped value ++ ch '"' :: more := by
    refine rest_behind (h.trans ?_)
    rw [hquoted]
    simp
  have hfuel : (escaped value).length < (behind s [ch '"']).rest.length := by
    rw [hone]
    simp
  have hloop : Lexer.lexStringFrom _ _ [] = ([] ++ value, true, _) :=
    lexStringFrom_eq hone hends hfuel
  rw [Lexer.lexString, advance_eq s (ch '"')]
  dsimp only
  rw [hloop, behind_behind, ← hquoted]
  simp only [slice_behind h, Lexeme.token, List.nil_append, if_pos]

/-- The marks are what the lexer makes tokens of one character of. -/
theorem mark_cases (h : kMarks.contains c) : isDigit c = false ∧ c ≠ ch '.' ∧
    isIdentStart c = false ∧ c ≠ ch '"' ∧ Lexer.punctuation c ≠ .unknown :=
  (char_kinds c).2.2.1 h

theorem lexPunctuation_eq {source : Source} (hc : kMarks.contains c) (h : s.rest = c :: more) :
    s.lexPunctuation source =
      ((Lexeme.mark c).token (R := R) s.here false, behind s [c], []) := by
  obtain ⟨-, -, -, -, hkind⟩ := mark_cases hc
  rw [Lexer.lexPunctuation, peek_zero_cons h, advance_eq s c, slice_behind (w := [c]) h,
    if_neg hkind]
  rfl

/-- What begins a name begins no number. -/
theorem identStart_cases (h : isIdentStart c) : isDigit c = false ∧ c ≠ ch '.' :=
  (char_kinds c).2.1 h

/-- **A lexeme is read as it is written.** -/
theorem lexToken_eq {l : Lexeme} {source : Source} (hl : l.Valid) (h : s.rest = l.text ++ more)
    (hends : l.Ends more) :
    s.lexToken source = (l.token (R := R) s.here false, behind s l.text, []) := by
  rw [Lexer.lexToken]
  dsimp only
  cases l with
  | word w =>
    obtain ⟨⟨c, hc, hstart⟩, hall⟩ := hl
    obtain ⟨w, rfl⟩ : ∃ v, w = c :: v := by
      cases w with
      | nil => cases hc
      | cons d w => exact ⟨w, by rw [Option.some.inj hc]⟩
    have hpeek : s.peek 0 = c := peek_zero_cons h
    obtain ⟨hdigit, hdot⟩ := identStart_cases hstart
    rw [hpeek, if_neg (by simp [hdigit, hdot]), if_pos hstart, lexIdentifier_eq h hall hends]
    rfl
  | number w =>
    obtain ⟨n, rfl⟩ := hl
    obtain ⟨d, ds, hwhole⟩ := List.exists_cons_of_ne_nil n.whole_ne
    have hd : isDigit d := n.whole_digits d (by simp [hwhole])
    have hpeek : s.peek 0 = d := by
      refine @peek_zero_cons s (ds ++ n.fraction ++ n.exponent ++ more) d (h.trans ?_)
      change n.text ++ more = _
      rw [NumberText.text, hwhole]
      simp
    rw [hpeek, if_pos (.inl hd), lexNumber_eq n h hends]
    rfl
  | string value =>
    have hpeek : s.peek 0 = ch '"' := peek_zero_cons h
    have hnumber : ¬(isDigit (ch '"') = true ∨ ch '"' = ch '.' ∧ isDigit (s.peek 1) = true) := by
      rintro (h | h)
      · exact absurd h (by decide)
      · exact absurd h.1 (by decide)
    rw [hpeek, if_neg hnumber, if_neg (by decide), if_pos rfl, lexString_eq h hends]
    rfl
  | mark c =>
    have hpeek : s.peek 0 = c := peek_zero_cons h
    obtain ⟨hdigit, hdot, hstart, hquote, -⟩ := mark_cases hl
    rw [hpeek, if_neg (by simp [hdigit, hdot]), if_neg (by simp [hstart]), if_neg hquote,
      lexPunctuation_eq hl h]
    rfl

end

/-! ### Items -/

/-- A piece of a written text. -/
inductive Item
  | gap (w : Text)
  | lexeme (l : Lexeme)
  deriving DecidableEq, Repr

/-- A lexeme that ends where its text does. -/
def Lexeme.isMark : Lexeme → Bool
  | mark _ => true
  | _ => false

namespace Item

/-- The text of an item. -/
def text : Item → Text
  | gap w => w
  | lexeme l => l.text

/-- An item that no lexeme runs into. -/
def breaks : Item → Bool
  | gap w => !w.isEmpty
  | lexeme l => l.isMark

/-- An item that runs into no other one. -/
def closes : Item → Bool
  | gap _ => true
  | lexeme l => l.isMark

end Item

/-- The text of a list of items. -/
def itemsText (items : List Item) : Text := items.flatMap Item.text

/-- No lexeme runs into the item behind it. -/
def Spaced : List Item → Prop
  | [] => True
  | .gap w :: rest => (∀ c ∈ w, isGap c) ∧ Spaced rest
  | .lexeme l :: rest => l.Valid ∧ (l.isMark ∨ ∀ i ∈ rest.head?, i.breaks) ∧ Spaced rest

/-- The lexemes of some items, each with whether it is the first one on its line. -/
def lexemes : Bool → List Item → List (Lexeme × Bool)
  | _, [] => []
  | first, .gap w :: rest => lexemes (first || w.contains lf) rest
  | first, .lexeme l :: rest => (l, first) :: lexemes (l.text.contains lf) rest

/-- Whether a line begins behind some items. -/
def startsLine : Bool → List Item → Bool
  | first, [] => first
  | first, .gap w :: rest => startsLine (first || w.contains lf) rest
  | _, .lexeme l :: rest => startsLine (l.text.contains lf) rest

section

variable {a b : List Item} {first : Bool}

@[simp] theorem itemsText_nil : itemsText [] = [] := rfl

@[simp] theorem itemsText_cons (i : Item) (a : List Item) :
    itemsText (i :: a) = i.text ++ itemsText a := rfl

@[simp] theorem itemsText_append (a b : List Item) :
    itemsText (a ++ b) = itemsText a ++ itemsText b := by
  simp [itemsText]

theorem lexemes_append (first : Bool) (a b : List Item) :
    lexemes first (a ++ b) = lexemes first a ++ lexemes (startsLine first a) b := by
  fun_induction lexemes first a with
  | case1 first => rfl
  | case2 first w a ih => exact ih
  | case3 first l a ih => exact congrArg _ ih

theorem startsLine_append (first : Bool) (a b : List Item) :
    startsLine first (a ++ b) = startsLine (startsLine first a) b := by
  fun_induction startsLine first a with
  | case1 first => rfl
  | case2 first w a ih => exact ih
  | case3 first l a ih => exact ih

/-- Items behind items that run into nothing, or in front of an item that nothing runs into. -/
theorem Spaced.append (ha : Spaced a) (hb : Spaced b)
    (hmeet : (∀ i ∈ a.getLast?, i.closes) ∨ ∀ i ∈ b.head?, i.breaks) : Spaced (a ++ b) := by
  induction a with
  | nil => exact hb
  | cons i a ih =>
    have hrest : (∀ i ∈ a.getLast?, i.closes) ∨ ∀ i ∈ b.head?, i.breaks := by
      refine hmeet.imp_left fun h j hj => h j ?_
      rw [List.getLast?_cons]
      simp [Option.mem_def.1 hj]
    cases i with
    | gap w => exact ⟨ha.1, ih ha.2 hrest⟩
    | lexeme l =>
      obtain ⟨hvalid, hend, hspaced⟩ := ha
      refine ⟨hvalid, ?_, ih hspaced hrest⟩
      cases a with
      | nil => exact hmeet.imp (fun h => h _ rfl) id
      | cons j a => exact hend

/-- What a lexeme may be in front of. -/
theorem ends_of_breaks {l : Lexeme} (hspaced : Spaced b)
    (hend : l.isMark ∨ ∀ i ∈ b.head?, i.breaks) : l.Ends (itemsText b) := by
  rcases hend with hmark | hbreaks
  · cases l with
    | mark c => trivial
    | word w | number w | string w => cases hmark
  · have hhead : ∀ c ∈ (itemsText b).head?,
        isIdentContinue c = false ∧ c ≠ ch '.' ∧ c ≠ ch '"' := by
      cases b with
      | nil => simp
      | cons i b =>
        have hi := hbreaks i rfl
        cases i with
        | gap w =>
          cases w with
          | nil => cases hi
          | cons c w =>
            rintro d hd
            obtain rfl := Option.some.inj hd
            obtain ⟨hname, hdot, hquote, -⟩ := break_cases (.inr (hspaced.1 c List.mem_cons_self))
            exact ⟨hname, hdot, hquote⟩
        | lexeme k =>
          cases k with
          | mark c =>
            rintro d hd
            obtain rfl := Option.some.inj hd
            obtain ⟨hname, hdot, hquote, -⟩ := break_cases (.inl hspaced.1)
            exact ⟨hname, hdot, hquote⟩
          | word w | number w | string w => cases hi
    cases l with
    | word w => exact fun c hc => (hhead c hc).1
    | number w => exact fun c hc => ⟨(hhead c hc).1, (hhead c hc).2.1⟩
    | string w => exact fun c hc => (hhead c hc).2.2
    | mark c => trivial

end

/-- The tokens of some lexemes, each at some place. -/
def Spells {R : Type} [Scalar R] (written : List (Lexeme × Bool)) (tokens : List (Token R)) :
    Prop :=
  List.Forall₂ (fun l t => ∃ location, t = l.1.token location l.2) written tokens

section

variable {R : Type} [Scalar R] {source : Source} {s : Lexer}

/-- A lexeme begins with a character that is not skipped. -/
theorem startsToken_lexeme {l : Lexeme} (hl : l.Valid) (more : Text) :
    startsToken (l.text ++ more) := by
  have hstart : ∃ c ∈ l.text.head?,
      isIdentStart c ∨ isDigit c ∨ c = ch '"' ∨ kMarks.contains c := by
    cases l with
    | word w =>
      obtain ⟨⟨c, hc, hstart⟩, -⟩ := hl
      exact ⟨c, hc, .inl hstart⟩
    | number w =>
      obtain ⟨n, rfl⟩ := hl
      obtain ⟨d, ds, hwhole⟩ := List.exists_cons_of_ne_nil n.whole_ne
      refine ⟨d, ?_, .inr (.inl (n.whole_digits d (by simp [hwhole])))⟩
      simp [Lexeme.text, NumberText.text, hwhole]
    | string value => exact ⟨_, rfl, .inr (.inr (.inl rfl))⟩
    | mark c => exact ⟨c, rfl, .inr (.inr (.inr hl))⟩
  obtain ⟨c, hc, hstart⟩ := hstart
  rintro d hd
  have hcd : d = c := by
    cases htext : l.text with
    | nil =>
      rw [htext] at hc
      cases hc
    | cons b w =>
      rw [htext] at hc hd
      rw [← Option.some.inj hc, ← Option.some.inj hd]
  subst hcd
  exact (char_kinds d).2.2.2.2 hstart

theorem text_ne_nil {l : Lexeme} (hl : l.Valid) : l.text ≠ [] := by
  cases l with
  | word w =>
    obtain ⟨⟨c, hc, -⟩, -⟩ := hl
    rintro h
    rw [show w = [] from h] at hc
    cases hc
  | number w =>
    obtain ⟨n, rfl⟩ := hl
    simp [Lexeme.text, NumberText.text, n.whole_ne]
  | string value => simp [Lexeme.text, quoted]
  | mark c => simp [Lexeme.text]

/-- The text of some items begins with a gap in front of a token. -/
theorem leading_gap {items : List Item} (hspaced : Spaced items) :
    ∃ w more, itemsText items = w ++ more ∧ (∀ c ∈ w, isGap c) ∧ startsToken more := by
  induction items with
  | nil => exact ⟨[], [], rfl, by simp, by simp [startsToken]⟩
  | cons i items ih =>
    cases i with
    | gap v =>
      obtain ⟨w, more, heq, hw, hmore⟩ := ih hspaced.2
      refine ⟨v ++ w, more, ?_, ?_, hmore⟩
      · rw [itemsText_cons, heq, List.append_assoc]
        rfl
      · intro c hc
        rcases List.mem_append.1 hc with hc | hc
        · exact hspaced.1 c hc
        · exact hw c hc
    | lexeme l => exact ⟨[], _, rfl, by simp, startsToken_lexeme hspaced.1 _⟩

/-- `skip_trivia` goes over a gap first. -/
theorem skipTrivia_behind {w : Text} {items : List Item} (hw : ∀ c ∈ w, isGap c)
    (hspaced : Spaced items) (h : s.rest = w ++ itemsText items) :
    s.skipTrivia = (behind s w).skipTrivia := by
  obtain ⟨v, more, heq, hv, hmore⟩ := leading_gap hspaced
  have hrest : (behind s w).rest = v ++ more := (rest_behind h).trans heq
  rw [skipTrivia_gap hrest hv hmore, behind_behind]
  refine skipTrivia_gap (by rw [h, heq, List.append_assoc]) (fun c hc => ?_) hmore
  rcases List.mem_append.1 hc with hc | hc
  · exact hw c hc
  · exact hv c hc

theorem tokeniseFrom_items {items : List Item} {fuel : ℕ} (hspaced : Spaced items)
    (h : s.rest = itemsText items) (hfuel : s.rest.length < fuel) :
    ∃ (tokens : List (Token R)) (e : Token R),
      Lexer.tokeniseFrom source fuel s = (tokens ++ [e], []) ∧ e.kind = .end ∧
        Spells (lexemes s.atLineStart items) tokens := by
  induction items generalizing s fuel with
  | nil =>
    cases fuel with
    | zero => exact absurd hfuel (Nat.not_lt_zero _)
    | succ fuel =>
      have hskip : s.skipTrivia = s :=
        @skipTrivia_gap s [] [] h (by simp) (by simp [startsToken])
      have hend : s.rest = [] := h
      refine ⟨[], { location := s.here, real := Scalar.lit 0, firstOnLine := s.atLineStart }, ?_,
        rfl, .nil⟩
      rw [Lexer.tokeniseFrom, hskip]
      simp only [Lexer.atEnd, hend, List.isEmpty_nil, if_true]
      rfl
  | cons i items ih =>
    cases fuel with
    | zero => exact absurd hfuel (Nat.not_lt_zero _)
    | succ fuel =>
      cases i with
      | gap w =>
        have hrest : (behind s w).rest = itemsText items := rest_behind h
        have hlength : (behind s w).rest.length < fuel + 1 :=
          (consumes_behind h).length_le.trans_lt hfuel
        obtain ⟨tokens, e, hrun, hkind, hspells⟩ := ih hspaced.2 hrest hlength
        refine ⟨tokens, e, ?_, hkind, ?_⟩
        · rw [← hrun, Lexer.tokeniseFrom, Lexer.tokeniseFrom,
            skipTrivia_behind hspaced.1 hspaced.2 h]
        · rwa [atLineStart_behind (w := w) h] at hspells
      | lexeme l =>
        obtain ⟨hvalid, hend, hspaced⟩ := hspaced
        have hskip : s.skipTrivia = s := skipTrivia_gap (w := []) h (by simp)
          (startsToken_lexeme hvalid _)
        set s₁ : Lexer := { s with atLineStart := false } with hs₁
        have hrest₁ : s₁.rest = l.text ++ itemsText items := h
        have hlex : s₁.lexToken source = (l.token (R := R) s₁.here false, behind s₁ l.text, []) :=
          lexToken_eq hvalid hrest₁ (ends_of_breaks hspaced hend)
        have hlength : (behind s₁ l.text).rest.length < fuel := by
          have := (consumes_behind hrest₁).length_lt (text_ne_nil hvalid)
          have hsame : s₁.rest.length = s.rest.length := rfl
          omega
        obtain ⟨tokens, e, hrun, hkind, hspells⟩ := ih hspaced (rest_behind hrest₁) hlength
        have hatEnd : s₁.atEnd = false := by
          obtain ⟨c, w, hc⟩ := List.exists_cons_of_ne_nil (text_ne_nil hvalid)
          exact @atEnd_cons s₁ (w ++ itemsText items) c (by rw [hrest₁, hc]; rfl)
        refine ⟨l.token s₁.here s.atLineStart :: tokens, e, ?_, hkind, ?_⟩
        · rw [Lexer.tokeniseFrom, hskip]
          dsimp only
          rw [← hs₁, hatEnd, if_neg Bool.false_ne_true, hlex]
          dsimp only
          rw [hrun]
          refine Prod.ext_iff.2 ⟨congrArg (· :: (tokens ++ [e])) ?_, rfl⟩
          cases l with
          | number w =>
            simp only [Lexeme.token]
            split_ifs <;> rfl
          | word w | string w | mark w => rfl
        · refine .cons ⟨_, rfl⟩ ?_
          rw [atLineStart_behind hrest₁] at hspells
          exact hspells

/-- **The tokens of a text that is written** are those that were written, and an end. -/
theorem tokenise_items {items : List Item} (hspaced : Spaced items)
    (h : source.text = itemsText items) :
    ∃ (tokens : List (Token R)) (e : Token R),
      tokenise source = (tokens ++ [e], []) ∧ e.kind = .end ∧
        Spells (lexemes true items) tokens :=
  tokeniseFrom_items hspaced h (Nat.lt_succ_self _)

end

end Dbc
end Canforge
