/-
# Quoted strings

What the writer quotes the lexer reads back: one string token with the value that was written, up
to the closing quote and not beyond it.
-/

import Canforge.Dbc.Lexemes

namespace Canforge
namespace Dbc

open Canforge.Core Text

section

variable {value next : Text}

/-- A change of characters of seven bits keeps a text valid. -/
theorem isValidUtf8_flatMap {f : Byte → Text} (hascii : ∀ c, c < 0x80 → ∀ d ∈ f c, d < 0x80)
    (hhigh : ∀ c, 0x80 ≤ c → f c = [c]) (h : isValidUtf8 value = true) :
    isValidUtf8 (value.flatMap f) = true := by
  refine validUtf8_induction (P := fun w => isValidUtf8 (w.flatMap f) = true) rfl ?_ value h
  intro w rest hw ih
  rw [List.flatMap_append]
  refine isValidUtf8_append ?_ ih
  rcases hw.cases with ⟨c, rfl, hc⟩ | hall
  · rw [List.flatMap_singleton]
    exact isValidUtf8_ascii (hascii c hc)
  · have hsame : w.flatMap f = w := by
      rw [List.flatMap_congr fun c hc => hhigh c (hall c hc)]
      exact List.flatMap_singleton' w
    have := isValidUtf8_append_character hw []
    rwa [List.append_nil, ← hsame] at this

/-- A character that is escaped stays a character. -/
theorem isValidUtf8_escaped (h : isValidUtf8 value = true) : isValidUtf8 (escaped value) = true := by
  refine isValidUtf8_flatMap ?_ ?_ h
  · intro c hc d hd
    split_ifs at hd
    · rcases List.mem_cons.1 hd with rfl | hd
      · decide
      · rwa [List.mem_singleton.1 hd]
    · rwa [List.mem_singleton.1 hd]
  · have hslash : ∀ c : Byte, 0x80 ≤ c → ¬(c = ch '"' ∨ c = ch '\\') := by
      rintro c hc (rfl | rfl)
      · exact absurd hc (by decide)
      · exact absurd hc (by decide)
    exact fun c hc => if_neg (hslash c hc)

theorem isValidUtf8_quoted (h : isValidUtf8 value = true) : isValidUtf8 (quoted value) = true := by
  have hquote : isValidUtf8 [ch '"'] = true := by decide
  exact isValidUtf8_append (isValidUtf8_append hquote (isValidUtf8_escaped h)) hquote

theorem cr_notMem_quoted (h : cr ∉ value) : cr ∉ quoted value := by
  have hescaped : cr ∉ escaped value := by
    intro hmem
    obtain ⟨c, hc, hcr⟩ := List.mem_flatMap.1 hmem
    have hsame : cr = c := by
      split_ifs at hcr
      · rcases List.mem_cons.1 hcr with heq | hcr
        · exact absurd heq (by decide)
        · exact List.mem_singleton.1 hcr
      · exact List.mem_singleton.1 hcr
    exact h (hsame ▸ hc)
  intro hmem
  have hmem' : cr ∈ ch '"' :: escaped value ++ [ch '"'] := hmem
  rcases List.mem_append.1 hmem' with hmem | hmem
  · rcases List.mem_cons.1 hmem with heq | hmem
    · exact absurd heq (by decide)
    · exact hescaped hmem
  · exact absurd (List.mem_singleton.1 hmem) (by decide)

/-- A source that begins with a quoted string. -/
theorem normalise_quoted (hvalue : isValidUtf8 value = true) (hcr : cr ∉ value)
    (hnext : isValidUtf8 next = true) (hquote : ch '"' ∉ next.head?) (name : Text) :
    ∃ more, (Source.normalise (quoted value ++ next) name).text = quoted value ++ more ∧
      ch '"' ∉ more.head? := by
  have hbom : (quoted value ++ next).take 3 ≠ Source.bom := by
    intro h
    have hhead := congrArg List.head? h
    exact absurd hhead (by simp [quoted, Source.bom]; decide)
  rw [Source.normalise_valid name hbom (isValidUtf8_append (isValidUtf8_quoted hvalue) hnext),
    convertNewlines_append (cr_notMem_quoted hcr)]
  obtain ⟨more, hmore, hhead⟩ := Source.ended_append (quoted value) (convertNewlines next)
  refine ⟨more, hmore, fun hmem => ?_⟩
  rcases hhead _ hmem with heq | hmem
  · exact absurd heq (by decide)
  · rcases convertNewlines_head hmem with heq | hmem
    · exact absurd heq (by decide)
    · exact hquote hmem

variable {R : Type} [Scalar R]

/-- **Quoting is read back.**  Wherever the lexer is at a quoted string, its token is the string,
and it ends at the closing quote; and so in a source that begins with it. -/
theorem lex_quoted (hvalue : isValidUtf8 value = true) (hcr : cr ∉ value)
    (hnext : isValidUtf8 next = true) (hquote : ch '"' ∉ next.head?) (name : Text) :
    (∀ (source : Source) (s : Lexer) (c : Byte) (more : Text),
      s.rest = quoted value ++ c :: more → c ≠ ch '"' → ∃ e : Lexer, s.lexToken source =
        (({ kind := .string, text := quoted value, value, location := s.here,
            real := Scalar.lit 0 } : Token R), e, []) ∧
        e.rest = c :: more ∧ e.pos = s.pos + (quoted value).length) ∧
    ∃ (tokens : List (Token R)) (out : List Diagnostic) (more : Text),
      (Source.normalise (quoted value ++ next) name).text = quoted value ++ more ∧
      tokenise (Source.normalise (quoted value ++ next) name) =
        ({ kind := .string, text := quoted value, value, location := ⟨1, 1⟩,
           real := Scalar.lit 0, firstOnLine := true } :: tokens, out) := by
  constructor
  · intro source s c more hrest hc
    have hends : (Lexeme.string value).Ends (c :: more) := by
      rintro d hd
      rwa [← Option.some.inj hd]
    refine ⟨_, lexToken_eq (l := .string value) trivial hrest hends, rest_behind hrest, ?_⟩
    exact (consumes_behind hrest).2
  · obtain ⟨more, htext, hhead⟩ := normalise_quoted hvalue hcr hnext hquote name
    generalize Source.normalise (quoted value ++ next) name = source at htext ⊢
    let s : Lexer := { rest := source.text }
    have hskip : s.skipTrivia = s :=
      skipTrivia_gap (w := []) htext (by simp) (startsToken_lexeme (l := .string value) trivial more)
    have hends : (Lexeme.string value).Ends more := fun c hc heq => hhead (heq ▸ hc)
    have hlex : ({ s with atLineStart := false } : Lexer).lexToken source =
        ((Lexeme.string value).token (R := R) s.here false,
          behind { s with atLineStart := false } (quoted value), []) :=
      lexToken_eq (l := .string value) trivial htext hends
    have hend : ({ s with atLineStart := false } : Lexer).atEnd = false := atEnd_cons htext
    let behindString : List (Token R) × List Diagnostic := Lexer.tokeniseFrom source
      source.text.length (behind { s with atLineStart := false } (quoted value))
    refine ⟨behindString.1, behindString.2, more, htext, ?_⟩
    change Lexer.tokeniseFrom source (source.text.length + 1) s = _
    rw [Lexer.tokeniseFrom, hskip]
    dsimp only
    rw [hend, if_neg Bool.false_ne_true, hlex]
    rfl

end

/-- Backslashes, quotes and an end of a line. -/
def pathText : Text := ascii "C:\\\"a\"\n\\"

theorem lex_quoted_path :
    (∀ (source : Source) (s : Lexer) (c : Byte) (more : Text),
      s.rest = quoted pathText ++ c :: more → c ≠ ch '"' → ∃ e : Lexer, s.lexToken source =
        (({ kind := .string, text := quoted pathText, value := pathText, location := s.here,
            real := Scalar.lit 0 } : Token ℚ), e, []) ∧
        e.rest = c :: more ∧ e.pos = s.pos + (quoted pathText).length) ∧
    ∃ (tokens : List (Token ℚ)) (out : List Diagnostic) (more : Text),
      (Source.normalise (quoted pathText ++ ascii ";") []).text = quoted pathText ++ more ∧
      tokenise (Source.normalise (quoted pathText ++ ascii ";") []) =
        ({ kind := .string, text := quoted pathText, value := pathText, location := ⟨1, 1⟩,
           real := Scalar.lit 0, firstOnLine := true } :: tokens, out) :=
  lex_quoted (by decide +kernel) (by decide) (by decide +kernel) (by decide) []

end Dbc
end Canforge
