/-
# The lexer

`text/src/Lexer.cpp`: tokens and `Lexer::tokenise`.  A lexer keeps what is left of the text, and
`peek` reads a NUL behind its end, as in the source.  A loop of the source that consumes the
bytes of one kind is `advanceWhile`; the others have a fuel, which is the number of bytes left,
and a round consumes one of them at least.
-/

import Canforge.Core.Scalar
import Canforge.Lib.Numeral
import Canforge.Text.Source

namespace Canforge
namespace Text

open Canforge.Core

/-- `TokenKind`. -/
inductive TokenKind
  | «end»
  | identifier
  | integer
  | real
  | string
  | colon
  | semicolon
  | comma
  | pipe
  | «at»
  | plus
  | minus
  | lParen
  | rParen
  | lBracket
  | rBracket
  | equals
  | dot
  | slash
  | unknown
  deriving DecidableEq, Repr

/-- `to_string`. -/
def TokenKind.toText : TokenKind → Text
  | .end => ascii "end of file"
  | .identifier => ascii "an identifier"
  | .integer => ascii "an integer"
  | .real => ascii "a number"
  | .string => ascii "a quoted string"
  | .colon => ascii "':'"
  | .semicolon => ascii "';'"
  | .comma => ascii "','"
  | .pipe => ascii "'|'"
  | .at => ascii "'@'"
  | .plus => ascii "'+'"
  | .minus => ascii "'-'"
  | .lParen => ascii "'('"
  | .rParen => ascii "')'"
  | .lBracket => ascii "'['"
  | .rBracket => ascii "']'"
  | .equals => ascii "'='"
  | .dot => ascii "'.'"
  | .slash => ascii "'/'"
  | .unknown => ascii "an unexpected character"

/-- `Token`. -/
structure Token (R : Type) where
  kind : TokenKind := .end
  text : Text := []
  location : SourceLocation
  integer : BitVec 64 := 0
  real : R
  value : Text := []
  firstOnLine : Bool := false
  deriving DecidableEq

/-- `is_word`. -/
def Token.isWord {R : Type} (t : Token R) (w : Text) : Bool :=
  decide (t.kind = .identifier) && decide (t.text = w)

/-- `std::isalpha` in the C locale. -/
def isAlpha (c : Byte) : Bool :=
  (decide (ch 'a' ≤ c) && decide (c ≤ ch 'z')) || (decide (ch 'A' ≤ c) && decide (c ≤ ch 'Z'))

/-- `is_ident_start`. -/
def isIdentStart (c : Byte) : Bool := isAlpha c || decide (c = ch '_') || decide (0x80 ≤ c)

/-- `is_ident_continue`. -/
def isIdentContinue (c : Byte) : Bool :=
  isAlpha c || isDigit c || decide (c = ch '_') || decide (0x80 ≤ c)

/-- The number some decimal digits write. -/
def decimalValue (digits : Text) : ℕ := Lib.ofNumeral 10 (digits.map digitVal)

/-- `std::strtoull` of decimal digits. -/
def strtoull (digits : Text) : BitVec 64 := BitVec.ofNat 64 (min (decimalValue digits) (2 ^ 64 - 1))

/-- `Lexer`; `rest` is the text from `pos_` on. -/
structure Lexer where
  rest : Text
  pos : ℕ := 0
  line : BitVec 32 := 1
  column : BitVec 32 := 1
  atLineStart : Bool := true
  deriving DecidableEq, Repr

namespace Lexer

variable (s : Lexer)

/-- `peek`. -/
def peek (ahead : ℕ) : Byte := s.rest.getD ahead 0

/-- `at_end`. -/
def atEnd : Bool := s.rest.isEmpty

/-- `here`. -/
def here : SourceLocation := ⟨s.line, s.column⟩

/-- `advance`; no caller is at the end. -/
def advance : Lexer :=
  match s.rest with
  | [] => s
  | c :: rest =>
    if c = lf then
      { rest, pos := s.pos + 1, line := s.line + 1, column := 1, atLineStart := true }
    else { s with rest, pos := s.pos + 1, column := s.column + 1 }

/-- `while (p(peek())) advance();` for a `p` that is false of NUL. -/
def advanceWhile (p : Byte → Bool) : Lexer := advance^[(s.rest.takeWhile p).length] s

/-- The text between this lexer and a later one. -/
def slice (later : Lexer) : Text := s.rest.take (later.pos - s.pos)

/-- The loop of `skip_trivia`. -/
def skipTriviaFrom : ℕ → Lexer → Lexer
  | 0, s => s
  | fuel + 1, s =>
    if s.atEnd then s
    else
      let c := s.peek 0
      if c = ch ' ' ∨ c = ch '\t' ∨ c = lf ∨ c = 0x0B ∨ c = 0x0C then
        skipTriviaFrom fuel s.advance
      else if c = ch '#' then skipTriviaFrom fuel (s.advanceWhile (· != lf))
      else if c = ch '/' ∧ s.peek 1 = ch '/' then skipTriviaFrom fuel (s.advanceWhile (· != lf))
      else s

/-- `skip_trivia`. -/
def skipTrivia : Lexer := skipTriviaFrom s.rest.length s

/-- `error`. -/
def error (source : Source) (code : ErrorCode) (location : SourceLocation)
    (message token : Text) : Diagnostic :=
  { severity := .error, code, location, message, token, sourceLine := source.line location.line }

variable {R : Type} [Scalar R]

/-- `lex_identifier`. -/
def lexIdentifier : Token R × Lexer :=
  let e := s.advanceWhile isIdentContinue
  ({ kind := .identifier, text := s.slice e, location := s.here, real := Scalar.lit 0 }, e)

/-- The fraction of `lex_number` behind the digits, and whether there is one. -/
def lexFraction : Bool × Lexer :=
  if s.peek 0 = ch '.' ∧ isDigit (s.peek 1) then (true, s.advance.advanceWhile isDigit)
  else if s.peek 0 = ch '.' ∧ isIdentStart (s.peek 1) = false then (true, s.advance)
  else (false, s)

/-- The exponent of `lex_number`, and whether there is one. -/
def lexExponent : Bool × Lexer :=
  if s.peek 0 = ch 'e' ∨ s.peek 0 = ch 'E' then
    let signed := s.peek 1 = ch '+' ∨ s.peek 1 = ch '-'
    if (signed ∧ isDigit (s.peek 2)) ∨ isDigit (s.peek 1) then
      let e := s.advance
      let e := if signed then e.advance else e
      (true, e.advanceWhile isDigit)
    else (false, s)
  else (false, s)

/-- What `lex_number` consumes before it looks at the end of the number, and whether that is a
real number. -/
def lexNumeral : Bool × Lexer :=
  let (hasFraction, mantissa) := (s.advanceWhile isDigit).lexFraction
  let (hasExponent, e) := mantissa.lexExponent
  (hasFraction || hasExponent, e)

/-- `lex_number`. -/
def lexNumber : Token R × Lexer :=
  let (isReal, e) := s.lexNumeral
  if isIdentContinue (e.peek 0) ∧ isReal = false then
    let e := e.advanceWhile isIdentContinue
    ({ kind := .identifier, text := s.slice e, location := s.here, real := Scalar.lit 0 }, e)
  else
    let text := s.slice e
    if isReal then ({ kind := .real, text, location := s.here, real := Scalar.strtod text }, e)
    else
      let integer := strtoull text
      ({ kind := .integer, text, location := s.here, integer,
         real := Scalar.ofNat integer.toNat }, e)

/-- The loop of `lex_string`: the value, whether it was terminated, and the lexer behind it. -/
def lexStringFrom : ℕ → Lexer → Text → Text × Bool × Lexer
  | 0, s, value => (value, false, s)
  | fuel + 1, s, value =>
    if s.atEnd then (value, false, s)
    else
      let c := s.peek 0
      if c = ch '\\' then
        let next := s.peek 1
        if next = ch '"' ∨ next = ch '\\' then
          lexStringFrom fuel s.advance.advance (value ++ [s.advance.peek 0])
        else lexStringFrom fuel s.advance (value ++ [s.peek 0])
      else if c = ch '"' then
        if s.peek 1 = ch '"' then
          lexStringFrom fuel s.advance.advance (value ++ [s.advance.peek 0])
        else (value, true, s.advance)
      else lexStringFrom fuel s.advance (value ++ [s.peek 0])

/-- `lex_string`. -/
def lexString (source : Source) : Token R × Lexer × List Diagnostic :=
  let opened := s.advance
  let (value, terminated, e) := lexStringFrom opened.rest.length opened []
  ({ kind := .string, text := s.slice e, location := s.here, value, real := Scalar.lit 0 }, e,
    if terminated then []
    else [error source .parseUnterminatedString s.here (ascii "string literal is never closed")
      (ascii "\"")])

/-- The kind of a character that is a token. -/
def punctuation (c : Byte) : TokenKind :=
  if c = ch ':' then .colon
  else if c = ch ';' then .semicolon
  else if c = ch ',' then .comma
  else if c = ch '|' then .pipe
  else if c = ch '@' then .at
  else if c = ch '+' then .plus
  else if c = ch '-' then .minus
  else if c = ch '(' then .lParen
  else if c = ch ')' then .rParen
  else if c = ch '[' then .lBracket
  else if c = ch ']' then .rBracket
  else if c = ch '=' then .equals
  else if c = ch '.' then .dot
  else if c = ch '/' then .slash
  else .unknown

/-- A token of one character. -/
def lexPunctuation (source : Source) : Token R × Lexer × List Diagnostic :=
  let e := s.advance
  let kind := punctuation (s.peek 0)
  ({ kind, text := s.slice e, location := s.here, real := Scalar.lit 0 }, e,
    if kind = .unknown then
      [error source .parseUnexpectedToken s.here (ascii "unexpected character in the input")
        (s.slice e)]
    else [])

/-- The token at the lexer, which is not at the end. -/
def lexToken (source : Source) : Token R × Lexer × List Diagnostic :=
  let c := s.peek 0
  if isDigit c ∨ (c = ch '.' ∧ isDigit (s.peek 1)) then
    let (t, e) : Token R × Lexer := s.lexNumber
    (t, e, [])
  else if isIdentStart c then
    let (t, e) : Token R × Lexer := s.lexIdentifier
    (t, e, [])
  else if c = ch '"' then s.lexString source
  else s.lexPunctuation source

/-- The loop of `tokenise`. -/
def tokeniseFrom (source : Source) : ℕ → Lexer → List (Token R) × List Diagnostic
  | 0, _ => ([], [])
  | fuel + 1, s =>
    let s := s.skipTrivia
    let first := s.atLineStart
    let s := { s with atLineStart := false }
    if s.atEnd then ([{ location := s.here, real := Scalar.lit 0, firstOnLine := first }], [])
    else
      let (t, e, out) := s.lexToken source
      let (tokens, more) := tokeniseFrom source fuel e
      ({ t with firstOnLine := first } :: tokens, out ++ more)

end Lexer

/-- `Lexer::tokenise`: the tokens of a source and what the lexer reports. -/
def tokenise {R : Type} [Scalar R] (source : Source) : List (Token R) × List Diagnostic :=
  Lexer.tokeniseFrom source (source.text.length + 1) { rest := source.text }

/-- A number that runs into a name is a name. -/
example : ((tokenise (R := ℚ) (Source.normalise (ascii "3PMS 3.5e2 # x\n- \"a\\\"b\"") [])).1.map
    fun t => (t.kind, t.text, t.value, t.firstOnLine)) =
    [(.identifier, ascii "3PMS", [], true), (.real, ascii "3.5e2", [], false),
     (.minus, ascii "-", [], true), (.string, ascii "\"a\\\"b\"", ascii "a\"b", false),
     (.end, [], [], true)] := by
  decide +kernel

end Text
end Canforge
