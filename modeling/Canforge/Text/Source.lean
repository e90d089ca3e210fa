/-
# Source texts and diagnostics

`text/include/canforge/text/{Diagnostic,Lexer}.hpp` with their sources, as far as the text of a
file: `Source::normalise`, `Source::line` and what a diagnostic is.
-/

import Canforge.Core.Frame
import Canforge.Core.Text

namespace Canforge
namespace Text

open Canforge.Core

/-- `SourceLocation`, both counted from 1. -/
structure SourceLocation where
  line : BitVec 32 := 1
  column : BitVec 32 := 1
  deriving DecidableEq, Repr

/-- `Severity`. -/
inductive Severity
  | warning
  | error
  deriving DecidableEq, Repr

/-- `Diagnostic`; a `DiagnosticSink` is the list of those it was given. -/
structure Diagnostic where
  severity : Severity := .error
  code : ErrorCode := .parseUnexpectedToken
  location : SourceLocation
  message : Text
  token : Text := []
  sourceLine : Text := []
  note : Text := []
  deriving DecidableEq, Repr

/-- The end of a line. -/
def lf : Byte := ch '\n'

/-- `\r`. -/
def cr : Byte := ch '\r'

/-- `utf8_sequence_length` of what is left of a text: 0 where no character begins. -/
def utf8SequenceLength : Text → ℕ
  | [] => 0
  | c :: rest =>
    if c < 0x80 then 1
    else
      let need :=
        if c &&& 0xE0 = 0xC0 then 2
        else if c &&& 0xF0 = 0xE0 then 3
        else if c &&& 0xF8 = 0xF0 then 4
        else 0
      if need = 0 ∨ rest.length + 1 < need then 0
      else if (rest.take (need - 1)).all fun b => b &&& 0xC0 = 0x80 then need
      else 0

/-- The loop of `is_valid_utf8`; a round takes a byte at least. -/
def isValidUtf8From : ℕ → Text → Bool
  | _, [] => true
  | 0, _ => false
  | fuel + 1, s =>
    let n := utf8SequenceLength s
    if n = 0 then false else isValidUtf8From fuel (s.drop n)

/-- `is_valid_utf8`. -/
def isValidUtf8 (s : Text) : Bool := isValidUtf8From s.length s

/-- `latin1_to_utf8`. -/
def latin1ToUtf8 (s : Text) : Text :=
  s.flatMap fun c => if c < 0x80 then [c] else [0xC0 ||| c >>> 6, 0x80 ||| c &&& 0x3F]

/-- The third step of `normalise`: every end of a line becomes one `\n`. -/
def convertNewlines : Text → Text
  | [] => []
  | [c] => [if c = cr then lf else c]
  | c :: d :: rest =>
    if c = cr then lf :: (if d = lf then convertNewlines rest else convertNewlines (d :: rest))
    else c :: convertNewlines (d :: rest)

/-- `line_starts_` of a text. -/
def lineStartsOf (text : Text) : List ℕ :=
  0 :: text.zipIdx.filterMap fun (c, i) =>
    if c = lf ∧ i + 1 < text.length then some (i + 1) else none

/-- `Source`. -/
structure Source where
  text : Text
  name : Text := []
  lineStarts : List ℕ
  hadBom : Bool := false
  hadCrlf : Bool := false
  hadLatin1 : Bool := false
  hadNoFinalNewline : Bool := false
  deriving DecidableEq, Repr

namespace Source

/-- The byte order mark. -/
def bom : Text := [0xEF, 0xBB, 0xBF]

/-- `normalise`. -/
def normalise (bytes name : Text) : Source :=
  let hadBom := decide (bytes.take 3 = bom)
  let bytes := if hadBom then bytes.drop 3 else bytes
  let hadLatin1 := !isValidUtf8 bytes
  let bytes := if hadLatin1 then latin1ToUtf8 bytes else bytes
  let out := convertNewlines bytes
  let unfinished := !out.isEmpty && decide (out.getLast? ≠ some lf)
  let text := if unfinished then out ++ [lf] else out
  { text, name, lineStarts := lineStartsOf text, hadBom, hadCrlf := bytes.contains cr, hadLatin1,
    hadNoFinalNewline := unfinished }

/-- `line`: the text of a line, without its end. -/
def line (s : Source) (number : BitVec 32) : Text :=
  if number = 0 ∨ s.lineStarts.length < number.toNat then []
  else (s.text.drop (s.lineStarts.getD (number.toNat - 1) 0)).takeWhile (· != lf)

end Source

/-- A text whose lines end and begin in every way. -/
example : (Source.normalise (Source.bom ++ ascii "a\r\nb\rc") []).text = ascii "a\nb\nc\n" := by
  decide

end Text
end Canforge
