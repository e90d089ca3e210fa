/-
# Log files as text

`transport/include/canforge/transport/LogFormat.hpp` and
`transport/src/LogFormat.cpp`: the candump and the ASC format, their readers and
their writers.  A stream is the list of the lines `std::getline` takes from it
(`getLines`), and a number is written by `numeral`.  Sums of the time stamp wrap
at `2^64`; a hexadecimal number has at most sixteen digits and cannot.
-/

import Canforge.Core.FrameBuild
import Canforge.Core.Text
import Canforge.Lib.Numeral

namespace Canforge
namespace Transport

open Canforge.Core

/-- `LogRecord`. -/
structure LogRecord where
  frame : FdFrame
  channel : Text := ascii "can0"
  isRx : Bool := true
  deriving DecidableEq

/-- `malformed`. -/
def malformed (why : String) (line : ℕ := 0) : Error := ⟨.logBadFormat, why, (line, 0)⟩

/-! ### Reading words and numbers -/

/-- `hex_nibble`. -/
def hexNibble (c : Byte) : Option ℕ :=
  if ch '0' ≤ c ∧ c ≤ ch '9' then some (c - ch '0').toNat
  else if ch 'a' ≤ c ∧ c ≤ ch 'f' then some ((c - ch 'a').toNat + 10)
  else if ch 'A' ≤ c ∧ c ≤ ch 'F' then some ((c - ch 'A').toNat + 10)
  else none

/-- The loop of `parse_hex`. -/
def parseHexFrom : ℕ → Text → Option ℕ
  | out, [] => some out
  | out, c :: cs =>
    match hexNibble c with
    | some nibble => parseHexFrom (out * 16 + nibble) cs
    | none => none

/-- `parse_hex`. -/
def parseHex (text : Text) : Option ℕ :=
  if text = [] ∨ 16 < text.length then none else parseHexFrom 0 text

/-- The loop of `parse_hex_bytes`. -/
def hexPairs : Text → Option (List Byte)
  | hi :: lo :: rest =>
    match hexNibble hi, hexNibble lo, hexPairs rest with
    | some hi, some lo, some bytes => some (BitVec.ofNat 8 (hi * 16 + lo) :: bytes)
    | _, _, _ => none
  | _ => some []

/-- `parse_hex_bytes`. -/
def parseHexBytes (text : Text) (max : ℕ) : Option (List Byte) :=
  if text.length % 2 ≠ 0 then none
  else if max < text.length / 2 then none
  else hexPairs text

/-- What `trim` removes. -/
def isTrimmed (c : Byte) : Bool := c == ch ' ' || c == ch '\t' || c == ch '\r'

/-- `trim`. -/
def trim (s : Text) : Text := (s.dropWhile isTrimmed).rdropWhile isTrimmed

/-- The loop over the whole seconds. -/
def wholeFrom : ℕ → Text → ℕ × Text
  | whole, [] => (whole, [])
  | whole, c :: cs =>
    if isDigit c then wholeFrom ((whole * 10 + digitVal c) % 2 ^ 64) cs else (whole, c :: cs)

/-- The loop over the fraction; a digit below a nanosecond is dropped. -/
def fractionFrom : ℕ → ℕ → Text → ℕ × Text
  | _, fraction, [] => (fraction, [])
  | scale, fraction, c :: cs =>
    if isDigit c then fractionFrom (scale / 10) (fraction + digitVal c * scale) cs
    else (fraction, c :: cs)

/-- `parse_seconds_to_ns`. -/
def parseSecondsToNs (text : Text) : Option ℕ :=
  let (whole, rest) := wholeFrom 0 text
  if rest.length = text.length then none
  else
    let (fraction, rest) :=
      match rest with
      | c :: cs => if c = ch '.' then fractionFrom 100000000 0 cs else (0, c :: cs)
      | [] => (0, [])
    if rest ≠ [] then none else some ((whole * 1000000000 + fraction) % 2 ^ 64)

/-- What separates the words of a line. -/
def isBlank (c : Byte) : Bool := c == ch ' ' || c == ch '\t'

/-- The loop of `split_whitespace`, in the middle of the word `word`. -/
def splitFrom : Text → Text → List Text
  | word, [] => if word = [] then [] else [word]
  | word, c :: cs =>
    if isBlank c then if word = [] then splitFrom [] cs else word :: splitFrom [] cs
    else splitFrom (word ++ [c]) cs

/-- `split_whitespace`. -/
def splitWhitespace (s : Text) : List Text := splitFrom [] s

/-- The value of a digit for `std::strtoul`, if it is one in this base. -/
def strtoulDigit (base : ℕ) (c : Byte) : Option ℕ := (hexNibble c).filter (· < base)

/-- `std::strtoul` and `std::strtoull` on the characters before the first NUL. -/
def strtoul (base : ℕ) (text : Text) : ℕ :=
  let text := (text.takeWhile (· != 0)).dropWhile isSpace
  let negative := text.head? = some (ch '-')
  let text := if negative ∨ text.head? = some (ch '+') then text.drop 1 else text
  let text :=
    match text with
    | zero :: x :: c :: rest =>
      if base = 16 ∧ zero = ch '0' ∧ (x = ch 'x' ∨ x = ch 'X') ∧ (hexNibble c).isSome then c :: rest
      else text
    | _ => text
  let digits := (text.takeWhile fun c => (strtoulDigit base c).isSome).filterMap (strtoulDigit base)
  let value := Lib.ofNumeral base digits
  if 2 ^ 64 ≤ value then 2 ^ 64 - 1
  else if negative then (2 ^ 64 - value) % 2 ^ 64
  else value

/-! ### Writing numbers and bytes -/

/-- A number in decimal, at least so many digits of it. -/
def dec (width n : ℕ) : Text := (Lib.numeral 10 width n).map digitChar

/-- A number in upper case hexadecimal. -/
def hex (width n : ℕ) : Text := (Lib.numeral 16 width n).map digitChar

/-- The two digits of a byte. -/
def hexByte (b : Byte) : Text := [digitChar (b.toNat / 16), digitChar (b.toNat % 16)]

/-- `to_hex`. -/
def toHex (spaced : Bool) : List Byte → Text
  | [] => []
  | [b] => hexByte b
  | b :: rest => hexByte b ++ (if spaced then [ch ' '] else []) ++ toHex spaced rest

/-- The time stamp both formats begin with. -/
def formatSeconds (ns : ℕ) : Text :=
  dec 1 (ns / 1000000000) ++ [ch '.'] ++ dec 6 (ns % 1000000000 / 1000)

/-! ### candump -/

/-- The time stamp of a candump line, in its parentheses. -/
def parseStamp (stamp : Text) : Result ℕ :=
  if stamp.length < 3 ∨ stamp.head? ≠ some (ch '(') ∨ stamp.getLast? ≠ some (ch ')') then
    .error (malformed "the timestamp must be wrapped in parentheses")
  else
    match parseSecondsToNs stamp.tail.dropLast with
    | none => .error (malformed "the timestamp is not a decimal number of seconds")
    | some timestampNs => .ok timestampNs

/-- The flags of a CAN FD frame and what follows them; without a second `#` the frame is
classic. -/
def parseFdFlags (rest : Text) : Result (FrameFlags × Text) :=
  match rest with
  | [] => .ok (FrameFlags.none, [])
  | c :: nibbles =>
    if c = ch '#' then
      match nibbles with
      | [] => .error (malformed "a CAN FD frame needs a flags nibble after '##'")
      | n :: rest =>
        match hexNibble n with
        | none => .error (malformed "the CAN FD flags nibble is not hexadecimal")
        | some nibble =>
          .ok (FrameFlags.fd |||
            (if nibble.testBit 0 then FrameFlags.brs else FrameFlags.none) |||
            (if nibble.testBit 1 then FrameFlags.esi else FrameFlags.none), rest)
    else .ok (FrameFlags.none, c :: nibbles)

/-- The identifier of a text log: extended identifiers are cut to their 29 bits. -/
def logId (extended : Bool) (rawId : ℕ) : Result CanId :=
  if extended then CanId.extended (BitVec.ofNat 32 rawId &&& 0x1FFFFFFF)
  else CanId.standard (BitVec.ofNat 32 rawId)

/-- The data of a candump frame behind the `#`. -/
def parseCandumpData (id : CanId) (flags : FrameFlags) (rest : Text) (timestampNs : ℕ) :
    Result FdFrame :=
  if rest.head? = some (ch 'R') ∨ rest.head? = some (ch 'r') then
    match if rest.tail = [] then some 0 else parseHex rest.tail with
    | none => .error (malformed "the remote frame length is not a number")
    | some requested => BasicFrame.makeRemote 64 id (requested % 256) timestampNs
  else
    match parseHexBytes rest 64 with
    | none => .error (malformed "the payload is not an even number of hex digits")
    | some payload =>
      if hasFlag flags FrameFlags.fd = false ∧ 8 < payload.length then
        .error (malformed "a classic CAN frame cannot carry more than eight bytes")
      else BasicFrame.make 64 id payload flags timestampNs

/-- The frame of a candump line. -/
def parseCandumpFrame (body : Text) (timestampNs : ℕ) : Result FdFrame :=
  match body.span (· != ch '#') with
  | (_, []) => .error (malformed "no '#' separating the identifier from the data")
  | (idText, _ :: rest) =>
    match parseHex idText with
    | none => .error (malformed "the identifier is not hexadecimal")
    | some rawId => do
      let extended := decide (3 < idText.length)
      let (flags, rest) ← parseFdFlags rest
      let flags :=
        if extended ∧ rawId.testBit 29 ∧ idText.length = 8 then flags ||| FrameFlags.error
        else flags
      let id ← logId extended rawId
      parseCandumpData id flags rest timestampNs

/-- `parse_candump_line`. -/
def parseCandumpLine (line : Text) : Result LogRecord :=
  if trim line = [] ∨ (trim line).head? = some (ch '#') then
    .error (malformed "blank or comment line")
  else
    match splitWhitespace (trim line) with
    | stamp :: channel :: body :: _ => do
      let timestampNs ← parseStamp stamp
      let frame ← parseCandumpFrame body timestampNs
      return { frame, channel }
    | _ => .error (malformed "a candump line needs a timestamp, an interface and a frame")

/-- The identifier of a candump line. -/
def formatCandumpId (f : FdFrame) : Text :=
  hex (if f.id.isExtended || f.isErrorFrame then 8 else 3)
    (if f.isErrorFrame then f.id.value ||| 0x20000000 else f.id.value).toNat

/-- What a candump line says behind the identifier. -/
def formatCandumpData (f : FdFrame) : Text :=
  if f.isRemote then ascii "#R" ++ dec 1 f.dlc
  else
    (if f.isFd then ascii "##" ++ hex 1 (f.isBrs.toNat + 2 * f.isEsi.toNat) else ascii "#") ++
      toHex false f.bytes

/-- `format_candump_line`. -/
def formatCandumpLine (record : LogRecord) : Text :=
  [ch '('] ++ formatSeconds record.frame.timestampNs ++ ascii ") " ++ record.channel ++ [ch ' '] ++
    formatCandumpId record.frame ++ formatCandumpData record.frame

/-! ### Streams -/

/-- The lines `std::getline` takes from a stream: the last one may lack its newline. -/
def getLines (content : Text) : List Text :=
  let lines := content.splitOn (ch '\n')
  if lines.getLast? = some [] then lines.dropLast else lines

/-- `CandumpReader`. -/
structure CandumpReader where
  lines : List Text
  lineNumber : ℕ := 0
  deriving DecidableEq

/-- `Error::with` of a line number, a `std::uint32_t`. -/
def atLine (e : Error) (lineNumber : ℕ) : Error := { e with detail := (lineNumber, 0) }

/-- `CandumpReader::next`: the lines left, from the first of them. -/
def CandumpReader.nextFrom (lineNumber : ℕ) : List Text → Result LogRecord × CandumpReader
  | [] => (.error ⟨.logEndOfFile, "end of candump log", (0, 0)⟩, ⟨[], lineNumber⟩)
  | line :: lines =>
    let lineNumber := (lineNumber + 1) % 2 ^ 32
    if trim line = [] ∨ (trim line).head? = some (ch '#') then nextFrom lineNumber lines
    else
      match parseCandumpLine (trim line) with
      | .error e => (.error (atLine e lineNumber), ⟨lines, lineNumber⟩)
      | .ok record => (.ok record, ⟨lines, lineNumber⟩)

/-- `next`. -/
def CandumpReader.next (r : CandumpReader) : Result LogRecord × CandumpReader :=
  nextFrom r.lineNumber r.lines

/-- What `CandumpWriter::write` appends to the file. -/
def candumpWrite (record : LogRecord) : Text := formatCandumpLine record ++ [ch '\n']

/-! ### Vector ASC -/

/-- The identifier of an ASC line, with its extension mark. -/
def parseAscId (hexBase : Bool) (idText : Text) : Result CanId :=
  let extended := decide (idText.getLast? = some (ch 'x') ∨ idText.getLast? = some (ch 'X'))
  let idText := if extended then idText.dropLast else idText
  if hexBase then
    match parseHex idText with
    | none => .error ⟨.logEndOfFile, "not a frame line", (0, 0)⟩
    | some rawId => logId extended rawId
  else logId extended (strtoul 10 idText)

/-- The loop over the payload words: it stops at the first that is no number, and the rest of
the `take` bytes is zero. -/
def ascPayload : ℕ → List Text → List Byte
  | 0, _ => []
  | take + 1, [] => List.replicate (take + 1) 0
  | take + 1, word :: words =>
    match parseHex word with
    | none => List.replicate (take + 1) 0
    | some byte => BitVec.ofNat 8 byte :: ascPayload take words

/-- `AscReader::parse_classic`. -/
def parseClassic (hexBase : Bool) (channel idText direction kind lengthText : Text)
    (words : List Text) (timestampNs : ℕ) : Result LogRecord := do
  let id ← parseAscId hexBase idText
  let length := strtoul (if hexBase then 16 else 10) lengthText
  let isRx := decide (direction = ascii "Rx")
  if kind = ascii "r" ∨ kind = ascii "R" then
    let frame ← BasicFrame.makeRemote 64 id (length % 256) timestampNs
    return { frame, channel, isRx }
  else
    let payload := ascPayload (min length (min words.length 64)) words
    let frame ← BasicFrame.make 64 id payload FrameFlags.none timestampNs
    return { frame, channel, isRx }

/-- `AscReader::parse_fd`.  The data length code of the line is not read. -/
def parseFd (channel direction idText brs esi lengthText : Text) (words : List Text)
    (timestampNs : ℕ) : Result LogRecord := do
  let id ← parseAscId true idText
  let flags := FrameFlags.fd |||
    (if brs ≠ ascii "0" then FrameFlags.brs else FrameFlags.none) |||
    (if esi ≠ ascii "0" then FrameFlags.esi else FrameFlags.none)
  let length := strtoul 10 lengthText
  let payload := ascPayload (min length (min words.length 64)) words
  let frame ← BasicFrame.make 64 id payload flags timestampNs
  return { frame, channel, isRx := decide (direction = ascii "Rx") }

/-- `AscReader::parse_line`.  `LogEndOfFile` is a line to skip. -/
def parseAscLine (hexBase : Bool) (line : Text) : Result LogRecord :=
  match splitWhitespace line with
  | stamp :: second :: third :: rest =>
    match parseSecondsToNs stamp with
    | none => .error ⟨.logEndOfFile, "not a frame line", (0, 0)⟩
    | some timestampNs =>
      if second = ascii "CANFD" then
        match rest with
        | direction :: idText :: brs :: esi :: _ :: lengthText :: words =>
          parseFd third direction idText brs esi lengthText words timestampNs
        | _ => .error ⟨.logEndOfFile, "truncated CAN FD line", (0, 0)⟩
      else
        match rest with
        | direction :: kind :: lengthText :: words =>
          parseClassic hexBase second third direction kind lengthText words timestampNs
        | _ => .error ⟨.logEndOfFile, "not a frame line", (0, 0)⟩
  | _ => .error ⟨.logEndOfFile, "not a frame line", (0, 0)⟩

/-- `AscReader`. -/
structure AscReader where
  lines : List Text
  lineNumber : ℕ := 0
  hexBase : Bool := true
  deriving DecidableEq

/-- `AscReader::next`: the lines left, from the first of them. -/
def AscReader.nextFrom (lineNumber : ℕ) (hexBase : Bool) :
    List Text → Result LogRecord × AscReader
  | [] => (.error ⟨.logEndOfFile, "end of ASC log", (0, 0)⟩, ⟨[], lineNumber, hexBase⟩)
  | line :: lines =>
    let lineNumber := (lineNumber + 1) % 2 ^ 32
    let trimmed := trim line
    if trimmed = [] ∨ (ascii "//").isPrefixOf trimmed then nextFrom lineNumber hexBase lines
    else if (ascii "base ").isPrefixOf trimmed then
      nextFrom lineNumber (decide (ascii "hex" <:+: trimmed)) lines
    else if (trimmed.head?.map isDigit).getD false = false then nextFrom lineNumber hexBase lines
    else
      match parseAscLine hexBase trimmed with
      | .error e =>
        if e.code = .logEndOfFile then nextFrom lineNumber hexBase lines
        else (.error (atLine e lineNumber), ⟨lines, lineNumber, hexBase⟩)
      | .ok record => (.ok record, ⟨lines, lineNumber, hexBase⟩)

/-- `next`. -/
def AscReader.next (r : AscReader) : Result LogRecord × AscReader :=
  nextFrom r.lineNumber r.hexBase r.lines

/-- What the constructor of `AscWriter` writes. -/
def ascHeader : Text :=
  ascii "date Wed Jan 1 00:00:00 2025\n" ++ ascii "base hex  timestamps absolute\n" ++
    ascii "internal events logged\n" ++ ascii "// canforge\n"

/-- The identifier of an ASC line. -/
def formatAscId (f : FdFrame) : Text :=
  hex 1 f.id.value.toNat ++ if f.id.isExtended then [ch 'x'] else []

/-- The line `AscWriter::write` writes. -/
def formatAscLine (record : LogRecord) : Text :=
  let f := record.frame
  let direction := if record.isRx then ascii "Rx" else ascii "Tx"
  formatSeconds f.timestampNs ++ [ch ' '] ++
    if f.isFd then
      ascii "CANFD " ++ record.channel ++ [ch ' '] ++ direction ++ [ch ' '] ++ formatAscId f ++
        [ch ' '] ++ dec 1 f.isBrs.toNat ++ [ch ' '] ++ dec 1 f.isEsi.toNat ++ [ch ' '] ++
        dec 1 f.dlc ++ [ch ' '] ++ dec 1 f.size ++ [ch ' '] ++ toHex true f.bytes
    else if f.isRemote then
      record.channel ++ ascii "  " ++ formatAscId f ++ ascii "             " ++ direction ++
        ascii "   r " ++ dec 1 f.dlc
    else
      record.channel ++ ascii "  " ++ formatAscId f ++ ascii "             " ++ direction ++
        ascii "   d " ++ dec 1 f.size ++ [ch ' '] ++ toHex true f.bytes

/-- What `AscWriter::write` appends to the file. -/
def ascWrite (record : LogRecord) : Text := formatAscLine record ++ [ch '\n']

/-- What `AscWriter::finish` appends. -/
def ascFinish : Text := ascii "End TriggerBlock\n"

end Transport
end Canforge
