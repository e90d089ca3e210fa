/-
# The DBC parser

`dbc/src/Parser.cpp`.  A production is code on the parser's state (`Lib.Reporting`) whose reports
are the diagnostics; a `bool` that says whether an out parameter was set is an `Option`, and
`parse_unsigned` and `parse_number` give the token they read, whose fields are the number.  The
tokens of the state are those from `pos_` on; the last one, the end, is never consumed.  A
pointer into the database is what it was looked up with, as the first match is the one found
again.

A loop stops with `Stop.outOfFuel` when it has had more rounds than there were tokens, and
`static_cast<std::int64_t>` of a number outside of the type stops with `Stop.undefinedCast`.

`statements` is a ghost variable that nothing reads: the literals of the statements that put
integers into the database.
-/

import Canforge.Core.Message
import Canforge.Lib.Reporting
import Canforge.Text.Lexer

namespace Canforge
namespace Dbc

open Canforge.Core Text Lib

/-- Where a run has no result. -/
inductive Stop
  | outOfFuel
  | undefinedCast
  deriving DecidableEq, Repr

/-- What `parse_number` reads: a sign and a token. -/
structure Number (R : Type) where
  negative : Bool
  token : Token R
  deriving DecidableEq

/-- The literals of an `SG_` line; `multiplexed` are the digits of `m<n>`. -/
structure SignalLine (R : Type) where
  name : Text
  multiplexed : Option Text
  start : Token R
  length : Token R
  deriving DecidableEq

/-- The literals of a statement. -/
inductive Statement (R : Type)
  | bitTiming (baudrate : Token R) (registers : Option (Token R × Token R))
  | valueTable (keys : List (Number R))
  | message (id length : Token R) (signals : List (SignalLine R))
  | valueDescriptions (id : Token R) (signal : Text) (keys : List (Number R))
  | multiplexing (id : Token R) (signal : Text) (ranges : List (Token R × Token R))
  deriving DecidableEq

/-- `Parser`. -/
structure Parser (R : Type) where
  source : Source
  tokens : List (Token R)
  db : Database R := {}
  statements : List (Statement R) := []

/-- A production. -/
abbrev ParserM (R α : Type) := Reporting (Parser R) Diagnostic Stop α

/-- `kDbcExtendedFlag`. -/
def kDbcExtendedFlag : BitVec 32 := 0x80000000#32

/-- `kNoNode`. -/
def kNoNode : Text := ascii "Vector__XXX"

/-- `std::to_string` of an unsigned number. -/
def toDecimal (n : ℕ) : Text := (Lib.numeral 10 1 n).map digitChar

/-- `to_string(AttributeObject)`. -/
def objectText : AttributeObject → Text
  | .database => ascii "database"
  | .node => ascii "node"
  | .message => ascii "message"
  | .signal => ascii "signal"
  | .envVar => ascii "environment variable"

/-- The words at which `resynchronise` stops. -/
def kWords : List Text :=
  ["VERSION", "NS_", "BS_", "BU_", "BO_", "CM_", "BA_DEF_", "BA_DEF_DEF_", "BA_", "VAL_",
    "VAL_TABLE_", "SIG_VALTYPE_", "SG_MUL_VAL_", "BO_TX_BU_", "EV_", "BA_DEF_REL_", "BA_REL_",
    "BA_DEF_DEF_REL_", "SIG_GROUP_", "SGTYPE_", "ENVVAR_DATA_", "BU_SG_REL_", "BU_BO_REL_",
    "BU_EV_REL_", "CAT_DEF_", "CAT_", "FILTER", "SIG_TYPE_REF_"].map ascii

/-- `is_top_level_keyword`. -/
def isTopLevelKeyword (w : Text) : Bool := kWords.contains w

/-- The sections that `run` skips without a reason of their own. -/
def kSkipped : List Text :=
  ["SIG_GROUP_", "SGTYPE_", "ENVVAR_DATA_", "BU_SG_REL_", "BU_BO_REL_", "BU_EV_REL_", "CAT_DEF_",
    "CAT_", "FILTER", "SIG_TYPE_REF_"].map ascii

variable {R : Type} [Scalar R]

/-- The number `parse_number` gives. -/
def Number.value (n : Number R) : R :=
  Scalar.lit (if n.negative then -1 else 1) * n.token.real

/-- `static_cast<std::int64_t>`; outside of the type it is undefined. -/
def toInt64 (v : R) : Option ℤ :=
  if Scalar.le (Scalar.lit (-2 ^ 63)) v && Scalar.lt v (Scalar.lit (2 ^ 63)) then
    some (Scalar.toInt v)
  else none

/-- `AttributeValue{}`. -/
def AttributeValue.empty : AttributeValue R := { number := Scalar.lit 0 }

namespace Parser

/-- The token behind the last one, which is never asked for. -/
def noToken : Token R := { location := {}, real := Scalar.lit 0 }

/-- `peek` at a token ahead. -/
def ahead (s : Parser R) (n : ℕ) : Token R :=
  (s.tokens[n]?.or s.tokens.getLast?).getD noToken

/-- `peek`. -/
def peek (n : ℕ) : ParserM R (Token R) := do
  let s ← Reporting.get
  return s.ahead n

/-- `current`. -/
def current : ParserM R (Token R) := peek 0

/-- `advance`. -/
def advance : ParserM R (Token R) := do
  let s ← Reporting.get
  Reporting.modify fun s => if 1 < s.tokens.length then { s with tokens := s.tokens.tail } else s
  return s.ahead 0

/-- `db_` after a change. -/
def modifyDb (f : Database R → Database R) : ParserM R Unit :=
  Reporting.modify fun s => { s with db := f s.db }

/-- `db_`. -/
def database : ParserM R (Database R) := do
  let s ← Reporting.get
  return s.db

/-- The ghost variable. -/
def record (statement : Statement R) : ParserM R Unit :=
  Reporting.modify fun s => { s with statements := s.statements ++ [statement] }

/-- A loop of a production. -/
def while_ {β : Type} (round : β → ParserM R (β × Bool)) (b : β) : ParserM R β := do
  let s ← Reporting.get
  Reporting.loop .outOfFuel round (s.tokens.length + 1) b

/-- `at_end`. -/
def atEnd : ParserM R Bool := do
  let t ← current
  return decide (t.kind = .end)

/-- `match`. -/
def matchKind (k : TokenKind) : ParserM R Bool := do
  let t ← current
  if t.kind = k then
    let _ ← advance
    return true
  else return false

/-- `report`. -/
def report (severity : Severity) (code : ErrorCode) (t : Token R) (message note : Text) :
    ParserM R Unit := do
  let s ← Reporting.get
  Reporting.report
    { severity, code, location := t.location, message,
      token := if t.kind = .end then ascii "<end of file>" else t.text,
      sourceLine := s.source.line t.location.line, note }

/-- `error`. -/
def error (code : ErrorCode) (t : Token R) (message : Text) (note : Text := []) :
    ParserM R Unit := report .error code t message note

/-- `warn`. -/
def warn (code : ErrorCode) (t : Token R) (message : Text) (note : Text := []) :
    ParserM R Unit := report .warning code t message note

/-- `expect`. -/
def expect (k : TokenKind) (what : String) : ParserM R Bool := do
  let t ← current
  if t.kind = k then
    let _ ← advance
    return true
  else
    error .parseUnexpectedToken t
      (ascii "expected " ++ k.toText ++ ascii " " ++ ascii what ++ ascii ", found " ++
        t.kind.toText)
    return false

/-- A round of `resynchronise`. -/
def resynchroniseRound (_ : Unit) : ParserM R (Unit × Bool) := do
  if ← atEnd then return ((), false)
  else
    let t ← current
    if t.kind = .semicolon then
      let _ ← advance
      return ((), false)
    else if t.firstOnLine ∧ t.kind = .identifier ∧ isTopLevelKeyword t.text then
      return ((), false)
    else
      let _ ← advance
      return ((), true)

/-- `resynchronise`. -/
def resynchronise : ParserM R Unit := while_ resynchroniseRound ()

/-- The sign of `parse_number`. -/
def parseSign : ParserM R Bool := do
  if ← matchKind .minus then return true
  else
    let _ ← matchKind .plus
    return false

/-- `parse_number`. -/
def parseNumber : ParserM R (Option (Number R)) := do
  let negative ← parseSign
  let t ← current
  if t.kind ≠ .integer ∧ t.kind ≠ .real then
    error .parseBadNumber t (ascii "expected a number")
    return none
  else
    let token ← advance
    return some { negative, token }

/-- `parse_unsigned`. -/
def parseUnsigned : ParserM R (Option (Token R)) := do
  let t ← current
  if t.kind ≠ .integer then
    error .parseBadNumber t (ascii "expected a non-negative integer")
    return none
  else
    let token ← advance
    return some token

/-- `parse_string`. -/
def parseString : ParserM R (Option Text) := do
  let t ← current
  if t.kind ≠ .string then
    error .parseUnexpectedToken t (ascii "expected a quoted string")
    return none
  else
    let token ← advance
    return some token.value

/-- `parse_name`. -/
def parseName : ParserM R (Option Text) := do
  let t ← current
  if t.kind ≠ .identifier then
    error .parseUnexpectedToken t (ascii "expected a name")
    return none
  else
    let token ← advance
    return some token.text

/-- A round of `parse_name_list`. -/
def parseNameListRound (names : List Text) : ParserM R (List Text × Bool) := do
  let t ← current
  if t.kind ≠ .identifier then return (names, false)
  else
    let token ← advance
    let names := if token.text ≠ kNoNode then names ++ [token.text] else names
    return (names, ← matchKind .comma)

/-- `parse_name_list`. -/
def parseNameList : ParserM R (List Text) := while_ parseNameListRound []

/-- `parse_message_id`. -/
def parseMessageId (raw : Token R) : ParserM R CanId := do
  let packed : BitVec 32 := raw.integer.setWidth 32
  let extended := decide (packed &&& kDbcExtendedFlag ≠ 0)
  let id := packed &&& ~~~kDbcExtendedFlag
  match if extended then CanId.extended id else CanId.standard id with
  | .ok built => return built
  | .error _ =>
    if extended = false ∧ id ≤ kExtendedIdMax then
      warn .parseSemantic raw
        (ascii "identifier does not fit in 11 bits and the extended flag (bit 31) " ++
          ascii "is not set; treating it as a 29-bit identifier")
        (ascii "some exporters omit the 0x80000000 flag that Vector tools set")
      return (CanId.extended id).value
    else
      error .frameBadIdentifier raw
        (ascii "message identifier is out of range for both frame formats")
      return default

/-! ### Lookups -/

/-- The message `find_message` points to. -/
def modifyMessage (id : CanId) (f : Message R → Message R) : ParserM R Unit :=
  modifyDb fun db =>
    { db with messages := db.messages.replaceF fun m => if m.id = id then some (f m) else none }

/-- The signal `find_signal` points to. -/
def modifySignal (id : CanId) (name : Text) (f : Signal R → Signal R) : ParserM R Unit :=
  modifyMessage id fun m =>
    { m with signals := m.signals.replaceF fun s => if s.name = name then some (f s) else none }

/-- `find_node`. -/
def findNode (db : Database R) (name : Text) : Option (Node R) := db.nodes.find? (·.name = name)

/-- The node `find_node` points to. -/
def modifyNode (name : Text) (f : Node R → Node R) : ParserM R Unit :=
  modifyDb fun db =>
    { db with nodes := db.nodes.replaceF fun n => if n.name = name then some (f n) else none }

/-- `find_message`. -/
def findMessage (id : CanId) : ParserM R (Option (Message R)) := do
  let db ← database
  return db.findMessage id

/-- `m->find_signal` where `m` is not null. -/
def findSignal (m : Option (Message R)) (name : Text) : Option (Signal R) :=
  m.bind (·.findSignal name)

/-- `find_attribute_definition`. -/
def findAttributeDefinition (name : Text) : ParserM R (Option (AttributeDefinition R)) := do
  let db ← database
  return db.attributeDefinitions.find? (·.name = name)

/-! ### The sections -/

/-- `parse_version`. -/
def parseVersion : ParserM R Unit := do
  let _ ← advance
  match ← parseString with
  | some version => modifyDb ({ · with version })
  | none => resynchronise

/-- A round of `parse_new_symbols`. -/
def parseNewSymbolsRound (symbols : List Text) : ParserM R (List Text × Bool) := do
  let t ← current
  let next ← peek 1
  if t.kind ≠ .identifier ∨ t.isWord (ascii "BS_") then return (symbols, false)
  else if ¬(next.firstOnLine ∨ next.kind = .end) then return (symbols, false)
  else
    let token ← advance
    return (symbols ++ [token.text], true)

/-- `parse_new_symbols`. -/
def parseNewSymbols : ParserM R Unit := do
  let _ ← advance
  let _ ← matchKind .colon
  let newSymbols ← while_ parseNewSymbolsRound []
  modifyDb ({ · with newSymbols })

/-- A number cast to `std::uint32_t`, if there is one. -/
def toUInt32 (raw : Option (Token R)) : BitVec 32 := raw.elim 0 (·.integer.setWidth 32)

/-- `parse_bit_timing`. -/
def parseBitTiming : ParserM R Unit := do
  let _ ← advance
  let _ ← expect .colon "after BS_"
  let t ← current
  if t.kind = .integer then
    let baudrate ← parseUnsigned
    if ← matchKind .colon then
      let btr1 ← parseUnsigned
      let _ ← expect .comma "between the two bit timing registers"
      let btr2 ← parseUnsigned
      record (.bitTiming t (some (btr1.getD noToken, btr2.getD noToken)))
      modifyDb ({ · with bitTiming := some ⟨toUInt32 baudrate, toUInt32 btr1, toUInt32 btr2⟩ })
    else
      record (.bitTiming t none)
      modifyDb ({ · with bitTiming := some ⟨toUInt32 baudrate, 0, 0⟩ })
  else pure ()

/-- A round of `parse_nodes`. -/
def parseNodesRound (_ : Unit) : ParserM R (Unit × Bool) := do
  let t ← current
  if t.kind ≠ .identifier ∨ t.firstOnLine then return ((), false)
  else
    let token ← advance
    let db ← database
    if token.text ≠ kNoNode ∧ (findNode db token.text).isNone then
      modifyDb fun db => { db with nodes := db.nodes ++ [{ name := token.text }] }
    else pure ()
    let _ ← matchKind .comma
    return ((), true)

/-- `parse_nodes`. -/
def parseNodes : ParserM R Unit := do
  let _ ← advance
  let _ ← expect .colon "after BU_"
  while_ parseNodesRound ()

/-- A round of the loops over `value "text"`; the keys are a ghost. -/
def parseDescriptionsRound (read : List ValueDescription × List (Number R)) :
    ParserM R ((List ValueDescription × List (Number R)) × Bool) := do
  let t ← current
  if t.kind ≠ .integer ∧ t.kind ≠ .minus then return (read, false)
  else
    match ← parseNumber with
    | none => return (read, false)
    | some number =>
      let value ← Reporting.orStop .undefinedCast (toInt64 number.value)
      match ← parseString with
      | none => return (read, false)
      | some text => return ((read.1 ++ [⟨value, text⟩], read.2 ++ [number]), true)

/-- The loop over `value "text"` in `parse_value_table` and `parse_value_descriptions`. -/
def parseDescriptions : ParserM R (List ValueDescription × List (Number R)) :=
  while_ parseDescriptionsRound ([], [])

/-- `parse_value_table`. -/
def parseValueTable : ParserM R Unit := do
  let _ ← advance
  match ← parseName with
  | none => resynchronise
  | some name =>
    let (values, keys) ← parseDescriptions
    let _ ← matchKind .semicolon
    record (.valueTable keys)
    modifyDb fun db => { db with valueTables := db.valueTables ++ [{ name, values }] }

/-- What an identifier behind the name of a signal says: the role, and the digits of `m<n>`. -/
def multiplexIndicator (ind : Text) : Option (MultiplexRole × Option Text) :=
  if ind = ascii "M" then some (.multiplexor, none)
  else
    match ind with
    | [] => none
    | m :: rest =>
      let digits := rest.takeWhile isDigit
      let alsoMultiplexor := decide ((rest.drop digits.length).head? = some (ch 'M'))
      if m = ch 'm' ∧ digits ≠ [] ∧ (digits.length = rest.length ∨ alsoMultiplexor) then
        some (if alsoMultiplexor then .both else .multiplexed, some digits)
      else none

/-- The multiplexer indicator of `parse_signal`. -/
def parseIndicator : ParserM R (MultiplexRole × Option Text) := do
  let t ← current
  if t.kind = .identifier ∧ t.isWord (ascii "SG_") = false then
    match multiplexIndicator t.text with
    | some read =>
      let _ ← advance
      return read
    | none => return (.none, none)
  else return (.none, none)

/-- A number of `parse_signal` that has to be in a range: its value, after the error. -/
def inRange (t : Token R) (ok : ℕ → Bool) (clamped : ℕ → ℕ) (code : ErrorCode) (message : String) :
    ParserM R ℕ :=
  if ok t.integer.toNat then return t.integer.toNat
  else do
    error code t (ascii message)
    return clamped t.integer.toNat

/-- The signedness of `parse_signal`. -/
def parseSignedness : ParserM R Signedness := do
  if ← matchKind .plus then return .unsigned
  else if ← matchKind .minus then return .signed
  else
    let t ← current
    error .parseUnexpectedToken t (ascii "expected '+' or '-' for the signal's signedness")
    return .unsigned

/-- The factor of `parse_signal`, which is not zero. -/
def checkFactor (start : Token R) (name : Text) (layout : ScaledLayout R) :
    ParserM R (ScaledLayout R) := do
  if Scalar.eq layout.factor (Scalar.lit 0) then
    warn .codecBadFactor start
      (ascii "signal '" ++ name ++
        ascii "' has a scale factor of zero, which makes it impossible to encode; substituting 1")
      (ascii "occasionally emitted by converters for constant signals")
    return { layout with factor := Scalar.lit 1 }
  else return layout

/-- The place of `parse_signal`, which is inside the message. -/
def checkFits (start : Token R) (name : Text) (layout : ScaledLayout R) (message : Message R) :
    ParserM R Unit := do
  if layout.fits message.dlc then pure ()
  else
    error .codecSignalOutOfBounds start
      (ascii "signal '" ++ name ++ ascii "' extends past the end of message '" ++ message.name ++
        ascii "', which holds " ++ toDecimal message.dlc ++ ascii " bytes")

/-- `parse_signal`; the lines are a ghost. -/
def parseSignal (open_ : Message R × List (SignalLine R)) :
    ParserM R (Message R × List (SignalLine R)) := do
  let _ ← advance
  let some name ← parseName | do
    resynchronise
    return open_
  let (multiplexRole, multiplexed) ← parseIndicator
  let _ ← expect .colon "after the signal name"
  let some start ← parseUnsigned | do
    resynchronise
    return open_
  let startBit ← inRange start (fun n => n ≤ 511) (fun _ => 0) .codecSignalOutOfBounds
    "start bit is beyond the largest possible payload"
  let _ ← expect .pipe "between the start bit and the bit length"
  let some length ← parseUnsigned | do
    resynchronise
    return open_
  let bitLength ← inRange length (fun n => 1 ≤ n && n ≤ 64) (fun n => max 1 (min n 64))
    .codecBadBitLength "signal length must be between 1 and 64 bits"
  let _ ← expect .at "before the byte order"
  let some order ← parseUnsigned | do
    resynchronise
    return open_
  let order ← inRange order (fun n => n ≤ 1) (fun _ => 1) .parseSemantic
    "byte order must be 0 (Motorola) or 1 (Intel)"
  let signedness ← parseSignedness
  let _ ← expect .lParen "before the factor and offset"
  let some factor ← parseNumber | do
    resynchronise
    return open_
  let _ ← expect .comma "between the factor and the offset"
  let some offset ← parseNumber | do
    resynchronise
    return open_
  let _ ← expect .rParen "after the factor and offset"
  let _ ← expect .lBracket "before the minimum and maximum"
  let some minimum ← parseNumber | do
    resynchronise
    return open_
  let _ ← expect .pipe "between the minimum and the maximum"
  let some maximum ← parseNumber | do
    resynchronise
    return open_
  let _ ← expect .rBracket "after the minimum and maximum"
  let some unit ← parseString | do
    resynchronise
    return open_
  let receivers ← parseNameList
  let layout ← checkFactor start name
    { startBit, bitLength, byteOrder := if order = 1 then .intel else .motorola, signedness,
      factor := factor.value, offset := offset.value, minimum := minimum.value,
      maximum := maximum.value }
  checkFits start name layout open_.1
  let signal : Signal R :=
    { name, layout, multiplexRole, multiplexValue := multiplexed.elim 0 fun digits =>
        (strtoull digits).setWidth 32, unit, receivers }
  return ({ open_.1 with signals := open_.1.signals ++ [signal] },
    open_.2 ++ [{ name, multiplexed, start, length }])

/-- A round of the loop over the signals of a message. -/
def parseSignalsRound (open_ : Message R × List (SignalLine R)) :
    ParserM R ((Message R × List (SignalLine R)) × Bool) := do
  let t ← current
  if t.isWord (ascii "SG_") then
    let open_ ← parseSignal open_
    return (open_, true)
  else return (open_, false)

/-- The transmitter of `parse_message`. -/
def parseTransmitter : ParserM R Text := do
  let t ← current
  if t.kind = .identifier then
    let token ← advance
    return if token.text = kNoNode then [] else token.text
  else
    warn .parseSemantic t (ascii "message has no transmitting node")
      (ascii "the grammar requires one; Vector writes Vector__XXX when there is none")
    return []

/-- `parse_message`. -/
def parseMessage : ParserM R Unit := do
  let _ ← advance
  let some rawId ← parseUnsigned | resynchronise
  let id ← parseMessageId rawId
  let some name ← parseName | resynchronise
  let _ ← expect .colon "after the message name"
  let some length ← parseUnsigned | resynchronise
  let dlc ← inRange length (fun n => n ≤ 64) (fun _ => 64) .frameBadDlc
    "message length exceeds the 64 bytes a CAN FD frame can carry"
  let transmitter ← parseTransmitter
  let message : Message R := { name, id, dlc, transmitter, isFd := decide (8 < dlc) }
  let (message, lines) ← while_ parseSignalsRound (message, [])
  record (.message rawId length lines)
  modifyDb fun db => { db with messages := db.messages ++ [message] }

/-- `parse_message_transmitters`. -/
def parseMessageTransmitters : ParserM R Unit := do
  let _ ← advance
  let some rawId ← parseUnsigned | resynchronise
  let _ ← expect .colon "after the message identifier"
  let id ← parseMessageId rawId
  let additionalTransmitters ← parseNameList
  let _ ← matchKind .semicolon
  match ← findMessage id with
  | some _ => modifyMessage id ({ · with additionalTransmitters })
  | none =>
    warn .parseUndefinedReference rawId
      (ascii "BO_TX_BU_ refers to a message that is not defined")

/-- `finish` of `parse_comment`: the text, if there is one. -/
def finishComment : ParserM R (Option Text) := do
  let text ← parseString
  let _ ← matchKind .semicolon
  return text

/-- The comment of a node. -/
def parseNodeComment (kind : Token R) : ParserM R Unit := do
  let _ ← advance
  let some node ← parseName | resynchronise
  let db ← database
  match findNode db node with
  | some _ =>
    let text ← finishComment
    modifyNode node fun n => { n with comment := text.getD n.comment }
  | none =>
    warn .parseUndefinedReference kind
      (ascii "comment refers to node '" ++ node ++ ascii "', which is not declared in BU_")
    let _ ← finishComment

/-- The comment of a message. -/
def parseMessageComment : ParserM R Unit := do
  let _ ← advance
  let some rawId ← parseUnsigned | resynchronise
  let id ← parseMessageId rawId
  match ← findMessage id with
  | some _ =>
    let text ← finishComment
    modifyMessage id fun m => { m with comment := text.getD m.comment }
  | none =>
    warn .parseUndefinedReference rawId (ascii "comment refers to a message that is not defined")
    let _ ← finishComment

/-- The comment of a signal. -/
def parseSignalComment : ParserM R Unit := do
  let _ ← advance
  let some rawId ← parseUnsigned | resynchronise
  let some name ← parseName | resynchronise
  let id ← parseMessageId rawId
  let m ← findMessage id
  match findSignal m name with
  | some _ =>
    let text ← finishComment
    modifySignal id name fun s => { s with comment := text.getD s.comment }
  | none =>
    warn .parseUndefinedReference rawId
      (ascii "comment refers to signal '" ++ name ++ ascii "', which is not defined")
    let _ ← finishComment

/-- `parse_comment`. -/
def parseComment : ParserM R Unit := do
  let _ ← advance
  let kind ← current
  if kind.isWord (ascii "BU_") then parseNodeComment kind
  else if kind.isWord (ascii "BO_") then parseMessageComment
  else if kind.isWord (ascii "SG_") then parseSignalComment
  else if kind.isWord (ascii "EV_") then
    let _ ← advance
    let _ ← parseName
    let _ ← finishComment
  else
    let text ← finishComment
    modifyDb fun db => { db with comment := text.getD db.comment }

/-- `skip_unsupported_section`. -/
def skipUnsupportedSection (keyword why : Text) : ParserM R Unit := do
  let t ← current
  warn .unsupported t (ascii "skipping unsupported section " ++ keyword)
    (why ++ ascii "; the statement is discarded, so it will not survive a rewrite")
  let _ ← advance
  resynchronise

/-! ### Attributes -/

/-- The object keyword of `parse_attribute_definition`. -/
def parseObjectKeyword (relation : Bool) : ParserM R AttributeObject := do
  let t ← current
  if t.kind ≠ .identifier then return .database
  else if t.text = ascii "BU_" then
    let _ ← advance
    return .node
  else if t.text = ascii "BO_" then
    let _ ← advance
    return .message
  else if t.text = ascii "SG_" then
    let _ ← advance
    return .signal
  else if t.text = ascii "EV_" then
    let _ ← advance
    return .envVar
  else if relation then
    let _ ← advance
    return .node
  else return .database

/-- A round of the loop over the values of an `ENUM`. -/
def parseEnumRound (values : List Text) : ParserM R (List Text × Bool) := do
  let t ← current
  if t.kind ≠ .string then return (values, false)
  else
    let token ← advance
    return (values ++ [token.value], ← matchKind .comma)

/-- The two bounds of an attribute of numbers. -/
def parseBounds (definition : AttributeDefinition R) :
    ParserM R (Option (AttributeDefinition R)) := do
  let some minimum ← parseNumber | return none
  let some maximum ← parseNumber | return none
  return some { definition with minimum := minimum.value, maximum := maximum.value }

/-- The type of `parse_attribute_definition` and what follows it. -/
def parseAttributeType (keyword : Token R) (definition : AttributeDefinition R) :
    ParserM R (Option (AttributeDefinition R)) := do
  let token ← advance
  let typeName := token.text
  if typeName = ascii "INT" then parseBounds { definition with type := .int }
  else if typeName = ascii "HEX" then parseBounds { definition with type := .hex }
  else if typeName = ascii "FLOAT" then parseBounds { definition with type := .float }
  else if typeName = ascii "STRING" then return some { definition with type := .string }
  else if typeName = ascii "ENUM" then
    let enumValues ← while_ parseEnumRound []
    return some { definition with type := .enum, enumValues }
  else
    error .parseSemantic keyword (ascii "unknown attribute type '" ++ typeName ++ ascii "'")
    return none

/-- `parse_attribute_definition`. -/
def parseAttributeDefinition (relation : Bool) : ParserM R Unit := do
  let keyword ← advance
  let object ← parseObjectKeyword relation
  let some name ← parseString | resynchronise
  let t ← current
  if t.kind ≠ .identifier then
    error .parseUnexpectedToken t
      (ascii "expected an attribute type: INT, HEX, FLOAT, STRING or ENUM")
    resynchronise
  else
    let some definition ← parseAttributeType keyword
      { name, object, minimum := Scalar.lit 0, maximum := Scalar.lit 0,
        defaultValue := AttributeValue.empty } | resynchronise
    let _ ← matchKind .semicolon
    match ← findAttributeDefinition name with
    | some _ =>
      warn .parseDuplicateDefinition keyword
        (ascii "attribute '" ++ name ++
          ascii "' is defined more than once; the first definition is kept")
    | none =>
      modifyDb fun db =>
        { db with attributeDefinitions := db.attributeDefinitions ++ [definition] }

/-- The position of an enumeration's value. -/
def enumIndex (values : List Text) (text : Text) : ℤ :=
  (values.findIdx? (· = text)).elim (-1) fun i => i

/-- The name at a position of an enumeration. -/
def enumName (values : List Text) (index : ℤ) : Text :=
  if 0 ≤ index then values.getD index.toNat [] else []

/-- A number of `parse_attribute_literal` as its definition has it. -/
def attributeNumber (definition : Option (AttributeDefinition R)) (v : R) :
    ParserM R (AttributeValue R) :=
  match definition with
  | none => return { type := .float, number := v }
  | some d =>
    match d.type with
    | .int => do
      let i ← Reporting.orStop .undefinedCast (toInt64 v)
      return { type := .int, number := Scalar.ofInt i }
    | .hex => do
      let i ← Reporting.orStop .undefinedCast (toInt64 v)
      return { type := .hex, number := Scalar.ofInt i }
    | .float => return { type := .float, number := v }
    | .enum => do
      let i ← Reporting.orStop .undefinedCast (toInt64 v)
      return { type := .enum, number := Scalar.ofInt i, text := enumName d.enumValues i }
    | .string => return { type := .string, number := Scalar.lit 0, text := Scalar.toText v }

/-- `parse_attribute_literal`. -/
def parseAttributeLiteral (definition : Option (AttributeDefinition R)) :
    ParserM R (AttributeValue R) := do
  let t ← current
  if t.kind = .string then
    let token ← advance
    match definition with
    | some d =>
      if d.type = .enum then
        return { type := .enum, number := Scalar.ofInt (enumIndex d.enumValues token.value),
                 text := token.value }
      else return { type := .string, number := Scalar.lit 0, text := token.value }
    | none => return { type := .string, number := Scalar.lit 0, text := token.value }
  else
    let some number ← parseNumber | return AttributeValue.empty
    attributeNumber definition number.value

/-- `parse_attribute_default`. -/
def parseAttributeDefault : ParserM R Unit := do
  let _ ← advance
  let some name ← parseString | resynchronise
  let definition ← findAttributeDefinition name
  match definition with
  | some _ => pure ()
  | none =>
    let t ← current
    warn .parseUndefinedReference t
      (ascii "default given for attribute '" ++ name ++ ascii "', which has no BA_DEF_")
  let defaultValue ← parseAttributeLiteral definition
  let _ ← matchKind .semicolon
  modifyDb fun db =>
    { db with attributeDefinitions := db.attributeDefinitions.replaceF fun d =>
        if d.name = name then some { d with defaultValue, hasDefault := true } else none }

/-- What `attr_node_`, `attr_message_` and `attr_signal_` point to for an object. -/
inductive Target
  | database
  | node (name : Option Text)
  | message (id : Option CanId)
  | signal (place : Option (CanId × Text))
  | envVar

/-- The object of a target. -/
def Target.object : Target → AttributeObject
  | .database => .database
  | .node _ => .node
  | .message _ => .message
  | .signal _ => .signal
  | .envVar => .envVar

/-- `assign_attribute`. -/
def assignAttribute (name : Text) (value : AttributeValue R) (target : Target)
    (t : Token R) : ParserM R Unit :=
  let undefined : ParserM R Unit :=
    warn .parseUndefinedReference t
      (ascii "attribute '" ++ name ++ ascii "' is assigned to a " ++ objectText target.object ++
        ascii " that is not defined")
  match target with
  | .database =>
    modifyDb fun db => { db with attributes := AttributeMap.set name value db.attributes }
  | .node (some node) =>
    modifyNode node fun n => { n with attributes := AttributeMap.set name value n.attributes }
  | .message (some id) =>
    modifyMessage id fun m => { m with attributes := AttributeMap.set name value m.attributes }
  | .signal (some (id, signal)) =>
    modifySignal id signal fun s =>
      { s with attributes := AttributeMap.set name value s.attributes }
  | .envVar => pure ()
  | .node none => undefined
  | .message none => undefined
  | .signal none => undefined

/-- The object of `parse_attribute_value`, or nothing after a failure. -/
def parseTarget : ParserM R (Option Target) := do
  let t ← current
  if t.kind ≠ .identifier then return some .database
  else if t.text = ascii "BU_" then
    let _ ← advance
    let some node ← parseName | return none
    let db ← database
    return some (.node ((findNode db node).map fun _ => node))
  else if t.text = ascii "BO_" then
    let _ ← advance
    let some rawId ← parseUnsigned | return none
    let id ← parseMessageId rawId
    let m ← findMessage id
    return some (.message (m.map fun _ => id))
  else if t.text = ascii "SG_" then
    let _ ← advance
    let some rawId ← parseUnsigned | return none
    let some signal ← parseName | return none
    let id ← parseMessageId rawId
    let m ← findMessage id
    return some (.signal ((findSignal m signal).map fun _ => (id, signal)))
  else if t.text = ascii "EV_" then
    let _ ← advance
    let _ ← parseName
    return some .envVar
  else return some .database

/-- `parse_attribute_value`. -/
def parseAttributeValue : ParserM R Unit := do
  let keyword ← advance
  let some name ← parseString | resynchronise
  let definition ← findAttributeDefinition name
  let some target ← parseTarget | resynchronise
  let value ← parseAttributeLiteral definition
  let _ ← matchKind .semicolon
  assignAttribute name value target keyword

/-! ### Signals once more -/

/-- `parse_value_descriptions`. -/
def parseValueDescriptions : ParserM R Unit := do
  let _ ← advance
  let some rawId ← parseUnsigned | resynchronise
  let some name ← parseName | resynchronise
  let (valueDescriptions, keys) ← parseDescriptions
  let _ ← matchKind .semicolon
  let id ← parseMessageId rawId
  let m ← findMessage id
  match findSignal m name with
  | none =>
    warn .parseUndefinedReference rawId
      (ascii "VAL_ refers to signal '" ++ name ++ ascii "', which is not defined")
  | some _ =>
    record (.valueDescriptions rawId name keys)
    modifySignal id name ({ · with valueDescriptions })

/-- What `SIG_VALTYPE_` makes of a signal with this layout, or nothing after an error. -/
def parseValueType (kind : Token R) (layout : ScaledLayout R) : ParserM R (Option ValueType) :=
  match kind.integer.toNat with
  | 0 => return some .integer
  | 1 =>
    if layout.bitLength ≠ 32 then do
      error .codecBadBitLength kind
        (ascii "a signal declared as IEEE float must be 32 bits wide")
      return none
    else return some .float32
  | 2 =>
    if layout.bitLength ≠ 64 then do
      error .codecBadBitLength kind
        (ascii "a signal declared as IEEE double must be 64 bits wide")
      return none
    else return some .float64
  | _ => do
    error .parseSemantic kind
      (ascii "signal value type must be 0 (integer), 1 (float) or 2 (double)")
    return none

/-- `parse_signal_value_type`. -/
def parseSignalValueType : ParserM R Unit := do
  let _ ← advance
  let some rawId ← parseUnsigned | resynchronise
  let some name ← parseName | resynchronise
  let _ ← matchKind .colon
  let some kind ← parseUnsigned | resynchronise
  let _ ← matchKind .semicolon
  let id ← parseMessageId rawId
  let m ← findMessage id
  match findSignal m name with
  | none =>
    warn .parseUndefinedReference rawId
      (ascii "SIG_VALTYPE_ refers to signal '" ++ name ++ ascii "', which is not defined")
  | some s =>
    let some valueType ← parseValueType kind s.layout | pure ()
    modifySignal id name fun s => { s with layout := { s.layout with valueType } }

/-- The upper bound of a range of `SG_MUL_VAL_`, the lower one where there is no other. -/
def parseUpperBound (low : Token R) : ParserM R (Option (Token R)) := do
  if ← matchKind .minus then
    let t ← current
    if t.kind ≠ .integer then
      error .parseBadNumber t (ascii "expected the upper bound of a multiplex range")
      return none
    else
      let token ← advance
      return some token
  else return some low

/-- A round of the loop over the ranges of `SG_MUL_VAL_`; the literals are a ghost. -/
def parseRangesRound (rawId : Token R) (read : List MuxRange × List (Token R × Token R)) :
    ParserM R ((List MuxRange × List (Token R × Token R)) × Bool) := do
  let t ← current
  if t.kind ≠ .integer then return (read, false)
  else
    let lowToken ← advance
    match ← parseUpperBound lowToken with
    | none => return (read, false)
    | some highToken =>
      let low : BitVec 32 := lowToken.integer.setWidth 32
      let high : BitVec 32 := highToken.integer.setWidth 32
      if high < low then
        warn .parseSemantic rawId
          (ascii "multiplex range is written high to low; swapping the bounds")
      else pure ()
      let range : MuxRange := if high < low then ⟨high, low⟩ else ⟨low, high⟩
      let again ← matchKind .comma
      return ((read.1 ++ [range], read.2 ++ [(lowToken, highToken)]), again)

/-- `parse_extended_multiplexing`. -/
def parseExtendedMultiplexing : ParserM R Unit := do
  let _ ← advance
  let some rawId ← parseUnsigned | resynchronise
  let some multiplexed ← parseName | resynchronise
  let some multiplexorName ← parseName | resynchronise
  let (multiplexRanges, literals) ← while_ (parseRangesRound rawId) ([], [])
  let _ ← matchKind .semicolon
  let id ← parseMessageId rawId
  let m ← findMessage id
  match findSignal m multiplexed with
  | none =>
    warn .parseUndefinedReference rawId
      (ascii "SG_MUL_VAL_ refers to signal '" ++ multiplexed ++ ascii "', which is not defined")
  | some s =>
    if (findSignal m multiplexorName).isNone then
      warn .parseUndefinedReference rawId
        (ascii "SG_MUL_VAL_ names multiplexor '" ++ multiplexorName ++
          ascii "', which is not a signal of this message")
    else pure ()
    let multiplexRole : MultiplexRole :=
      if s.multiplexRole = .multiplexor ∨ s.multiplexRole = .both then .both else .multiplexed
    record (.multiplexing rawId multiplexed literals)
    modifySignal id multiplexed
      ({ · with multiplexRole, multiplexorName, multiplexRanges })

/-! ### A file -/

/-- The statement at a token of `run`. -/
def parseStatement (t : Token R) : ParserM R Unit :=
  if t.kind ≠ .identifier then do
    error .parseUnexpectedToken t
      (ascii "expected a section keyword at the start of a statement")
    resynchronise
  else if t.isWord (ascii "VERSION") then parseVersion
  else if t.isWord (ascii "NS_") then parseNewSymbols
  else if t.isWord (ascii "BS_") then parseBitTiming
  else if t.isWord (ascii "BU_") then parseNodes
  else if t.isWord (ascii "VAL_TABLE_") then parseValueTable
  else if t.isWord (ascii "BO_") then parseMessage
  else if t.isWord (ascii "BO_TX_BU_") then parseMessageTransmitters
  else if t.isWord (ascii "CM_") then parseComment
  else if t.isWord (ascii "BA_DEF_") then parseAttributeDefinition false
  else if t.isWord (ascii "BA_DEF_REL_") then parseAttributeDefinition true
  else if t.isWord (ascii "BA_DEF_DEF_") then parseAttributeDefault
  else if t.isWord (ascii "BA_DEF_DEF_REL_") then parseAttributeDefault
  else if t.isWord (ascii "BA_") then parseAttributeValue
  else if t.isWord (ascii "BA_REL_") then parseAttributeValue
  else if t.isWord (ascii "VAL_") then parseValueDescriptions
  else if t.isWord (ascii "SIG_VALTYPE_") then parseSignalValueType
  else if t.isWord (ascii "SG_MUL_VAL_") then parseExtendedMultiplexing
  else if t.isWord (ascii "EV_") then
    skipUnsupportedSection (ascii "EV_")
      (ascii "environment variables are preserved by neither canforge nor most CAN stacks")
  else if kSkipped.contains t.text then
    skipUnsupportedSection t.text (ascii "not required for encoding or decoding")
  else if t.isWord (ascii "SG_") then do
    error .parseSemantic t (ascii "a signal definition must follow a BO_ message definition")
    resynchronise
  else do
    error .parseUnknownKeyword t (ascii "unknown section keyword")
    resynchronise

/-- A round of `run`. -/
def runRound (_ : Unit) : ParserM R (Unit × Bool) := do
  if ← atEnd then return ((), false)
  else
    let t ← current
    parseStatement t
    return ((), true)

/-- `run`. -/
def run : ParserM R Unit := while_ runRound ()

end Parser

/-- `ParseResult`, and the ghost variable. -/
structure ParseResult (R : Type) where
  database : Database R
  diagnostics : List Diagnostic
  hadBom : Bool := false
  hadCrlf : Bool := false
  hadLatin1 : Bool := false
  hadNoFinalNewline : Bool := false
  statements : List (Statement R) := []

/-- `parse_string`. -/
def parseString (text filename : Text) : Except Stop (ParseResult R) :=
  let source := Source.normalise text filename
  let (tokens, lexed) := tokenise source
  match Parser.run { source, tokens } with
  | .error stop => .error stop
  | .ok ((), parser, parsed) =>
    .ok { database := parser.db, diagnostics := lexed ++ parsed, hadBom := source.hadBom,
          hadCrlf := source.hadCrlf, hadLatin1 := source.hadLatin1,
          hadNoFinalNewline := source.hadNoFinalNewline, statements := parser.statements }

end Dbc
end Canforge
