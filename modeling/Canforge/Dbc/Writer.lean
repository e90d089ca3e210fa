/-
# The DBC writer

`dbc/src/Writer.cpp`: `format_number`, `attribute_literal` and `write_string`.  What is written
to the stream is the text a function gives.  `Printed` has the two operations on `double` that
only the writer uses.
-/

import Canforge.Dbc.Parser

namespace Canforge
namespace Dbc

open Canforge.Core Text

/-- What the writer asks of `double`. -/
class Printed (R : Type) [Scalar R] where
  /-- `std::floor`. -/
  floor : R → R
  /-- `<<` at a precision. -/
  general : ℕ → R → Text

/-- `WriteOptions`. -/
structure WriteOptions where
  synthesiseNewSymbols : Bool := true
  crlf : Bool := false

/-- `wire_id`. -/
def wireId (id : CanId) : BitVec 32 :=
  if id.isExtended then id.value ||| kDbcExtendedFlag else id.value

/-- `quoted`. -/
def quoted (s : Text) : Text :=
  ch '"' :: s.flatMap (fun c => if c = ch '"' ∨ c = ch '\\' then [ch '\\', c] else [c]) ++ [ch '"']

/-- `kDefaultNewSymbols`. -/
def kDefaultNewSymbols : List Text :=
  ["NS_DESC_", "CM_", "BA_DEF_", "BA_", "VAL_", "CAT_DEF_", "CAT_", "FILTER", "BA_DEF_DEF_",
    "EV_DATA_", "ENVVAR_DATA_", "SGTYPE_", "SGTYPE_VAL_", "BA_DEF_SGTYPE_", "BA_SGTYPE_",
    "SIG_TYPE_REF_", "VAL_TABLE_", "SIG_GROUP_", "SIG_VALTYPE_", "SIGTYPE_VALTYPE_", "BO_TX_BU_",
    "BA_DEF_REL_", "BA_REL_", "BA_DEF_DEF_REL_", "BU_SG_REL_", "BU_EV_REL_", "BU_BO_REL_",
    "SG_MUL_VAL_"].map ascii

/-- `<<` of a signed number. -/
def toSigned (z : ℤ) : Text :=
  if z < 0 then ch '-' :: toDecimal z.natAbs else toDecimal z.natAbs

/-- `to_string` of an attribute's type. -/
def typeText : AttributeType → Text
  | .int => ascii "INT"
  | .hex => ascii "HEX"
  | .float => ascii "FLOAT"
  | .string => ascii "STRING"
  | .enum => ascii "ENUM"

/-- The pieces of a list, `first` in front of the first one and `sep` in front of the others. -/
def separated (first sep : Text) : List Text → Text
  | [] => []
  | a :: rest => first ++ a ++ rest.flatMap (sep ++ ·)

variable {R : Type} [Scalar R] [Printed R]

/-- The loop of `format_number`: the first precision whose text reads back as the number. -/
def shortestText (v : R) : Option Text :=
  ((List.range 12).map fun i => Printed.general (6 + i) v).find? fun t =>
    Scalar.eq (Scalar.strtod t) v

/-- `format_number`. -/
def formatNumber (v : R) : Text :=
  if Scalar.isNan v then ascii "0"
  else if !Scalar.isFinite v then
    if Scalar.lt (Scalar.lit 0) v then ascii "1e308" else ascii "-1e308"
  else if Scalar.eq v (Printed.floor v) && Scalar.lt (Scalar.fabs v) (Scalar.lit (10 ^ 15)) then
    toSigned (Scalar.toInt v)
  else (shortestText v).getD (Printed.general 17 v)

/-- `attribute_literal`. -/
def attributeLiteral (value : AttributeValue R) (asDefault : Bool) : Text :=
  match value.type with
  | .string => quoted value.text
  | .enum => if asDefault then quoted value.text else formatNumber value.number
  | .hex => formatNumber (Printed.floor value.number)
  | .int => formatNumber (Printed.floor value.number)
  | .float => formatNumber value.number

/-- The multiplexer indicator of `write_signal`. -/
def writeIndicator (s : Signal R) : Text :=
  match s.multiplexRole with
  | .multiplexor => ascii " M"
  | .multiplexed => ascii " m" ++ toDecimal s.multiplexValue.toNat
  | .both => ascii " m" ++ toDecimal s.multiplexValue.toNat ++ ascii "M"
  | .none => []

/-- The receivers of `write_signal`. -/
def writeReceivers (receivers : List Text) : Text :=
  if receivers.isEmpty then kNoNode else separated [] (ascii ",") receivers

/-- `write_signal`. -/
def writeSignal (s : Signal R) : Text :=
  ascii " SG_ " ++ s.name ++ writeIndicator s ++ ascii " : " ++ toDecimal s.layout.startBit ++
    ascii "|" ++ toDecimal s.layout.bitLength ++ ascii "@" ++
    (if s.layout.byteOrder = .intel then ascii "1" else ascii "0") ++
    (if s.layout.signedness = .signed then ascii "-" else ascii "+") ++ ascii " (" ++
    formatNumber s.layout.factor ++ ascii "," ++ formatNumber s.layout.offset ++ ascii ") [" ++
    formatNumber s.layout.minimum ++ ascii "|" ++ formatNumber s.layout.maximum ++ ascii "] " ++
    quoted s.unit ++ ascii " " ++ writeReceivers s.receivers ++ ascii "\n"

/-- The `NS_` section. -/
def writeNewSymbols (symbols : List Text) (opt : WriteOptions) : Text :=
  ascii "NS_ : \n" ++
    (if symbols.isEmpty then if opt.synthesiseNewSymbols then kDefaultNewSymbols else []
      else symbols).flatMap (fun s => ascii "\t" ++ s ++ ascii "\n") ++ ascii "\n"

/-- The `BS_` section. -/
def writeBitTiming (timing : Option BitTiming) : Text :=
  ascii "BS_:" ++
    (match timing with
    | some bt => ascii " " ++ toDecimal bt.baudrate.toNat ++ ascii " : " ++
        toDecimal bt.btr1.toNat ++ ascii "," ++ toDecimal bt.btr2.toNat
    | none => []) ++ ascii "\n\n"

/-- The loop over values and their texts. -/
def writeDescriptions (values : List ValueDescription) : Text :=
  values.flatMap fun v => ascii " " ++ toSigned v.value ++ ascii " " ++ quoted v.text

/-- A `VAL_TABLE_` statement. -/
def writeValueTable (t : ValueTable) : Text :=
  ascii "VAL_TABLE_ " ++ t.name ++ writeDescriptions t.values ++ ascii " ;\n"

/-- A `BO_` statement. -/
def writeMessage (m : Message R) : Text :=
  ascii "BO_ " ++ toDecimal (wireId m.id).toNat ++ ascii " " ++ m.name ++ ascii ": " ++
    toDecimal m.dlc ++ ascii " " ++ (if m.transmitter.isEmpty then kNoNode else m.transmitter) ++
    ascii "\n" ++ m.signals.flatMap writeSignal ++ ascii "\n"

/-- A `BO_TX_BU_` statement. -/
def writeTransmitters (m : Message R) : Text :=
  if m.additionalTransmitters.isEmpty then []
  else ascii "BO_TX_BU_ " ++ toDecimal (wireId m.id).toNat ++ ascii " :" ++
    separated (ascii " ") (ascii ",") m.additionalTransmitters ++ ascii ";\n"

/-- A `CM_` statement about an object, if there is a comment. -/
def writeComment (object comment : Text) : Text :=
  if comment.isEmpty then []
  else ascii "CM_ " ++ object ++ quoted comment ++ ascii ";\n"

/-- `BO_` and the identifier of a message. -/
def messageObject (m : Message R) : Text := ascii "BO_ " ++ toDecimal (wireId m.id).toNat

/-- `SG_`, the identifier of a message and the name of a signal. -/
def signalObject (m : Message R) (s : Signal R) : Text :=
  ascii "SG_ " ++ toDecimal (wireId m.id).toNat ++ ascii " " ++ s.name

/-- The comments of a message and of its signals. -/
def writeMessageComments (m : Message R) : Text :=
  writeComment (messageObject m ++ ascii " ") m.comment ++
    m.signals.flatMap fun s => writeComment (signalObject m s ++ ascii " ") s.comment

/-- The object of a `BA_DEF_` statement. -/
def writeObject : AttributeObject → Text
  | .node => ascii "BU_ "
  | .message => ascii "BO_ "
  | .signal => ascii "SG_ "
  | .envVar => ascii "EV_ "
  | .database => []

/-- What follows the type of a `BA_DEF_` statement. -/
def writeBounds (d : AttributeDefinition R) : Text :=
  match d.type with
  | .int => ascii " " ++ formatNumber (Printed.floor d.minimum) ++ ascii " " ++
      formatNumber (Printed.floor d.maximum)
  | .hex => ascii " " ++ formatNumber (Printed.floor d.minimum) ++ ascii " " ++
      formatNumber (Printed.floor d.maximum)
  | .float => ascii " " ++ formatNumber d.minimum ++ ascii " " ++ formatNumber d.maximum
  | .enum => separated (ascii " ") (ascii ",") (d.enumValues.map quoted)
  | .string => ascii " "

/-- A `BA_DEF_` statement. -/
def writeDefinition (d : AttributeDefinition R) : Text :=
  ascii "BA_DEF_ " ++ writeObject d.object ++ quoted d.name ++ ascii " " ++ typeText d.type ++
    writeBounds d ++ ascii ";\n"

/-- A `BA_DEF_DEF_` statement. -/
def writeDefault (d : AttributeDefinition R) : Text :=
  if d.hasDefault then
    ascii "BA_DEF_DEF_ " ++ quoted d.name ++ ascii " " ++ attributeLiteral d.defaultValue true ++
      ascii ";\n"
  else []

/-- `emit_values`. -/
def emitValues (map : AttributeMap R) (target : Text) : Text :=
  map.flatMap fun (name, value) =>
    ascii "BA_ " ++ quoted name ++ (if target.isEmpty then [] else ascii " " ++ target) ++
      ascii " " ++ attributeLiteral value false ++ ascii ";\n"

/-- The attributes of a message and of its signals. -/
def writeMessageValues (m : Message R) : Text :=
  emitValues m.attributes (messageObject m) ++
    m.signals.flatMap fun s => emitValues s.attributes (signalObject m s)

/-- A `VAL_` statement. -/
def writeValueDescriptions (m : Message R) (s : Signal R) : Text :=
  if s.valueDescriptions.isEmpty then []
  else ascii "VAL_ " ++ toDecimal (wireId m.id).toNat ++ ascii " " ++ s.name ++
    writeDescriptions s.valueDescriptions ++ ascii " ;\n"

/-- A `SIG_VALTYPE_` statement. -/
def writeValueType (m : Message R) (s : Signal R) : Text :=
  if s.layout.valueType = .integer then []
  else ascii "SIG_VALTYPE_ " ++ toDecimal (wireId m.id).toNat ++ ascii " " ++ s.name ++
    ascii " : " ++ (if s.layout.valueType = .float32 then ascii "1" else ascii "2") ++ ascii ";\n"

/-- A range of a `SG_MUL_VAL_` statement. -/
def writeRange (r : MuxRange) : Text :=
  toDecimal r.low.toNat ++ ascii "-" ++ toDecimal r.high.toNat

/-- A `SG_MUL_VAL_` statement. -/
def writeRanges (m : Message R) (s : Signal R) : Text :=
  if s.multiplexRanges.isEmpty then []
  else ascii "SG_MUL_VAL_ " ++ toDecimal (wireId m.id).toNat ++ ascii " " ++ s.name ++ ascii " " ++
    s.multiplexorName ++ separated (ascii " ") (ascii ", ") (s.multiplexRanges.map writeRange) ++
    ascii ";\n"

/-- The text of `write_string` before its lines are ended. -/
def writeText (db : Database R) (opt : WriteOptions) : Text :=
  ascii "VERSION " ++ quoted db.version ++ ascii "\n\n\n" ++
    writeNewSymbols db.newSymbols opt ++ writeBitTiming db.bitTiming ++
    ascii "BU_:" ++ db.nodes.flatMap (fun n => ascii " " ++ n.name) ++ ascii "\n\n" ++
    db.valueTables.flatMap writeValueTable ++
    (if db.valueTables.isEmpty then [] else ascii "\n") ++
    db.messages.flatMap writeMessage ++
    db.messages.flatMap writeTransmitters ++
    writeComment [] db.comment ++
    db.nodes.flatMap (fun n => writeComment (ascii "BU_ " ++ n.name ++ ascii " ") n.comment) ++
    db.messages.flatMap writeMessageComments ++
    db.attributeDefinitions.flatMap writeDefinition ++
    db.attributeDefinitions.flatMap writeDefault ++
    emitValues db.attributes [] ++
    db.nodes.flatMap (fun n => emitValues n.attributes (ascii "BU_ " ++ n.name)) ++
    db.messages.flatMap writeMessageValues ++
    db.messages.flatMap (fun m => m.signals.flatMap (writeValueDescriptions m)) ++
    db.messages.flatMap (fun m => m.signals.flatMap (writeValueType m)) ++
    db.messages.flatMap (fun m => m.signals.flatMap (writeRanges m))

/-- The line ends of `WriteOptions::crlf`. -/
def toCrlf (text : Text) : Text := text.flatMap fun c => if c = lf then [cr, c] else [c]

/-- `write_string`. -/
def writeString (db : Database R) (opt : WriteOptions := {}) : Text :=
  if opt.crlf then toCrlf (writeText db opt) else writeText db opt

end Dbc
end Canforge
