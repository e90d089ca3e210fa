/-
# The statements of a written database

`linesOf db` are the statements `write_string` writes of a database, in their order.  A `Line`
has items, which are its text (`writeText_eq`), and what the parser makes of the database with it
(`Line.apply`).

An `Edit` says what becomes of the elements that the parser treats as optional: which semicolons
and transmitters are deleted, and which lists of receivers are deleted or get a comma behind them.
-/

import Canforge.Dbc.Numerals
import Canforge.Lib.Keyed

namespace Canforge
namespace Dbc

open Canforge.Core Text Lib

section

variable {R : Type}

/-! ### Changes of a database -/

/-- The first message of an identifier after a change. -/
def changeMessage (id : CanId) (f : Message R → Message R) (db : Database R) : Database R :=
  { db with messages := changeFirst (·.id = id) f db.messages }

/-- The first signal of a name after a change. -/
def changeSignalOf (name : Text) (f : Signal R → Signal R) (m : Message R) : Message R :=
  { m with signals := changeFirst (·.name = name) f m.signals }

/-- The first signal of an identifier and a name after a change. -/
def changeSignal (id : CanId) (name : Text) (f : Signal R → Signal R) :
    Database R → Database R := changeMessage id (changeSignalOf name f)

/-- Only what becomes of the signal that is found counts. -/
theorem changeSignal_congr {id : CanId} {name : Text} {f g : Signal R → Signal R} {db : Database R}
    (h : ∀ s, Parser.findSignal (db.findMessage id) name = some s → f s = g s) :
    changeSignal id name f db = changeSignal id name g db := by
  have hmessages : changeFirst (·.id = id) (changeSignalOf name f) db.messages =
      changeFirst (·.id = id) (changeSignalOf name g) db.messages := by
    refine changeFirst_congr fun m hm => ?_
    have hsignals : changeFirst (·.name = name) f m.signals =
        changeFirst (·.name = name) g m.signals := by
      refine changeFirst_congr fun s hs => h s ?_
      have hfind : db.findMessage id = some m := hm
      rw [hfind]
      exact hs
    unfold changeSignalOf
    rw [hsignals]
  unfold changeSignal changeMessage
  rw [hmessages]

/-- The first node of a name after a change. -/
def changeNode (name : Text) (f : Node R → Node R) (db : Database R) : Database R :=
  { db with nodes := changeFirst (·.name = name) f db.nodes }

/-- The first attribute definition of a name after a change. -/
def changeDefinition (name : Text) (f : AttributeDefinition R → AttributeDefinition R)
    (db : Database R) : Database R :=
  { db with attributeDefinitions := changeFirst (·.name = name) f db.attributeDefinitions }

/-! ### Lines -/

/-- What a comment or an attribute belongs to. -/
inductive Owner
  | database
  | node (name : Text)
  | message (id : CanId)
  | signal (id : CanId) (name : Text)
  deriving DecidableEq

/-- A statement, or a line that is left empty. -/
inductive Line (R : Type)
  | version (text : Text)
  | newSymbols (symbols : List Text)
  | bitTiming (timing : Option BitTiming)
  | nodes (names : List Text)
  | valueTable (t : ValueTable)
  | blank
  | message (m : Message R)
  | transmitters (id : CanId) (names : List Text)
  | comment (owner : Owner) (text : Text)
  | definition (d : AttributeDefinition R)
  | default (d : AttributeDefinition R)
  | value (owner : Owner) (name : Text) (v : AttributeValue R)
  | valueDescriptions (id : CanId) (signal : Text) (values : List ValueDescription)
  | valueType (id : CanId) (signal : Text) (type : ValueType)
  | ranges (id : CanId) (signal multiplexor : Text) (rs : List MuxRange)

/-- A signal with an extended multiplexor. -/
def extendMultiplexing (multiplexorName : Text) (multiplexRanges : List MuxRange) (s : Signal R) :
    Signal R :=
  { s with
    multiplexRole := if s.multiplexRole = .multiplexor ∨ s.multiplexRole = .both then .both
      else .multiplexed
    multiplexorName, multiplexRanges }

/-- A comment on its owner. -/
def setComment (owner : Owner) (text : Text) (db : Database R) : Database R :=
  match owner with
  | .database => { db with comment := text }
  | .node name => changeNode name ({ · with comment := text }) db
  | .message id => changeMessage id ({ · with comment := text }) db
  | .signal id name => changeSignal id name ({ · with comment := text }) db

/-- A change of the attributes of an owner. -/
def changeAttributes (owner : Owner) (f : AttributeMap R → AttributeMap R) (db : Database R) :
    Database R :=
  match owner with
  | .database => { db with attributes := f db.attributes }
  | .node name => changeNode name (fun n => { n with attributes := f n.attributes }) db
  | .message id => changeMessage id (fun m => { m with attributes := f m.attributes }) db
  | .signal id name => changeSignal id name (fun s => { s with attributes := f s.attributes }) db

/-! ### The lines of a database -/

/-- The comments of a message and of its signals. -/
def commentLines (m : Message R) : List (Line R) :=
  (if m.comment.isEmpty then [] else [.comment (.message m.id) m.comment]) ++
    m.signals.flatMap fun s =>
      if s.comment.isEmpty then [] else [.comment (.signal m.id s.name) s.comment]

/-- The attributes of an object. -/
def valueLines (owner : Owner) (map : AttributeMap R) : List (Line R) :=
  map.map fun (name, value) => .value owner name value

/-- The attributes of a message and of its signals. -/
def messageValueLines (m : Message R) : List (Line R) :=
  valueLines (.message m.id) m.attributes ++
    m.signals.flatMap fun s => valueLines (.signal m.id s.name) s.attributes

/-- The lines that are written behind the messages. -/
def laterLines (db : Database R) : List (Line R) :=
  (db.messages.flatMap fun m => if m.additionalTransmitters.isEmpty then []
    else [.transmitters m.id m.additionalTransmitters]) ++
  (if db.comment.isEmpty then [] else [.comment .database db.comment]) ++
  (db.nodes.flatMap fun n => if n.comment.isEmpty then [] else [.comment (.node n.name) n.comment]) ++
  db.messages.flatMap commentLines ++
  db.attributeDefinitions.map .definition ++
  (db.attributeDefinitions.flatMap fun d => if d.hasDefault then [.default d] else []) ++
  valueLines .database db.attributes ++
  (db.nodes.flatMap fun n => valueLines (.node n.name) n.attributes) ++
  db.messages.flatMap messageValueLines ++
  (db.messages.flatMap fun m => m.signals.flatMap fun s =>
    if s.valueDescriptions.isEmpty then []
    else [.valueDescriptions m.id s.name s.valueDescriptions]) ++
  (db.messages.flatMap fun m => m.signals.flatMap fun s =>
    if s.layout.valueType = .integer then [] else [.valueType m.id s.name s.layout.valueType]) ++
  db.messages.flatMap fun m => m.signals.flatMap fun s =>
    if s.multiplexRanges.isEmpty then []
    else [.ranges m.id s.name s.multiplexorName s.multiplexRanges]

/-- The symbols that are written. -/
def writtenSymbols (symbols : List Text) (opt : WriteOptions) : List Text :=
  if symbols.isEmpty then if opt.synthesiseNewSymbols then kDefaultNewSymbols else [] else symbols

/-- The lines in front of the messages. -/
def earlierLines (db : Database R) (opt : WriteOptions) : List (Line R) :=
  [.version db.version, .newSymbols (writtenSymbols db.newSymbols opt), .bitTiming db.bitTiming,
    .nodes (db.nodes.map (·.name))] ++
  db.valueTables.map .valueTable ++ if db.valueTables.isEmpty then [] else [.blank]

/-- The lines that `write_string` writes. -/
def linesOf (db : Database R) (opt : WriteOptions) : List (Line R) :=
  earlierLines db opt ++ db.messages.map .message ++ laterLines db

/-! ### Edits -/

/-- What becomes of a list of receivers. -/
inductive ListEdit
  | kept
  | deleted
  | comma
  deriving DecidableEq, Repr

/-- What becomes of the optional elements: the semicolons, by the number of their line, and the
transmitters and the receivers, by what they belong to.  `true` is a deletion. -/
structure Edit where
  semicolon : ℕ → Bool := fun _ => false
  transmitter : CanId → Bool := fun _ => false
  receivers : CanId → Text → ListEdit := fun _ _ => .kept

/-- The signal whose line is edited, as it is to be read. -/
def Edit.signal (e : Edit) (id : CanId) (s : Signal R) : Signal R :=
  if e.receivers id s.name = .deleted then { s with receivers := [] } else s

/-- The message whose lines are edited, as it is to be read. -/
def Edit.message (e : Edit) (m : Message R) : Message R :=
  { m with transmitter := if e.transmitter m.id then [] else m.transmitter,
           signals := m.signals.map (e.signal m.id) }

/-- The line, as it is to be read. -/
def Edit.line (e : Edit) : Line R → Line R
  | .message m => .message (e.message m)
  | line => line

/-- The database whose text is edited, as it is to be read. -/
def Edit.database (e : Edit) (db : Database R) : Database R :=
  { db with messages := db.messages.map e.message }

end

/-! ### Items -/

/-- A keyword. -/
def kw (s : String) : Item := .lexeme (.word (ascii s))

/-- A name. -/
def word (w : Text) : Item := .lexeme (.word w)

/-- An unsigned number. -/
def decimalItem (n : ℕ) : Item := .lexeme (.number (toDecimal n))

/-- A mark. -/
def mark (c : Char) : Item := .lexeme (.mark (ch c))

/-- A string. -/
def str (value : Text) : Item := .lexeme (.string value)

/-- A blank between two tokens. -/
def space : Item := .gap (ascii " ")

/-- The end of a line. -/
def newline : Item := .gap (ascii "\n")

/-- A number with its sign. -/
def numberItems (t : Text) : List Item :=
  match t with
  | [] => [.lexeme (.number [])]
  | c :: rest =>
    if c = ch '-' then [mark '-', .lexeme (.number rest)] else [.lexeme (.number (c :: rest))]

/-- Groups of items, `first` in front of the first one and `sep` in front of the others. -/
def separatedItems (first sep : List Item) : List (List Item) → List Item
  | [] => []
  | a :: rest => first ++ a ++ rest.flatMap (sep ++ ·)

/-- The items of a list of names. -/
def namesItems (first : List Item) (names : List Text) : List Item :=
  separatedItems first [mark ','] (names.map fun n => [word n])

/-- What ends a statement. -/
def semicolonItems (deleted : Bool) : List Item :=
  (if deleted then [] else [mark ';']) ++ [newline]

/-- The items of an identifier. -/
def idItem (id : CanId) : Item := decimalItem (wireId id).toNat

/-- The items of an owner, up to what follows it. -/
def Owner.items : Owner → List Item
  | .database => []
  | .node name => [kw "BU_", space, word name, space]
  | .message id => [kw "BO_", space, idItem id, space]
  | .signal id name => [kw "SG_", space, idItem id, space, word name, space]

/-- The items of a bit timing. -/
def timingItems : Option BitTiming → List Item
  | some bt => [space, decimalItem bt.baudrate.toNat, space, mark ':', space,
      decimalItem bt.btr1.toNat, mark ',', decimalItem bt.btr2.toNat]
  | none => []

/-- The items of values and their texts. -/
def descriptionItems (values : List ValueDescription) : List Item :=
  values.flatMap fun v => space :: (numberItems (toSigned v.value) ++ [space, str v.text])

/-- The items of a range. -/
def rangeItems (r : MuxRange) : List Item :=
  [decimalItem r.low.toNat, mark '-', decimalItem r.high.toNat]

/-- The items of the object of a definition. -/
def objectItems : AttributeObject → List Item
  | .node => [kw "BU_", space]
  | .message => [kw "BO_", space]
  | .signal => [kw "SG_", space]
  | .envVar => [kw "EV_", space]
  | .database => []

/-- The names of the receivers. -/
def receiverNames (receivers : List Text) : List Text :=
  if receivers.isEmpty then [kNoNode] else receivers

/-- The items of the receivers after an edit. -/
def receiverItems (edit : ListEdit) (receivers : List Text) : List Item :=
  match edit with
  | .kept => namesItems [] (receiverNames receivers)
  | .deleted => []
  | .comma => namesItems [] (receiverNames receivers) ++ [mark ',']

section

variable {R : Type}

/-- The items of a multiplexer indicator. -/
def indicatorItems (s : Signal R) : List Item :=
  match s.multiplexRole with
  | .multiplexor => [space, kw "M"]
  | .multiplexed => [space, word (ascii "m" ++ toDecimal s.multiplexValue.toNat)]
  | .both => [space, word (ascii "m" ++ toDecimal s.multiplexValue.toNat ++ ascii "M")]
  | .none => []

/-- The items of the place of a signal. -/
def placeItems (layout : ScaledLayout R) : List Item :=
  [mark ':', space, decimalItem layout.startBit, mark '|', decimalItem layout.bitLength, mark '@',
    decimalItem (if layout.byteOrder = .intel then 1 else 0),
    mark (if layout.signedness = .signed then '-' else '+')]

/-- The items of a transmitter after an edit. -/
def transmitterItems (deleted : Bool) (transmitter : Text) : List Item :=
  if deleted then [] else [word (if transmitter.isEmpty then kNoNode else transmitter)]

variable [Scalar R] [Printed R]

/-- The items of the numbers of a signal. -/
def scalingItems (layout : ScaledLayout R) : List Item :=
  mark '(' :: (numberItems (formatNumber layout.factor) ++ mark ',' ::
    (numberItems (formatNumber layout.offset) ++ [mark ')', space, mark '['] ++
      (numberItems (formatNumber layout.minimum) ++ mark '|' ::
        (numberItems (formatNumber layout.maximum) ++ [mark ']']))))

/-- The items of the line of a signal. -/
def signalItems (e : Edit) (id : CanId) (s : Signal R) : List Item :=
  [space, kw "SG_", space, word s.name] ++ indicatorItems s ++ space :: placeItems s.layout ++
    space :: scalingItems s.layout ++ [space, str s.unit, space] ++
    receiverItems (e.receivers id s.name) s.receivers ++ [newline]

/-- The items of a message. -/
def messageItems (e : Edit) (m : Message R) : List Item :=
  [kw "BO_", space, idItem m.id, space, word m.name, mark ':', space, decimalItem m.dlc, space] ++
    transmitterItems (e.transmitter m.id) m.transmitter ++ [newline] ++
    m.signals.flatMap (signalItems e m.id) ++ [newline]

/-- The items of `attribute_literal`. -/
def literalItems (value : AttributeValue R) (asDefault : Bool) : List Item :=
  match value.type with
  | .string => [str value.text]
  | .enum => if asDefault then [str value.text] else numberItems (formatNumber value.number)
  | .hex => numberItems (formatNumber (Printed.floor value.number))
  | .int => numberItems (formatNumber (Printed.floor value.number))
  | .float => numberItems (formatNumber value.number)

/-- The items of two bounds. -/
def boundItems (low high : R) : List Item :=
  space :: (numberItems (formatNumber low) ++ space :: numberItems (formatNumber high))

/-- The items of what follows the type of a definition. -/
def boundsItems (d : AttributeDefinition R) : List Item :=
  match d.type with
  | .int => boundItems (Printed.floor d.minimum) (Printed.floor d.maximum)
  | .hex => boundItems (Printed.floor d.minimum) (Printed.floor d.maximum)
  | .float => boundItems d.minimum d.maximum
  | .enum => separatedItems [space] [mark ','] (d.enumValues.map fun v => [str v])
  | .string => [space]

/-- The items of a line. -/
def Line.items (e : Edit) (i : ℕ) : Line R → List Item
  | .version text => [kw "VERSION", space, str text, .gap (ascii "\n\n\n")]
  | .newSymbols symbols =>
    [kw "NS_", space, mark ':', .gap (ascii " \n")] ++
      symbols.flatMap (fun s => [.gap (ascii "\t"), word s, newline]) ++ [newline]
  | .bitTiming timing => [kw "BS_", mark ':'] ++ timingItems timing ++ [.gap (ascii "\n\n")]
  | .nodes names =>
    [kw "BU_", mark ':'] ++ names.flatMap (fun n => [space, word n]) ++ [.gap (ascii "\n\n")]
  | .valueTable t =>
    [kw "VAL_TABLE_", space, word t.name] ++ descriptionItems t.values ++ [space] ++
      semicolonItems (e.semicolon i)
  | .blank => [newline]
  | .message m => messageItems e m
  | .transmitters id names =>
    [kw "BO_TX_BU_", space, idItem id, space, mark ':'] ++ namesItems [space] names ++
      semicolonItems (e.semicolon i)
  | .comment owner text =>
    [kw "CM_", space] ++ owner.items ++ [str text] ++ semicolonItems (e.semicolon i)
  | .definition d =>
    [kw "BA_DEF_", space] ++ objectItems d.object ++ [str d.name, space, word (typeText d.type)] ++
      boundsItems d ++ semicolonItems (e.semicolon i)
  | .default d =>
    [kw "BA_DEF_DEF_", space, str d.name, space] ++ literalItems d.defaultValue true ++
      semicolonItems (e.semicolon i)
  | .value owner name v =>
    [kw "BA_", space, str name, space] ++ owner.items ++ literalItems v false ++
      semicolonItems (e.semicolon i)
  | .valueDescriptions id signal values =>
    [kw "VAL_", space, idItem id, space, word signal] ++ descriptionItems values ++ [space] ++
      semicolonItems (e.semicolon i)
  | .valueType id signal type =>
    [kw "SIG_VALTYPE_", space, idItem id, space, word signal, space, mark ':', space,
      decimalItem (if type = .float32 then 1 else 2)] ++ semicolonItems (e.semicolon i)
  | .ranges id signal multiplexor rs =>
    [kw "SG_MUL_VAL_", space, idItem id, space, word signal, space, word multiplexor] ++
      separatedItems [space] [mark ',', space] (rs.map rangeItems) ++
      semicolonItems (e.semicolon i)

/-- The items of lines, numbered from `i` on. -/
def itemsFrom (e : Edit) (i : ℕ) : List (Line R) → List Item
  | [] => []
  | line :: rest => line.items e i ++ itemsFrom e (i + 1) rest

/-- The text of a database after an edit. -/
def editedText (db : Database R) (opt : WriteOptions) (e : Edit) : Text :=
  let text := itemsText (itemsFrom e 0 (linesOf db opt))
  if opt.crlf then toCrlf text else text

/-! ### What is read -/

/-- A layout whose numbers are read back. -/
def rereadLayout (layout : ScaledLayout R) : ScaledLayout R :=
  { layout with factor := readBack layout.factor, offset := readBack layout.offset,
                minimum := readBack layout.minimum, maximum := readBack layout.maximum }

/-- What the line of a signal says of it. -/
def signalHead (s : Signal R) : Signal R :=
  { name := s.name, layout := { rereadLayout s.layout with valueType := .integer },
    multiplexRole := s.multiplexRole, multiplexValue := s.multiplexValue, unit := s.unit,
    receivers := s.receivers }

/-- What the lines of a message say of it. -/
def messageHead (m : Message R) : Message R :=
  { name := m.name, id := m.id, dlc := m.dlc, transmitter := m.transmitter,
    isFd := decide (8 < m.dlc), signals := m.signals.map signalHead }

/-- What the `BA_DEF_` line of a definition says of it. -/
def definitionHead (d : AttributeDefinition R) : AttributeDefinition R :=
  let numbers (low high : R) : AttributeDefinition R :=
    { name := d.name, object := d.object, type := d.type, minimum := readBack low,
      maximum := readBack high, defaultValue := AttributeValue.empty }
  match d.type with
  | .int => numbers (Printed.floor d.minimum) (Printed.floor d.maximum)
  | .hex => numbers (Printed.floor d.minimum) (Printed.floor d.maximum)
  | .float => numbers d.minimum d.maximum
  | .string =>
    { name := d.name, object := d.object, type := d.type, minimum := Scalar.lit 0,
      maximum := Scalar.lit 0, defaultValue := AttributeValue.empty }
  | .enum =>
    { name := d.name, object := d.object, type := d.type, minimum := Scalar.lit 0,
      maximum := Scalar.lit 0, enumValues := d.enumValues,
      defaultValue := AttributeValue.empty }

/-- A number that is read as an integer. -/
def rereadInt (x : R) : R := Scalar.ofInt (Scalar.toInt (readBack x))

/-- The value that is read where one was written. -/
def rereadValue (v : AttributeValue R) : AttributeValue R :=
  match v.type with
  | .int => { type := .int, number := rereadInt (Printed.floor v.number) }
  | .hex => { type := .hex, number := rereadInt (Printed.floor v.number) }
  | .float => { type := .float, number := readBack v.number }
  | .string => { type := .string, number := Scalar.lit 0, text := v.text }
  | .enum => { type := .enum, number := rereadInt v.number, text := v.text }

/-- The default that is read where one was written. -/
def rereadDefault (d : AttributeDefinition R) : AttributeValue R :=
  if d.defaultValue.type = .enum then
    { type := .enum, number := Scalar.ofInt (Parser.enumIndex d.enumValues d.defaultValue.text),
      text := d.defaultValue.text }
  else rereadValue d.defaultValue

/-- What the parser makes of a database with a line. -/
def Line.apply (line : Line R) (db : Database R) : Database R :=
  match line with
  | .version text => { db with version := text }
  | .newSymbols symbols => { db with newSymbols := symbols }
  | .bitTiming timing => { db with bitTiming := timing.or db.bitTiming }
  | .nodes names => { db with nodes := db.nodes ++ names.map fun name => { name } }
  | .valueTable t => { db with valueTables := db.valueTables ++ [t] }
  | .blank => db
  | .message m => { db with messages := db.messages ++ [messageHead m] }
  | .transmitters id names => changeMessage id ({ · with additionalTransmitters := names }) db
  | .comment owner text => setComment owner text db
  | .definition d =>
    { db with attributeDefinitions := db.attributeDefinitions ++ [definitionHead d] }
  | .default d => changeDefinition d.name
      ({ · with defaultValue := rereadDefault d, hasDefault := true }) db
  | .value owner name v => changeAttributes owner (AttributeMap.set name (rereadValue v)) db
  | .valueDescriptions id signal values =>
    changeSignal id signal ({ · with valueDescriptions := values }) db
  | .valueType id signal type =>
    changeSignal id signal (fun s => { s with layout := { s.layout with valueType := type } }) db
  | .ranges id signal multiplexor rs =>
    changeSignal id signal (extendMultiplexing multiplexor rs) db

end

end Dbc
end Canforge
