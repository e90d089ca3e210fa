/-
# The text of the statements

What `write_string` writes is the text of its lines (`writeText_eq`).
-/

import Canforge.Dbc.Lines

namespace Canforge
namespace Dbc

open Canforge.Core Text

/-! ### The text of items -/

@[simp] theorem kw_text (s : String) : (kw s).text = ascii s := rfl

@[simp] theorem word_text (w : Text) : (word w).text = w := rfl

@[simp] theorem decimalItem_text (n : ℕ) : (decimalItem n).text = toDecimal n := rfl

@[simp] theorem mark_text (c : Char) : (mark c).text = [ch c] := rfl

@[simp] theorem str_text (value : Text) : (str value).text = quoted value := rfl

@[simp] theorem space_text : space.text = ascii " " := rfl

@[simp] theorem newline_text : newline.text = ascii "\n" := rfl

@[simp] theorem gap_text (w : Text) : (Item.gap w).text = w := rfl

theorem itemsText_flatMap {α : Type} (l : List α) (f : α → List Item) :
    itemsText (l.flatMap f) = l.flatMap fun a => itemsText (f a) := by
  simp [itemsText, List.flatMap_assoc]

@[simp] theorem itemsText_numberItems (t : Text) : itemsText (numberItems t) = t := by
  cases t with
  | nil => rfl
  | cons c rest =>
    rw [numberItems]
    split_ifs with hc
    · rw [hc, itemsText_cons, itemsText_cons, itemsText_nil, List.append_nil]
      rfl
    · rw [itemsText_cons, itemsText_nil, List.append_nil]
      rfl

theorem itemsText_separatedItems (first sep : List Item) (groups : List (List Item)) :
    itemsText (separatedItems first sep groups) =
      separated (itemsText first) (itemsText sep) (groups.map itemsText) := by
  cases groups with
  | nil => rfl
  | cons a rest => simp [separatedItems, separated, itemsText_flatMap, List.flatMap_map]

theorem itemsText_word (w : Text) : itemsText [word w] = w := List.append_nil w

theorem itemsText_namesItems (first : List Item) (names : List Text) :
    itemsText (namesItems first names) = separated (itemsText first) (ascii ",") names := by
  rw [namesItems, itemsText_separatedItems, List.map_map]
  congr 1
  exact (List.map_congr_left fun n _ => itemsText_word n).trans (List.map_id _)

/-- The text of a line that is not edited. -/
def Line.text {R : Type} [Scalar R] [Printed R] (line : Line R) : Text :=
  itemsText (line.items {} 0)

section

variable {R : Type} {s : Signal R}

theorem itemsText_descriptions (values : List ValueDescription) :
    itemsText (descriptionItems values) = writeDescriptions values := by
  rw [descriptionItems, itemsText_flatMap, writeDescriptions]
  congr 1
  funext v
  simp only [itemsText_append, itemsText_cons, itemsText_nil, itemsText_numberItems, space_text,
    str_text, List.append_nil, List.append_assoc]

theorem itemsText_indicator (s : Signal R) : itemsText (indicatorItems s) = writeIndicator s := by
  have hone : ascii " m" = ascii " " ++ ascii "m" := rfl
  unfold indicatorItems writeIndicator
  cases s.multiplexRole with
  | none => rfl
  | multiplexor => rfl
  | multiplexed =>
    rw [itemsText_cons, itemsText_word, space_text, hone, List.append_assoc]
  | both =>
    rw [itemsText_cons, itemsText_word, space_text]
    dsimp only
    rw [hone, List.append_assoc, List.append_assoc, List.append_assoc]

theorem itemsText_receivers (receivers : List Text) :
    itemsText (receiverItems .kept receivers) = writeReceivers receivers := by
  rw [receiverItems, itemsText_namesItems, receiverNames, writeReceivers]
  split_ifs
  · exact List.append_nil _
  · rfl

theorem itemsText_place (layout : ScaledLayout R) : itemsText (placeItems layout) =
    ascii ": " ++ toDecimal layout.startBit ++ ascii "|" ++ toDecimal layout.bitLength ++ ascii "@" ++
      (if layout.byteOrder = .intel then ascii "1" else ascii "0") ++
      (if layout.signedness = .signed then ascii "-" else ascii "+") := by
  have horder : toDecimal (if layout.byteOrder = .intel then 1 else 0) =
      if layout.byteOrder = .intel then ascii "1" else ascii "0" := by
    split_ifs
    · rfl
    · rfl
  have hsign : [ch (if layout.signedness = .signed then '-' else '+')] =
      if layout.signedness = .signed then ascii "-" else ascii "+" := by
    split_ifs
    · rfl
    · rfl
  have hcolon : ascii ": " = [ch ':'] ++ ascii " " := rfl
  have hpipe : ascii "|" = [ch '|'] := rfl
  have hat : ascii "@" = [ch '@'] := rfl
  rw [placeItems, hcolon, hpipe, hat]
  simp only [itemsText_cons, itemsText_nil, mark_text, space_text, decimalItem_text, horder, hsign,
    List.append_nil, List.append_assoc]

theorem itemsText_message (m : Message R) :
    itemsText (Owner.message m.id).items = messageObject m ++ ascii " " := by
  have hkeyword : ascii "BO_ " = ascii "BO_" ++ ascii " " := rfl
  unfold Owner.items messageObject
  simp only [itemsText_cons, itemsText_nil, kw_text, space_text, idItem, decimalItem_text,
    List.append_nil, List.append_assoc, hkeyword]

theorem itemsText_signal (m : Message R) (s : Signal R) :
    itemsText (Owner.signal m.id s.name).items = signalObject m s ++ ascii " " := by
  have hkeyword : ascii "SG_ " = ascii "SG_" ++ ascii " " := rfl
  unfold Owner.items signalObject
  simp only [itemsText_cons, itemsText_nil, kw_text, space_text, idItem, decimalItem_text,
    word_text, List.append_nil, List.append_assoc, hkeyword]

variable [Scalar R] [Printed R]

theorem itemsText_itemsFrom (i : ℕ) (lines : List (Line R)) :
    itemsText (itemsFrom {} i lines) = lines.flatMap Line.text := by
  induction lines generalizing i with
  | nil => rfl
  | cons line lines ih =>
    have hitems : line.items {} i = line.items {} 0 := by cases line <;> rfl
    rw [itemsFrom, itemsText_append, ih, hitems, List.flatMap_cons]
    rfl

/-- Lines that are there unless something is empty. -/
theorem flatMap_ite {c : Prop} [Decidable c] (line : Line R) :
    (if c then [] else [line]).flatMap Line.text = if c then [] else line.text := by
  split_ifs <;> simp

/-! ### The lines -/

theorem itemsText_scaling (layout : ScaledLayout R) : itemsText (scalingItems layout) =
    ascii "(" ++ formatNumber layout.factor ++ ascii "," ++ formatNumber layout.offset ++
      ascii ") [" ++ formatNumber layout.minimum ++ ascii "|" ++ formatNumber layout.maximum ++
      ascii "]" := by
  have hopen : ascii "(" = [ch '('] := rfl
  have hcomma : ascii "," = [ch ','] := rfl
  have hbracket : ascii ") [" = [ch ')'] ++ (ascii " " ++ [ch '[']) := rfl
  have hpipe : ascii "|" = [ch '|'] := rfl
  have hclose : ascii "]" = [ch ']'] := rfl
  rw [scalingItems, hopen, hcomma, hbracket, hpipe, hclose]
  simp only [itemsText_append, itemsText_cons, itemsText_nil, itemsText_numberItems, mark_text,
    space_text, List.append_nil, List.append_assoc]

theorem itemsText_signalItems (id : CanId) (s : Signal R) :
    itemsText (signalItems {} id s) = writeSignal s := by
  have hsignal : ascii " SG_ " = ascii " " ++ (ascii "SG_" ++ ascii " ") := rfl
  have hcolon : ascii " : " = ascii " " ++ ascii ": " := rfl
  have hparen : ascii " (" = ascii " " ++ ascii "(" := rfl
  have hbracket : ascii "] " = ascii "]" ++ ascii " " := rfl
  unfold signalItems writeSignal
  simp only [itemsText_append, itemsText_indicator, itemsText_receivers, itemsText_place,
    itemsText_scaling, itemsText_cons, itemsText_nil, kw_text, word_text, space_text, str_text,
    newline_text, List.append_nil, List.append_assoc, hsignal, hcolon, hparen, hbracket]

theorem itemsText_messageItems (m : Message R) : itemsText (messageItems {} m) = writeMessage m := by
  have hkeyword : ascii "BO_ " = ascii "BO_" ++ ascii " " := rfl
  have hcolon : ascii ": " = [ch ':'] ++ ascii " " := rfl
  have htransmitter : itemsText (transmitterItems false m.transmitter) =
      if m.transmitter.isEmpty then kNoNode else m.transmitter := itemsText_word _
  unfold messageItems writeMessage
  simp only [itemsText_append, htransmitter, itemsText_flatMap, itemsText_signalItems,
    itemsText_cons, itemsText_nil, kw_text, word_text, space_text, newline_text, mark_text, idItem,
    decimalItem_text, List.append_nil, List.append_assoc, hkeyword, hcolon]

theorem itemsText_literal (v : AttributeValue R) (asDefault : Bool) :
    itemsText (literalItems v asDefault) = attributeLiteral v asDefault := by
  unfold literalItems attributeLiteral
  cases v.type with
  | int => exact itemsText_numberItems _
  | hex => exact itemsText_numberItems _
  | float => exact itemsText_numberItems _
  | string => exact List.append_nil _
  | enum =>
    cases asDefault with
    | false => exact itemsText_numberItems _
    | true => exact List.append_nil _

theorem itemsText_object (object : AttributeObject) :
    itemsText (objectItems object) = writeObject object := by
  cases object with
  | database => rfl
  | node => exact (rfl : ascii "BU_" ++ (ascii " " ++ []) = ascii "BU_ ")
  | message => exact (rfl : ascii "BO_" ++ (ascii " " ++ []) = ascii "BO_ ")
  | signal => exact (rfl : ascii "SG_" ++ (ascii " " ++ []) = ascii "SG_ ")
  | envVar => exact (rfl : ascii "EV_" ++ (ascii " " ++ []) = ascii "EV_ ")

theorem itemsText_bounds (d : AttributeDefinition R) :
    itemsText (boundsItems d) = writeBounds d := by
  have hnumbers (low high : R) : itemsText (boundItems low high) =
      ascii " " ++ formatNumber low ++ ascii " " ++ formatNumber high := by
    unfold boundItems
    simp only [itemsText_cons, itemsText_append, itemsText_numberItems, space_text,
      List.append_assoc]
  have hstrings (values : List Text) : (values.map fun v => [str v]).map itemsText =
      values.map quoted := by
    rw [List.map_map]
    exact List.map_congr_left fun v _ => List.append_nil _
  unfold boundsItems writeBounds
  cases d.type with
  | int => exact hnumbers _ _
  | hex => exact hnumbers _ _
  | float => exact hnumbers _ _
  | string => exact List.append_nil _
  | enum =>
    refine (itemsText_separatedItems _ _ _).trans ?_
    rw [hstrings]
    rfl

/-! ### The text of a line -/

theorem text_version (text : Text) :
    (Line.version text : Line R).text = ascii "VERSION " ++ quoted text ++ ascii "\n\n\n" := by
  have hkeyword : ascii "VERSION " = ascii "VERSION" ++ ascii " " := rfl
  unfold Line.text Line.items
  simp only [itemsText_cons, itemsText_nil, kw_text, space_text, str_text, gap_text,
    List.append_nil, List.append_assoc, hkeyword]

theorem text_newSymbols (symbols : List Text) (opt : WriteOptions) :
    (Line.newSymbols (writtenSymbols symbols opt) : Line R).text = writeNewSymbols symbols opt := by
  have hkeyword : ascii "NS_ : \n" = ascii "NS_" ++ (ascii " " ++ ([ch ':'] ++ ascii " \n")) := rfl
  unfold Line.text Line.items writeNewSymbols
  simp only [itemsText_append, itemsText_flatMap, itemsText_cons, itemsText_nil, kw_text,
    space_text, mark_text, gap_text, word_text, newline_text, List.append_nil, List.append_assoc,
    hkeyword]
  rfl

theorem text_bitTiming (timing : Option BitTiming) :
    (Line.bitTiming timing : Line R).text = writeBitTiming timing := by
  have hkeyword : ascii "BS_:" = ascii "BS_" ++ [ch ':'] := rfl
  have hcolon : ascii " : " = ascii " " ++ ([ch ':'] ++ ascii " ") := rfl
  have hcomma : ascii "," = [ch ','] := rfl
  unfold Line.text Line.items writeBitTiming
  cases timing with
  | none => rfl
  | some bt =>
    dsimp only [timingItems]
    simp only [itemsText_append, itemsText_cons, itemsText_nil, kw_text, space_text, mark_text,
      gap_text, decimalItem_text, List.append_nil, List.append_assoc, hkeyword, hcolon, hcomma]

theorem text_nodes (names : List Text) : (Line.nodes names : Line R).text =
    ascii "BU_:" ++ names.flatMap (fun n => ascii " " ++ n) ++ ascii "\n\n" := by
  have hkeyword : ascii "BU_:" = ascii "BU_" ++ [ch ':'] := rfl
  unfold Line.text Line.items
  simp only [itemsText_append, itemsText_flatMap, itemsText_cons, itemsText_nil, kw_text,
    space_text, mark_text, gap_text, word_text, List.append_nil, List.append_assoc, hkeyword]

theorem text_valueTable (t : ValueTable) :
    (Line.valueTable t : Line R).text = writeValueTable t := by
  have hkeyword : ascii "VAL_TABLE_ " = ascii "VAL_TABLE_" ++ ascii " " := rfl
  have hend : ascii " ;\n" = ascii " " ++ ([ch ';'] ++ ascii "\n") := rfl
  unfold Line.text Line.items writeValueTable semicolonItems
  simp only [itemsText_append, itemsText_descriptions, itemsText_cons, itemsText_nil, kw_text,
    space_text, mark_text, word_text, newline_text, Bool.false_eq_true, if_false, List.append_nil,
    List.append_assoc, hkeyword, hend]

theorem text_message (m : Message R) : (Line.message m).text = writeMessage m :=
  itemsText_messageItems m

theorem text_transmitters (m : Message R) :
    (if m.additionalTransmitters.isEmpty then []
      else (Line.transmitters m.id m.additionalTransmitters : Line R).text) =
      writeTransmitters m := by
  have hkeyword : ascii "BO_TX_BU_ " = ascii "BO_TX_BU_" ++ ascii " " := rfl
  have hcolon : ascii " :" = ascii " " ++ [ch ':'] := rfl
  have hend : ascii ";\n" = [ch ';'] ++ ascii "\n" := rfl
  have hspace : itemsText [space] = ascii " " := rfl
  unfold Line.text Line.items writeTransmitters semicolonItems
  simp only [itemsText_append, itemsText_namesItems, hspace, itemsText_cons, itemsText_nil, kw_text,
    space_text, mark_text, newline_text, idItem, decimalItem_text, Bool.false_eq_true, if_false,
    List.append_nil, List.append_assoc, hkeyword, hcolon, hend]

theorem text_comment (owner : Owner) (text : Text) :
    (if text.isEmpty then [] else (Line.comment owner text : Line R).text) =
      writeComment (itemsText owner.items) text := by
  have hkeyword : ascii "CM_ " = ascii "CM_" ++ ascii " " := rfl
  have hend : ascii ";\n" = [ch ';'] ++ ascii "\n" := rfl
  unfold Line.text Line.items writeComment semicolonItems
  simp only [itemsText_append, itemsText_cons, itemsText_nil, kw_text, space_text, str_text,
    mark_text, newline_text, Bool.false_eq_true, if_false, List.append_nil, List.append_assoc,
    hkeyword, hend]

theorem itemsText_node (name : Text) :
    itemsText (Owner.node name).items = ascii "BU_ " ++ name ++ ascii " " := by
  have hkeyword : ascii "BU_ " = ascii "BU_" ++ ascii " " := rfl
  unfold Owner.items
  simp only [itemsText_cons, itemsText_nil, kw_text, space_text, word_text, List.append_nil,
    List.append_assoc, hkeyword]

theorem text_definition (d : AttributeDefinition R) :
    (Line.definition d).text = writeDefinition d := by
  have hkeyword : ascii "BA_DEF_ " = ascii "BA_DEF_" ++ ascii " " := rfl
  have hend : ascii ";\n" = [ch ';'] ++ ascii "\n" := rfl
  unfold Line.text Line.items writeDefinition semicolonItems
  simp only [itemsText_append, itemsText_object, itemsText_bounds, itemsText_cons, itemsText_nil,
    kw_text, space_text, str_text, word_text, mark_text, newline_text, Bool.false_eq_true, if_false,
    List.append_nil, List.append_assoc, hkeyword, hend]

theorem text_default (d : AttributeDefinition R) :
    (if d.hasDefault then (Line.default d).text else []) = writeDefault d := by
  have hkeyword : ascii "BA_DEF_DEF_ " = ascii "BA_DEF_DEF_" ++ ascii " " := rfl
  have hend : ascii ";\n" = [ch ';'] ++ ascii "\n" := rfl
  unfold Line.text Line.items writeDefault semicolonItems
  simp only [itemsText_append, itemsText_literal, itemsText_cons, itemsText_nil, kw_text,
    space_text, str_text, mark_text, newline_text, Bool.false_eq_true, if_false, List.append_nil,
    List.append_assoc, hkeyword, hend]

/-- The text of an attribute; `t` is the target that `emit_values` is given. -/
theorem text_value {owner : Owner} {t : Text}
    (howner : itemsText owner.items = if t.isEmpty then [] else t ++ ascii " ")
    (map : AttributeMap R) : (valueLines owner map).flatMap Line.text = emitValues map t := by
  have hkeyword : ascii "BA_ " = ascii "BA_" ++ ascii " " := rfl
  have hend : ascii ";\n" = [ch ';'] ++ ascii "\n" := rfl
  rw [valueLines, List.flatMap_map, emitValues]
  congr 1
  funext ⟨name, v⟩
  unfold Line.text Line.items semicolonItems
  simp only [itemsText_append, howner, itemsText_literal, itemsText_cons, itemsText_nil, kw_text,
    space_text, str_text, mark_text, newline_text, Bool.false_eq_true, if_false, List.append_nil,
    List.append_assoc, hkeyword, hend]
  split_ifs
  · rfl
  · simp only [List.append_assoc]

theorem text_valueDescriptions (m : Message R) (s : Signal R) :
    (if s.valueDescriptions.isEmpty then []
      else (Line.valueDescriptions m.id s.name s.valueDescriptions : Line R).text) =
      writeValueDescriptions m s := by
  have hkeyword : ascii "VAL_ " = ascii "VAL_" ++ ascii " " := rfl
  have hend : ascii " ;\n" = ascii " " ++ ([ch ';'] ++ ascii "\n") := rfl
  unfold Line.text Line.items writeValueDescriptions semicolonItems
  simp only [itemsText_append, itemsText_descriptions, itemsText_cons, itemsText_nil, kw_text,
    space_text, word_text, idItem, decimalItem_text, mark_text, newline_text, Bool.false_eq_true,
    if_false, List.append_nil, List.append_assoc, hkeyword, hend]

theorem text_valueType (m : Message R) (s : Signal R) :
    (if s.layout.valueType = .integer then []
      else (Line.valueType m.id s.name s.layout.valueType : Line R).text) = writeValueType m s := by
  have hkeyword : ascii "SIG_VALTYPE_ " = ascii "SIG_VALTYPE_" ++ ascii " " := rfl
  have hcolon : ascii " : " = ascii " " ++ ([ch ':'] ++ ascii " ") := rfl
  have hend : ascii ";\n" = [ch ';'] ++ ascii "\n" := rfl
  have htype : toDecimal (if s.layout.valueType = .float32 then 1 else 2) =
      if s.layout.valueType = .float32 then ascii "1" else ascii "2" := by
    split_ifs
    · rfl
    · rfl
  unfold Line.text Line.items writeValueType semicolonItems
  simp only [itemsText_append, itemsText_cons, itemsText_nil, kw_text, space_text, word_text,
    idItem, decimalItem_text, htype, mark_text, newline_text, Bool.false_eq_true, if_false,
    List.append_nil, List.append_assoc, hkeyword, hcolon, hend]

theorem text_ranges (m : Message R) (s : Signal R) :
    (if s.multiplexRanges.isEmpty then []
      else (Line.ranges m.id s.name s.multiplexorName s.multiplexRanges : Line R).text) =
      writeRanges m s := by
  have hkeyword : ascii "SG_MUL_VAL_ " = ascii "SG_MUL_VAL_" ++ ascii " " := rfl
  have hend : ascii ";\n" = [ch ';'] ++ ascii "\n" := rfl
  have hspace : itemsText [space] = ascii " " := rfl
  have hcomma : itemsText [mark ',', space] = ascii ", " := rfl
  have hranges : (s.multiplexRanges.map rangeItems).map itemsText =
      s.multiplexRanges.map writeRange := by
    rw [List.map_map]
    refine List.map_congr_left fun r _ => ?_
    have hminus : ascii "-" = [ch '-'] := rfl
    simp only [Function.comp_apply, rangeItems, writeRange, itemsText_cons, itemsText_nil,
      decimalItem_text, mark_text, List.append_nil, List.append_assoc, hminus]
  unfold Line.text Line.items writeRanges semicolonItems
  simp only [itemsText_append, itemsText_separatedItems, hspace, hcomma, hranges, itemsText_cons,
    itemsText_nil, kw_text, space_text, word_text, idItem, decimalItem_text, mark_text,
    newline_text, Bool.false_eq_true, if_false, List.append_nil, List.append_assoc, hkeyword, hend]

/-- The lines of one kind, an element at a time. -/
theorem flatMap_lines {α : Type} (l : List α) {f : α → List (Line R)} {g : α → Text}
    (h : ∀ a, (f a).flatMap Line.text = g a) : (l.flatMap f).flatMap Line.text = l.flatMap g := by
  rw [List.flatMap_assoc]
  exact congrArg (l.flatMap ·) (funext h)

theorem map_lines {α : Type} (l : List α) {f : α → Line R} {g : α → Text}
    (h : ∀ a, (f a).text = g a) : (l.map f).flatMap Line.text = l.flatMap g := by
  rw [List.flatMap_map]
  exact congrArg (l.flatMap ·) (funext h)

theorem text_messageComments (m : Message R) :
    (commentLines m).flatMap Line.text = writeMessageComments m := by
  rw [commentLines, List.flatMap_append, flatMap_ite, text_comment, itemsText_message,
    writeMessageComments]
  refine congrArg (_ ++ ·) (flatMap_lines m.signals fun s => ?_)
  rw [flatMap_ite, text_comment, itemsText_signal]

theorem text_messageValues (m : Message R) :
    (messageValueLines m).flatMap Line.text = writeMessageValues m := by
  have hmessage : (messageObject m).isEmpty = false := rfl
  have hsignal (s : Signal R) : (signalObject m s).isEmpty = false := rfl
  rw [messageValueLines, List.flatMap_append, writeMessageValues,
    text_value (t := messageObject m) (by rw [itemsText_message, hmessage]; rfl)]
  refine congrArg (_ ++ ·) (flatMap_lines m.signals fun s => text_value ?_ s.attributes)
  rw [itemsText_signal, hsignal]
  rfl

theorem text_earlierLines (db : Database R) (opt : WriteOptions) :
    (earlierLines db opt).flatMap Line.text =
      ascii "VERSION " ++ quoted db.version ++ ascii "\n\n\n" ++
        writeNewSymbols db.newSymbols opt ++ writeBitTiming db.bitTiming ++
        ascii "BU_:" ++ db.nodes.flatMap (fun n => ascii " " ++ n.name) ++ ascii "\n\n" ++
        db.valueTables.flatMap writeValueTable ++
        (if db.valueTables.isEmpty then [] else ascii "\n") := by
  have hblank : (Line.blank : Line R).text = ascii "\n" := rfl
  rw [earlierLines, List.flatMap_append, List.flatMap_append, map_lines _ text_valueTable,
    flatMap_ite, hblank]
  simp only [List.flatMap_cons, List.flatMap_nil, List.append_nil, text_version, text_newSymbols,
    text_bitTiming, text_nodes, List.flatMap_map, List.append_assoc]

theorem text_laterLines (db : Database R) :
    (laterLines db).flatMap Line.text =
      db.messages.flatMap writeTransmitters ++
        writeComment [] db.comment ++
        db.nodes.flatMap (fun n => writeComment (ascii "BU_ " ++ n.name ++ ascii " ") n.comment) ++
        db.messages.flatMap writeMessageComments ++
        db.attributeDefinitions.flatMap writeDefinition ++
        db.attributeDefinitions.flatMap writeDefault ++
        emitValues db.attributes [] ++
        db.nodes.flatMap (fun n => emitValues n.attributes (ascii "BU_ " ++ n.name)) ++
        db.messages.flatMap writeMessageValues ++
        db.messages.flatMap (fun m => m.signals.flatMap (writeValueDescriptions m)) ++
        db.messages.flatMap (fun m => m.signals.flatMap (writeValueType m)) ++
        db.messages.flatMap (fun m => m.signals.flatMap (writeRanges m)) := by
  have htransmitters := flatMap_lines db.messages (g := writeTransmitters) fun m =>
    (flatMap_ite (Line.transmitters m.id m.additionalTransmitters)).trans (text_transmitters m)
  have hcomment := (flatMap_ite (R := R) (Line.comment .database db.comment)).trans
    (text_comment .database db.comment)
  have hnodes := flatMap_lines db.nodes
    (g := fun n => writeComment (ascii "BU_ " ++ n.name ++ ascii " ") n.comment) fun n =>
      (flatMap_ite (R := R) (Line.comment (.node n.name) n.comment)).trans
        ((text_comment (.node n.name) n.comment).trans (by rw [itemsText_node]))
  have hcomments := flatMap_lines db.messages text_messageComments
  have hdefinitions := map_lines db.attributeDefinitions text_definition
  have hdefaults := flatMap_lines db.attributeDefinitions (g := writeDefault)
    (f := fun d => if d.hasDefault then [.default d] else []) fun d => by
      rw [← text_default]
      split_ifs
      · exact List.flatMap_singleton _ _
      · rfl
  have hvalues : (valueLines .database db.attributes).flatMap Line.text =
      emitValues db.attributes [] := text_value rfl db.attributes
  have hnodeValues := flatMap_lines db.nodes (f := fun n => valueLines (.node n.name) n.attributes)
    (g := fun n => emitValues n.attributes (ascii "BU_ " ++ n.name)) fun n =>
      text_value (by rw [itemsText_node]; rfl) n.attributes
  have hmessageValues := flatMap_lines db.messages text_messageValues
  have hdescriptions := flatMap_lines db.messages
    (g := fun m => m.signals.flatMap (writeValueDescriptions m)) fun m =>
      flatMap_lines m.signals fun s =>
        (flatMap_ite (Line.valueDescriptions m.id s.name s.valueDescriptions)).trans
          (text_valueDescriptions m s)
  have htypes := flatMap_lines db.messages
    (g := fun m => m.signals.flatMap (writeValueType m)) fun m =>
      flatMap_lines m.signals fun s =>
        (flatMap_ite (Line.valueType m.id s.name s.layout.valueType)).trans (text_valueType m s)
  have hranges := flatMap_lines db.messages
    (g := fun m => m.signals.flatMap (writeRanges m)) fun m =>
      flatMap_lines m.signals fun s =>
        (flatMap_ite (Line.ranges m.id s.name s.multiplexorName s.multiplexRanges)).trans
          (text_ranges m s)
  unfold laterLines
  simp only [List.flatMap_append, htransmitters, hcomment, hnodes, hcomments, hdefinitions,
    hdefaults, hvalues, hnodeValues, hmessageValues, hdescriptions, htypes, hranges]
  rfl

/-- **What `write_string` writes is the text of its lines.** -/
theorem writeText_eq (db : Database R) (opt : WriteOptions) :
    writeText db opt = (linesOf db opt).flatMap Line.text := by
  unfold writeText linesOf
  simp only [List.flatMap_append, text_earlierLines, map_lines _ text_message, text_laterLines,
    List.append_assoc]

/-- A text that is not edited is what `write_string` writes. -/
theorem editedText_nil (db : Database R) (opt : WriteOptions) :
    editedText db opt {} = writeString db opt := by
  unfold editedText writeString
  rw [itemsText_itemsFrom, ← writeText_eq]

end

end Dbc
end Canforge
