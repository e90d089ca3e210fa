/-
# The round trip of a database

What is read of a written text is equal to the database that was written, by its `operator==`
(`parseString_writeString`), and so is what is read of a text without its optional elements, less
the transmitters and the receivers that were deleted (`parseString_edited`).
-/

import Canforge.Core.Equality
import Canforge.Dbc.Binary64
import Canforge.Dbc.Tolerances

namespace Canforge
namespace Dbc

open Canforge.Core Text Lib

variable {R : Type} [Scalar R] [Printed R] {D : Printing R}
  {definitions : List (AttributeDefinition R)} {db : Database R} {opt : WriteOptions}

/-! ### Numbers -/

theorem eq_of_value {x y : R} {q : ℚ} (hx : D.value x = some q) (hy : D.value y = some q) :
    Scalar.eq x y = true := (D.eq hy).2 hx

theorem eq_readBack {x : R} (h : Finite D x) : Scalar.eq (readBack x) x = true := by
  obtain ⟨q, hq⟩ := h
  exact eq_of_value (D.readBack_value hq) hq

/-- An integer that is rounded and read back. -/
theorem value_readBack_floor {x : R} (h : Integral D x) :
    ∃ z : ℤ, D.value x = some (z : ℚ) ∧ D.value (readBack (Printed.floor x)) = some (z : ℚ) := by
  obtain ⟨z, hz⟩ := h
  refine ⟨z, hz, D.readBack_value ?_⟩
  rw [D.floor hz, Int.floor_intCast]

/-- A number of 64 bits that is read as an integer. -/
theorem value_rereadInt {x : R} {z : ℤ} (h : D.value x = some (z : ℚ)) (hlow : -2 ^ 63 ≤ z)
    (hhigh : z < 2 ^ 63) : D.value (rereadInt x) = some (z : ℚ) := by
  have htoInt : Scalar.toInt (readBack x) = z := by
    rw [D.toInt (D.readBack_value h) (by exact_mod_cast hlow) (by exact_mod_cast hhigh)]
    simp
  rw [rereadInt, htoInt]
  exact D.ofInt (by omega) (D.hasBits h)

/-! ### Attributes -/

theorem AttributeValue.equals_of {a b : AttributeValue R} {q : ℚ} (htype : a.type = b.type)
    (htext : a.text = b.text) (ha : D.value a.number = some q) (hb : D.value b.number = some q) :
    a.equals b = true := by
  unfold AttributeValue.equals
  rw [htype, htext, eq_of_value ha hb]
  simp

theorem rereadValue_equals {values : List Text} {v : AttributeValue R} (h : WritableOf D values v) :
    (rereadValue v).equals v = true := by
  have hfloor (hnumber : Integral64 D v.number) :
      ∃ z : ℤ, D.value v.number = some (z : ℚ) ∧
        D.value (rereadInt (Printed.floor v.number)) = some (z : ℚ) := by
    obtain ⟨z, hz, hlow, hhigh⟩ := hnumber
    refine ⟨z, hz, value_rereadInt ?_ hlow hhigh⟩
    rw [D.floor hz, Int.floor_intCast]
  unfold WritableOf at h
  unfold rereadValue
  cases htype : v.type with
  | int =>
    rw [htype] at h
    obtain ⟨z, hz, hread⟩ := hfloor h.1
    exact AttributeValue.equals_of htype.symm h.2.symm hread hz
  | hex =>
    rw [htype] at h
    obtain ⟨z, hz, hread⟩ := hfloor h.1
    exact AttributeValue.equals_of htype.symm h.2.symm hread hz
  | float =>
    rw [htype] at h
    obtain ⟨⟨q, hq⟩, htext⟩ := h
    exact AttributeValue.equals_of htype.symm htext.symm (D.readBack_value hq) hq
  | string =>
    rw [htype] at h
    exact AttributeValue.equals_of htype.symm rfl D.zero h.1
  | enum =>
    rw [htype] at h
    obtain ⟨i, hi, -, hvalue⟩ := h
    have hcast : D.value v.number = some (((i : ℕ) : ℤ) : ℚ) := by rw [hvalue, Int.cast_natCast]
    exact AttributeValue.equals_of htype.symm rfl (value_rereadInt hcast (by omega) (by omega)) hcast

theorem rereadMap_equals {map : AttributeMap R} (h : WritableAttributes D definitions map) :
    AttributeMap.equals (rereadMap map) map = true := by
  refine isEqv_map_left.2 fun a ha => ?_
  have hvalue := (h.values a ha).2
  have hequals : (rereadValue a.2).equals a.2 = true := by
    unfold WritableValue at hvalue
    split at hvalue
    · exact rereadValue_equals hvalue.2
    · exact rereadValue_equals hvalue.2
  simpa using hequals

theorem rereadDefault_equals {d : AttributeDefinition R} (h : WritableDefinition D d)
    (hdefault : d.hasDefault = true) : (rereadDefault d).equals d.defaultValue = true := by
  obtain ⟨htype, hof⟩ := h.default hdefault
  unfold rereadDefault
  split_ifs with henum
  · unfold WritableOf at hof
    rw [henum] at hof
    obtain ⟨i, hi, hat, hvalue⟩ := hof
    have hcast : D.value d.defaultValue.number = some (((i : ℕ) : ℤ) : ℚ) := by
      rw [hvalue, Int.cast_natCast]
    refine AttributeValue.equals_of henum.symm rfl ?_ hcast
    rw [Parser.Reads.enumIndex_eq h.distinct hat]
    exact D.ofInt (by omega) (D.hasBits hcast)
  · exact rereadValue_equals hof

theorem rereadDefinition_equals {d : AttributeDefinition R} (h : WritableDefinition D d) :
    (rereadDefinition d).equals d = true := by
  have hdefault : (!d.hasDefault || (rereadDefinition d).defaultValue.equals d.defaultValue) = true := by
    cases hhas : d.hasDefault with
    | false => rfl
    | true =>
      unfold rereadDefinition
      rw [hhas]
      exact rereadDefault_equals h hhas
  have hbounds : Scalar.eq (definitionHead d).minimum d.minimum = true ∧
      Scalar.eq (definitionHead d).maximum d.maximum = true := by
    unfold definitionHead
    have hintegral (htype : d.type = .int ∨ d.type = .hex) :
        Scalar.eq (readBack (Printed.floor d.minimum)) d.minimum = true ∧
          Scalar.eq (readBack (Printed.floor d.maximum)) d.maximum = true := by
      obtain ⟨y, hy, hy'⟩ := value_readBack_floor (h.integral htype).1
      obtain ⟨z, hz, hz'⟩ := value_readBack_floor (h.integral htype).2
      exact ⟨eq_of_value hy' hy, eq_of_value hz' hz⟩
    have hzero (htype : d.type = .string ∨ d.type = .enum) :
        Scalar.eq (Scalar.lit 0) d.minimum = true ∧ Scalar.eq (Scalar.lit 0) d.maximum = true :=
      ⟨eq_of_value D.zero (h.unbounded htype).1, eq_of_value D.zero (h.unbounded htype).2⟩
    cases htype : d.type with
    | int => exact hintegral (.inl htype)
    | hex => exact hintegral (.inr htype)
    | float => exact ⟨eq_readBack h.minimum, eq_readBack h.maximum⟩
    | string => exact hzero (.inl htype)
    | enum => exact hzero (.inr htype)
  have hhead : (definitionHead d).name = d.name ∧ (definitionHead d).object = d.object ∧
      (definitionHead d).type = d.type ∧ (definitionHead d).enumValues = d.enumValues := by
    have hkind := Prod.ext_iff.1 (kindOf_definitionHead h.noValues)
    refine ⟨definitionHead_name d, ?_, hkind.1, hkind.2⟩
    unfold definitionHead
    cases d.type <;> rfl
  obtain ⟨hname, hobject, htype, hvalues⟩ := hhead
  unfold AttributeDefinition.equals
  simp only [Bool.and_eq_true, decide_eq_true_iff]
  exact ⟨⟨⟨⟨⟨⟨⟨hname, hobject⟩, htype⟩, hbounds.1⟩, hbounds.2⟩, hvalues⟩, rfl⟩, hdefault⟩

/-! ### Messages -/

theorem rereadLayout_equals {s : Signal R} (h : WritableSignal D definitions s) :
    (rereadLayout s.layout).equals s.layout = true := by
  unfold ScaledLayout.equals rereadLayout
  rw [eq_readBack h.factor, eq_readBack h.offset, eq_readBack h.minimum, eq_readBack h.maximum]
  simp

theorem rereadSignal_equals (e : Edit) (id : CanId) {s : Signal R}
    (h : WritableSignal D definitions s) :
    (rereadSignal (e.signal id s)).equals (e.signal id s) = true := by
  rw [Edit.signal_eq]
  unfold Signal.equals rereadSignal
  dsimp only
  rw [rereadMap_equals h.attributes, rereadLayout_equals h]
  simp

theorem rereadMessage_equals (e : Edit) {m : Message R} (h : WritableMessage D definitions m) :
    (rereadMessage (e.message m)).equals (e.message m) = true := by
  have hsignals : List.isEqv ((e.message m).signals.map rereadSignal) (e.message m).signals
      Signal.equals = true := by
    refine isEqv_map_left.2 fun s' hs' => ?_
    obtain ⟨s, hs, rfl⟩ := List.mem_map.1 hs'
    exact rereadSignal_equals e m.id (h.signals s hs)
  unfold Message.equals rereadMessage
  dsimp only
  rw [hsignals, show AttributeMap.equals (rereadMap (e.message m).attributes)
    (e.message m).attributes = true from rereadMap_equals h.attributes]
  simp

/-- **What is read again of a database is equal to it.** -/
theorem Writable.reread_equals (h : Writable D db opt) (e : Edit) :
    (reread (e.database db)).equals (e.database db) = true := by
  have hnodes : List.isEqv (db.nodes.map rereadNode) db.nodes Node.equals = true := by
    refine isEqv_map_left.2 fun n hn => ?_
    unfold Node.equals rereadNode
    rw [rereadMap_equals (h.nodes n hn).attributes]
    simp
  have hmessages : List.isEqv ((e.database db).messages.map rereadMessage) (e.database db).messages
      Message.equals = true := by
    refine isEqv_map_left.2 fun m' hm' => ?_
    obtain ⟨m, hm, rfl⟩ := List.mem_map.1 hm'
    exact rereadMessage_equals e (h.messages m hm)
  have hdefinitions : List.isEqv (db.attributeDefinitions.map rereadDefinition)
      db.attributeDefinitions AttributeDefinition.equals = true :=
    isEqv_map_left.2 fun d hd => rereadDefinition_equals (h.definitions d hd)
  simp only [Database.equals, Bool.and_eq_true, decide_eq_true_iff]
  exact ⟨⟨⟨⟨⟨⟨⟨⟨rfl, rfl⟩, rfl⟩, rfl⟩, hnodes⟩, hmessages⟩, rfl⟩, hdefinitions⟩,
    rereadMap_equals h.attributes⟩

/-! ### A database that is read back -/

/-- The number `m * 2 ^ e`. -/
def num (m e : ℤ) (h : |m| < 2 ^ 53) : Binary64 := ⟨m * 2 ^ e, m, e, h, rfl⟩

theorem value_num (m : ℤ) (h : |m| < 2 ^ 53) : printing64.value (num m 0 h) = some (m : ℚ) :=
  congrArg some (by simp [num])

/-- The cycle of a message. -/
def sampleDefinition : AttributeDefinition Binary64 :=
  { name := ascii "Cycle", object := .message, type := .int, minimum := num 0 0 (by decide),
    maximum := num 1000 0 (by decide), hasDefault := true,
    defaultValue := { type := .int, number := num 100 0 (by decide) } }

/-- A signal of twelve bits that counts in halves. -/
def sampleSignal : Signal Binary64 :=
  { name := ascii "Speed", unit := ascii "rpm", comment := ascii "a \"raw\" speed",
    layout := { startBit := 0, bitLength := 12, factor := num 1 (-1) (by decide),
                offset := num 0 0 (by decide), minimum := num 0 0 (by decide),
                maximum := num 0 0 (by decide) } }

/-- A message with that signal. -/
def sampleMessage : Message Binary64 :=
  { name := ascii "Engine", id := ⟨256, .inl (by decide)⟩, dlc := 8, transmitter := ascii "Gateway",
    signals := [sampleSignal],
    attributes := [(ascii "Cycle", { type := .int, number := num 20 0 (by decide) })] }

/-- A database with that message. -/
def sampleDatabase : Database Binary64 :=
  { version := ascii "1.0", newSymbols := [ascii "CM_"],
    nodes := [{ name := ascii "Gateway", comment := ascii "routes frames" }],
    messages := [sampleMessage], attributeDefinitions := [sampleDefinition] }

theorem sample_valid : sampleDatabase.validate = .ok () := by
  have hok : (match sampleDatabase.validate with
      | .ok _ => true
      | .error _ => false) = true := by decide +kernel
  cases hvalid : sampleDatabase.validate with
  | ok u => rfl
  | error e =>
    rw [hvalid] at hok
    cases hok

theorem sample_integer {m : ℤ} (hm : |m| < 2 ^ 53) (hlow : -2 ^ 63 ≤ m) (hhigh : m < 2 ^ 63) :
    WritableValue printing64 (some sampleDefinition) { type := .int, number := num m 0 hm } :=
  ⟨rfl, ⟨m, value_num m hm, hlow, hhigh⟩, rfl⟩

theorem sample_noAttributes (definitions : List (AttributeDefinition Binary64)) :
    WritableAttributes printing64 definitions [] := ⟨List.Pairwise.nil, by simp⟩

theorem sample_definition : WritableDefinition printing64 sampleDefinition where
  name := isString_ascii (by decide)
  minimum := ⟨_, rfl⟩
  maximum := ⟨_, rfl⟩
  integral _ := ⟨⟨0, value_num 0 (by decide)⟩, 1000, value_num 1000 (by decide)⟩
  unbounded h := by rcases h with h | h <;> cases h
  values := by simp [sampleDefinition]
  distinct := by simp [sampleDefinition]
  noValues _ := rfl
  default _ := sample_integer (by decide) (by decide) (by decide)

theorem sample_signal : WritableSignal printing64 [sampleDefinition] sampleSignal where
  name := ⟨⟨ch 'S', rfl, by decide⟩, by decide, by decide⟩
  startBit := by decide
  factor := ⟨_, rfl⟩
  offset := ⟨_, rfl⟩
  minimum := ⟨_, rfl⟩
  maximum := ⟨_, rfl⟩
  unit := isString_ascii (by decide)
  comment := isString_ascii (by decide)
  receivers := by simp [sampleSignal]
  descriptions := by simp [sampleSignal]
  attributes := sample_noAttributes _
  multiplexValue _ := rfl
  ranges := by simp [sampleSignal]
  named := by simp [sampleSignal]
  multiplexor h := absurd rfl h

theorem sample_message : WritableMessage printing64 [sampleDefinition] sampleMessage where
  name := ⟨⟨ch 'E', rfl, by decide⟩, by decide, by decide⟩
  isFd := by decide
  transmitter := .inr ⟨⟨ch 'G', rfl, by decide⟩, by decide, by decide⟩
  additionalTransmitters := by simp [sampleMessage]
  comment := isString_ascii (by decide)
  signals := by
    intro s hs
    obtain rfl := List.mem_singleton.1 hs
    exact sample_signal
  attributes := by
    refine ⟨List.pairwise_singleton _ _, fun a ha => ?_⟩
    obtain rfl := List.mem_singleton.1 ha
    exact ⟨isString_ascii (by decide), sample_integer (by decide) (by decide) (by decide)⟩

/-- It can be written. -/
theorem sample_writable (opt : WriteOptions) : Writable printing64 sampleDatabase opt where
  valid := sample_valid
  version := isString_ascii (by decide)
  comment := isString_ascii (by decide)
  symbols := .inl (by decide)
  newSymbols := by
    intro s hs
    obtain rfl := List.mem_singleton.1 hs
    exact ⟨⟨⟨ch 'C', rfl, by decide⟩, by decide, by decide⟩, by decide⟩
  valueTables := by simp [sampleDatabase]
  nodes := by
    intro n hn
    obtain rfl := List.mem_singleton.1 hn
    exact ⟨⟨⟨ch 'G', rfl, by decide⟩, by decide, by decide⟩, isString_ascii (by decide),
      sample_noAttributes _⟩
  messages := by
    intro m hm
    obtain rfl := List.mem_singleton.1 hm
    exact sample_message
  definitions := by
    intro d hd
    obtain rfl := List.mem_singleton.1 hd
    exact sample_definition
  definitionNames := List.nodup_singleton _
  attributes := sample_noAttributes _

/-! ### Texts -/

/-- **A text that is edited harmlessly is read as the database that was written**, less the
transmitters and the receivers that are deleted. -/
theorem parseString_edited {e : Edit} (h : Writable D db opt) (he : e.Harmless db) (name : Text) :
    ∃ r : ParseResult R, parseString (editedText db opt e) name = .ok r ∧
      (∀ d ∈ r.diagnostics, d.severity ≠ .error) ∧ r.database.equals (e.database db) = true := by
  obtain ⟨r, hparse, htolerable, hdatabase⟩ := parseString_harmless h he name
  exact ⟨r, hparse, htolerable, hdatabase ▸ h.reread_equals e⟩

theorem parseString_edited_sample : ∃ r : ParseResult Binary64,
    parseString (editedText sampleDatabase {} { semicolon := fun _ => true }) [] = .ok r ∧
      (∀ d ∈ r.diagnostics, d.severity ≠ .error) ∧
      r.database.equals (Edit.database { semicolon := fun _ => true } sampleDatabase) = true :=
  parseString_edited (sample_writable {}) (Edit.harmless_semicolons _ _) []

end Dbc
end Canforge
