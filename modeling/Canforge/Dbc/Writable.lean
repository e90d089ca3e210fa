/-
# What can be written

`Writable D db opt` says which databases are read back as they were written: they pass
`validate`, their names are identifiers, their strings are text without carriage returns, their
numbers are finite, their attributes are typed as their definitions say, and what has no meaning
for a kind of attribute or multiplexing holds its default value.
-/

import Canforge.Dbc.Lines

namespace Canforge
namespace Dbc

open Canforge.Core Text Lib

/-! ### Texts and numbers -/

/-- A character of a name. -/
def isNameChar (c : Byte) : Bool := isAlpha c || isDigit c || decide (c = ch '_')

/-- An identifier, which stands for no node at least. -/
structure IsName (w : Text) : Prop where
  first : ∃ c ∈ w.head?, isNameChar c = true ∧ isDigit c = false
  all : ∀ c ∈ w, isNameChar c = true
  some : w ≠ kNoNode

/-- UTF-8 without a carriage return. -/
structure IsString (w : Text) : Prop where
  valid : isValidUtf8 w = true
  noCr : cr ∉ w

/-- An integer of 64 bits that is a `double`. -/
structure IsKey (z : ℤ) : Prop where
  low : -2 ^ 63 ≤ z
  high : z < 2 ^ 63
  bits : HasBits 53 z

/-- The key and the text of a description. -/
def WritableDescription (v : ValueDescription) : Prop := IsKey v.value ∧ IsString v.text

section

variable {R : Type} [Scalar R] [Printed R]

/-- A finite number. -/
def Finite (D : Printing R) (x : R) : Prop := ∃ q, D.value x = some q

/-- An integer. -/
def Integral (D : Printing R) (x : R) : Prop := ∃ z : ℤ, D.value x = some (z : ℚ)

/-- An integer of 64 bits. -/
def Integral64 (D : Printing R) (x : R) : Prop :=
  ∃ z : ℤ, D.value x = some (z : ℚ) ∧ -2 ^ 63 ≤ z ∧ z < 2 ^ 63

variable (D : Printing R)

/-! ### Attributes -/

/-- A value of its type, among the values of an enumeration. -/
def WritableOf (values : List Text) (v : AttributeValue R) : Prop :=
  match v.type with
  | .int => Integral64 D v.number ∧ v.text = []
  | .hex => Integral64 D v.number ∧ v.text = []
  | .float => Finite D v.number ∧ v.text = []
  | .string => D.value v.number = some 0 ∧ IsString v.text
  | .enum => ∃ i : ℕ, i < 2 ^ 63 ∧ values[i]? = some v.text ∧ D.value v.number = some (i : ℚ)

/-- A value that is typed as its definition says; without a definition, a number or a string. -/
def WritableValue (definition : Option (AttributeDefinition R)) (v : AttributeValue R) : Prop :=
  match definition with
  | some d => v.type = d.type ∧ WritableOf D d.enumValues v
  | none => (v.type = .float ∨ v.type = .string) ∧ WritableOf D [] v

/-- The definition of an attribute. -/
structure WritableDefinition (d : AttributeDefinition R) : Prop where
  name : IsString d.name
  minimum : Finite D d.minimum
  maximum : Finite D d.maximum
  /-- The bounds of integers are integers. -/
  integral : d.type = .int ∨ d.type = .hex → Integral D d.minimum ∧ Integral D d.maximum
  /-- A string and an enumeration have no bounds. -/
  unbounded : d.type = .string ∨ d.type = .enum →
    D.value d.minimum = some 0 ∧ D.value d.maximum = some 0
  values : ∀ v ∈ d.enumValues, IsString v
  distinct : d.enumValues.Nodup
  noValues : d.type ≠ .enum → d.enumValues = []
  default : d.hasDefault = true → WritableValue D (some d) d.defaultValue

/-- The attributes of an object, in the order of their names. -/
structure WritableAttributes (definitions : List (AttributeDefinition R)) (map : AttributeMap R) :
    Prop where
  ordered : (map.map (·.1)).Pairwise (· < ·)
  values : ∀ a ∈ map, IsString a.1 ∧ WritableValue D (definitions.find? (·.name = a.1)) a.2

/-! ### Databases -/

/-- A signal. -/
structure WritableSignal (definitions : List (AttributeDefinition R)) (s : Signal R) : Prop where
  name : IsName s.name
  startBit : s.layout.startBit ≤ 511
  factor : Finite D s.layout.factor
  offset : Finite D s.layout.offset
  minimum : Finite D s.layout.minimum
  maximum : Finite D s.layout.maximum
  unit : IsString s.unit
  comment : IsString s.comment
  receivers : ∀ r ∈ s.receivers, IsName r
  descriptions : ∀ v ∈ s.valueDescriptions, WritableDescription v
  attributes : WritableAttributes D definitions s.attributes
  /-- Only a multiplexed signal has a value of its multiplexor. -/
  multiplexValue : s.multiplexRole = .none ∨ s.multiplexRole = .multiplexor → s.multiplexValue = 0
  ranges : ∀ r ∈ s.multiplexRanges, r.low ≤ r.high
  named : s.multiplexRanges = [] ↔ s.multiplexorName = []
  multiplexor : s.multiplexorName ≠ [] →
    IsName s.multiplexorName ∧ (s.multiplexRole = .multiplexed ∨ s.multiplexRole = .both)

/-- A message. -/
structure WritableMessage (definitions : List (AttributeDefinition R)) (m : Message R) : Prop where
  name : IsName m.name
  isFd : m.isFd = true ↔ 8 < m.dlc
  transmitter : m.transmitter = [] ∨ IsName m.transmitter
  additionalTransmitters : ∀ n ∈ m.additionalTransmitters, IsName n
  comment : IsString m.comment
  signals : ∀ s ∈ m.signals, WritableSignal D definitions s
  attributes : WritableAttributes D definitions m.attributes

/-- A node. -/
structure WritableNode (definitions : List (AttributeDefinition R)) (n : Node R) : Prop where
  name : IsName n.name
  comment : IsString n.comment
  attributes : WritableAttributes D definitions n.attributes

/-- A table of values. -/
structure WritableTable (t : ValueTable) : Prop where
  name : IsName t.name
  values : ∀ v ∈ t.values, WritableDescription v

/-- **A database that is read back as it was written.** -/
structure Writable (db : Database R) (opt : WriteOptions) : Prop where
  valid : db.validate = .ok ()
  version : IsString db.version
  comment : IsString db.comment
  /-- There are symbols, or none are made up. -/
  symbols : db.newSymbols ≠ [] ∨ opt.synthesiseNewSymbols = false
  newSymbols : ∀ s ∈ db.newSymbols, IsName s ∧ s ≠ ascii "BS_"
  valueTables : ∀ t ∈ db.valueTables, WritableTable t
  nodes : ∀ n ∈ db.nodes, WritableNode D db.attributeDefinitions n
  messages : ∀ m ∈ db.messages, WritableMessage D db.attributeDefinitions m
  definitions : ∀ d ∈ db.attributeDefinitions, WritableDefinition D d
  definitionNames : (db.attributeDefinitions.map (·.name)).Nodup
  attributes : WritableAttributes D db.attributeDefinitions db.attributes

end

end Dbc
end Canforge
