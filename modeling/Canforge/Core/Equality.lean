/-
# Equal databases

The `operator==` of `Attribute.hpp`, `Database.hpp`, `Signal.cpp`, `Message.cpp` and `Database.cpp`.
Two vectors, and two maps, are equal where their elements are, one after the other; a default counts
only where both definitions have one.
-/

import Canforge.Core.Message

namespace Canforge
namespace Core

variable {R : Type} [Scalar R]

/-- `operator==`. -/
def AttributeValue.equals (a b : AttributeValue R) : Bool :=
  decide (a.type = b.type) && Scalar.eq a.number b.number && decide (a.text = b.text)

/-- `operator==` of two maps. -/
def AttributeMap.equals (a b : AttributeMap R) : Bool :=
  List.isEqv a b fun x y => decide (x.1 = y.1) && x.2.equals y.2

/-- `operator==`. -/
def AttributeDefinition.equals (a b : AttributeDefinition R) : Bool :=
  decide (a.name = b.name) && decide (a.object = b.object) && decide (a.type = b.type) &&
    Scalar.eq a.minimum b.minimum && Scalar.eq a.maximum b.maximum &&
    decide (a.enumValues = b.enumValues) && decide (a.hasDefault = b.hasDefault) &&
    (!a.hasDefault || a.defaultValue.equals b.defaultValue)

/-- `operator==`. -/
def ScaledLayout.equals (a b : ScaledLayout R) : Bool :=
  decide (a.startBit = b.startBit) && decide (a.bitLength = b.bitLength) &&
    decide (a.byteOrder = b.byteOrder) && decide (a.signedness = b.signedness) &&
    decide (a.valueType = b.valueType) && Scalar.eq a.factor b.factor &&
    Scalar.eq a.offset b.offset && Scalar.eq a.minimum b.minimum && Scalar.eq a.maximum b.maximum

/-- `operator==`. -/
def Signal.equals (a b : Signal R) : Bool :=
  decide (a.name = b.name) && decide (a.unit = b.unit) && decide (a.comment = b.comment) &&
    decide (a.multiplexorName = b.multiplexorName) && decide (a.receivers = b.receivers) &&
    decide (a.multiplexRanges = b.multiplexRanges) &&
    decide (a.valueDescriptions = b.valueDescriptions) &&
    AttributeMap.equals a.attributes b.attributes && a.layout.equals b.layout &&
    decide (a.multiplexRole = b.multiplexRole) && decide (a.multiplexValue = b.multiplexValue)

/-- `operator==`. -/
def Message.equals (a b : Message R) : Bool :=
  decide (a.id = b.id) && decide (a.name = b.name) && decide (a.dlc = b.dlc) &&
    decide (a.transmitter = b.transmitter) && decide (a.comment = b.comment) &&
    decide (a.additionalTransmitters = b.additionalTransmitters) &&
    List.isEqv a.signals b.signals Signal.equals &&
    AttributeMap.equals a.attributes b.attributes && decide (a.isFd = b.isFd)

/-- `operator==`. -/
def Node.equals (a b : Node R) : Bool :=
  decide (a.name = b.name) && decide (a.comment = b.comment) &&
    AttributeMap.equals a.attributes b.attributes

/-- `operator==`. -/
def Database.equals (a b : Database R) : Bool :=
  decide (a.version = b.version) && decide (a.comment = b.comment) &&
    decide (a.newSymbols = b.newSymbols) && decide (a.bitTiming = b.bitTiming) &&
    List.isEqv a.nodes b.nodes Node.equals && List.isEqv a.messages b.messages Message.equals &&
    decide (a.valueTables = b.valueTables) &&
    List.isEqv a.attributeDefinitions b.attributeDefinitions AttributeDefinition.equals &&
    AttributeMap.equals a.attributes b.attributes

/-- A list whose elements are changed is equal to it where every element is. -/
theorem isEqv_map_left {α : Type} {eqv : α → α → Bool} {f : α → α} {l : List α} :
    List.isEqv (l.map f) l eqv = true ↔ ∀ a ∈ l, eqv (f a) a = true := by
  induction l with
  | nil => simp
  | cons a l ih => rw [List.map_cons, List.isEqv, Bool.and_eq_true, ih, List.forall_mem_cons]

end Core
end Canforge
