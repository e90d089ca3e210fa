/-
# Signals, messages and databases

`core/include/canforge/core/{Signal,Message,Database}.hpp` with their sources, as far as a
simulation uses them: `find_signal`, `find_message`, the encoding of a signal into a frame and
what `validate` checks at each level.
-/

import Canforge.Core.Codec
import Canforge.Core.Scaling

namespace Canforge
namespace Core

/-- `Frame`. -/
abbrev Frame := BasicFrame 8

namespace BasicFrame

variable {capacity : ℕ} (f : BasicFrame capacity)

/-- `make_empty`. -/
def makeEmpty (capacity : ℕ) (id : CanId) (len : ℕ) : Result (BasicFrame capacity) :=
  make capacity id (List.replicate len 0) FrameFlags.none

/-- The frame after its bytes were written to `data()`. -/
def setData (d : List Byte) : BasicFrame capacity :=
  { f with data := store capacity d, data_length := store_length capacity d }

/-- `set_timestamp_ns`. -/
def setTimestampNs (ns : ℕ) : BasicFrame capacity := { f with timestampNs := ns }

@[simp] theorem setData_size (d : List Byte) : (f.setData d).size = f.size := rfl

@[simp] theorem setTimestampNs_size (ns : ℕ) : (f.setTimestampNs ns).size = f.size := rfl

end BasicFrame

/-- `MultiplexRole`. -/
inductive MultiplexRole
  | none
  | multiplexor
  | multiplexed
  | both
  deriving DecidableEq, Repr

/-- `MuxRange`: a closed range of multiplexor values. -/
structure MuxRange where
  low : BitVec 32 := 0
  high : BitVec 32 := 0
  deriving DecidableEq, Repr

/-- `contains`. -/
def MuxRange.contains (r : MuxRange) (v : BitVec 32) : Bool := r.low ≤ v && v ≤ r.high

/-- `AttributeType`. -/
inductive AttributeType
  | int
  | hex
  | float
  | string
  | enum
  deriving DecidableEq, Repr

/-- `AttributeValue`. -/
structure AttributeValue (R : Type) where
  type : AttributeType := .int
  number : R
  text : Text := []
  deriving DecidableEq

/-- `AttributeMap`: its entries in the order of the keys, each key once. -/
abbrev AttributeMap (R : Type) := List (Text × AttributeValue R)

/-- `find`. -/
def AttributeMap.find {R : Type} (a : AttributeMap R) (key : Text) : Option (AttributeValue R) :=
  (a.find? (·.1 = key)).map (·.2)

/-- `map[key] = value`. -/
def AttributeMap.set {R : Type} (key : Text) (value : AttributeValue R) :
    AttributeMap R → AttributeMap R
  | [] => [(key, value)]
  | (k, v) :: rest =>
    if k = key then (key, value) :: rest
    else if key < k then (key, value) :: (k, v) :: rest
    else (k, v) :: AttributeMap.set key value rest

/-- `AttributeObject`: what an attribute belongs to. -/
inductive AttributeObject
  | database
  | node
  | message
  | signal
  | envVar
  deriving DecidableEq, Repr

/-- `AttributeDefinition`. -/
structure AttributeDefinition (R : Type) where
  name : Text := []
  object : AttributeObject := .database
  type : AttributeType := .int
  minimum : R
  maximum : R
  enumValues : List Text := []
  defaultValue : AttributeValue R
  hasDefault : Bool := false
  deriving DecidableEq

/-- `ValueDescription`. -/
structure ValueDescription where
  value : ℤ := 0
  text : Text := []
  deriving DecidableEq, Repr

/-- `ValueTable`. -/
structure ValueTable where
  name : Text := []
  values : List ValueDescription := []
  deriving DecidableEq, Repr

/-- `BitTiming`. -/
structure BitTiming where
  baudrate : BitVec 32 := 0
  btr1 : BitVec 32 := 0
  btr2 : BitVec 32 := 0
  deriving DecidableEq, Repr

/-- `Signal`. -/
structure Signal (R : Type) where
  name : Text
  layout : ScaledLayout R
  multiplexRole : MultiplexRole := .none
  multiplexValue : BitVec 32 := 0
  multiplexRanges : List MuxRange := []
  multiplexorName : Text := []
  attributes : AttributeMap R := []
  unit : Text := []
  comment : Text := []
  receivers : List Text := []
  valueDescriptions : List ValueDescription := []

/-- `Message`; its length is in bytes. -/
structure Message (R : Type) where
  name : Text
  id : CanId
  dlc : ℕ
  transmitter : Text := []
  isFd : Bool := false
  signals : List (Signal R) := []
  comment : Text := []
  additionalTransmitters : List Text := []
  attributes : AttributeMap R := []

/-- `Node`. -/
structure Node (R : Type) where
  name : Text
  comment : Text := []
  attributes : AttributeMap R := []

/-- `Database`. -/
structure Database (R : Type) where
  messages : List (Message R) := []
  nodes : List (Node R) := []
  version : Text := []
  comment : Text := []
  newSymbols : List Text := []
  bitTiming : Option BitTiming := none
  valueTables : List ValueTable := []
  attributeDefinitions : List (AttributeDefinition R) := []
  attributes : AttributeMap R := []

/-- A loop that returns the first error. -/
def checkAll {α : Type} (check : α → Result Unit) : List α → Result Unit
  | [] => .ok ()
  | a :: rest =>
    match check a with
    | .error e => .error e
    | .ok () => checkAll check rest

theorem checkAll_eq_ok_iff {α : Type} {check : α → Result Unit} {l : List α} :
    checkAll check l = .ok () ↔ ∀ a ∈ l, check a = .ok () := by
  induction l with
  | nil => simp [checkAll]
  | cons a l ih =>
    rw [checkAll, List.forall_mem_cons]
    cases ha : check a with
    | error e => simp
    | ok u => simpa using ih

variable {R : Type} [Scalar R]

namespace Signal

variable {capacity : ℕ} (s : Signal R) (f : BasicFrame capacity)

/-- `decode` of a frame. -/
def decode : Option R := s.layout.decode f.data

/-- `encode` into a frame: the status and the frame after the call. -/
def encode (physical : R) : Option (Result Unit × BasicFrame capacity) :=
  if s.layout.fits f.size then do
    match ← s.layout.encode physical f.data with
    | .ok d => some (.ok (), f.setData d)
    | .error e => some (.error e, f)
  else
    some (.error ⟨.codecSignalOutOfBounds, "signal does not fit in the frame payload",
      (s.layout.startBit, s.layout.bitLength)⟩, f)

/-- A multiplexor that no other one switches. -/
def isRoot (s : Signal R) : Bool :=
  decide (s.multiplexRole = .multiplexor) && s.multiplexorName.isEmpty

end Signal

namespace Message

variable (m : Message R)

/-- `find_signal`. -/
def findSignal (name : Text) : Option (Signal R) := m.signals.find? (·.name = name)

/-- `validate`. -/
def validate : Result Unit :=
  let limit := if m.isFd then 64 else 8
  if limit < m.dlc then
    .error ⟨.parseSemantic, "message length exceeds what the frame format allows", (m.dlc, limit)⟩
  else
    match checkAll (·.layout.validate m.dlc) m.signals with
    | .error e => .error e
    | .ok () =>
      let roots := m.signals.countP (·.isRoot)
      if ¬(m.signals.map (·.name)).Nodup then
        .error ⟨.parseDuplicateDefinition, "two signals in this message share a name", (0, 0)⟩
      else if 1 < roots then
        .error ⟨.parseSemantic, "a message may have only one top level multiplexor", (roots, 1)⟩
      else .ok ()

variable {m}

omit [Scalar R] in
theorem mem_of_findSignal {name : Text} {s : Signal R} (h : m.findSignal name = some s) :
    s ∈ m.signals ∧ s.name = name :=
  ⟨List.mem_of_find?_eq_some h, of_decide_eq_true (List.find?_some h :)⟩

/-- **What a valid message is**: short enough for its format, and all its signals fit. -/
theorem of_validate (h : m.validate = .ok ()) :
    m.dlc ≤ (if m.isFd then 64 else 8) ∧ ∀ s ∈ m.signals, s.layout.validate m.dlc = .ok () := by
  unfold validate at h
  dsimp only at h
  by_cases hlen : (if m.isFd then 64 else 8) < m.dlc
  · rw [if_pos hlen] at h
    cases h
  · rw [if_neg hlen] at h
    cases hall : checkAll (·.layout.validate m.dlc) m.signals with
    | error e =>
      rw [hall] at h
      cases h
    | ok u => exact ⟨Nat.le_of_not_lt hlen, checkAll_eq_ok_iff.1 hall⟩

/-- The signals of a valid message have different names. -/
theorem names_nodup_of_validate (h : m.validate = .ok ()) : (m.signals.map (·.name)).Nodup := by
  by_contra hdup
  unfold validate at h
  dsimp only at h
  by_cases hlen : (if m.isFd then 64 else 8) < m.dlc
  · rw [if_pos hlen] at h
    cases h
  · rw [if_neg hlen] at h
    cases hall : checkAll (·.layout.validate m.dlc) m.signals with
    | error e =>
      rw [hall] at h
      cases h
    | ok u =>
      rw [hall] at h
      dsimp only at h
      rw [if_pos hdup] at h
      cases h

end Message

namespace Database

variable (db : Database R)

/-- `find_message` of an identifier. -/
def findMessage (id : CanId) : Option (Message R) := db.messages.find? (·.id = id)

/-- `find_message` of a name. -/
def findMessageNamed (name : Text) : Option (Message R) := db.messages.find? (·.name = name)

/-- What two messages may not share. -/
def clash (m other : Message R) : Result Unit :=
  if m.id = other.id then
    .error ⟨.parseDuplicateDefinition, "two messages share a CAN identifier",
      (m.id.value.toNat, 0)⟩
  else if m.name = other.name then
    .error ⟨.parseDuplicateDefinition, "two messages share a name", (0, 0)⟩
  else .ok ()

/-- The outer loop of `validate`. -/
def validateMessages : List (Message R) → Result Unit
  | [] => .ok ()
  | m :: rest =>
    match m.validate with
    | .error e => .error e
    | .ok () =>
      match checkAll (clash m) rest with
      | .error e => .error e
      | .ok () => validateMessages rest

/-- `validate`. -/
def validate : Result Unit :=
  match validateMessages db.messages with
  | .error e => .error e
  | .ok () =>
    if ¬(db.nodes.map (·.name)).Nodup then
      .error ⟨.parseDuplicateDefinition, "two nodes share a name", (0, 0)⟩
    else .ok ()

variable {db}

theorem validate_of_validateMessages {ms : List (Message R)} (h : validateMessages ms = .ok ()) :
    ∀ m ∈ ms, m.validate = .ok () := by
  induction ms with
  | nil =>
    intro m hm
    cases hm
  | cons b ms ih =>
    rw [validateMessages] at h
    split at h
    · cases h
    rename_i hb
    split at h
    · cases h
    rw [List.forall_mem_cons]
    exact ⟨hb, ih h⟩

/-- **Every message of a valid database is valid.** -/
theorem validate_of_mem (h : db.validate = .ok ()) {m : Message R} (hm : m ∈ db.messages) :
    m.validate = .ok () := by
  unfold validate at h
  split at h
  · cases h
  rename_i hall
  exact validate_of_validateMessages hall m hm

omit [Scalar R] in
theorem clash_eq_ok_iff {m other : Message R} :
    clash m other = .ok () ↔ m.id ≠ other.id ∧ m.name ≠ other.name := by
  unfold clash
  split_ifs with hid hname
  · simp [hid]
  · simp [hname]
  · simp [hid, hname]

/-- The messages of a valid database have different identifiers. -/
theorem ids_nodup_of_validate (h : db.validate = .ok ()) : (db.messages.map (·.id)).Nodup := by
  have hall (ms : List (Message R)) (hms : validateMessages ms = .ok ()) :
      (ms.map (·.id)).Nodup := by
    induction ms with
    | nil => exact List.nodup_nil
    | cons m ms ih =>
      rw [validateMessages] at hms
      split at hms
      · cases hms
      split at hms
      · cases hms
      rename_i hclash
      refine List.nodup_cons.2 ⟨fun hmem => ?_, ih hms⟩
      obtain ⟨other, hother, hid⟩ := List.mem_map.1 hmem
      exact (clash_eq_ok_iff.1 (checkAll_eq_ok_iff.1 hclash other hother)).1 hid.symm
  unfold validate at h
  split at h
  · cases h
  rename_i hmessages
  exact hall db.messages hmessages

/-- The nodes of a valid database have different names. -/
theorem nodeNames_nodup_of_validate (h : db.validate = .ok ()) :
    (db.nodes.map (·.name)).Nodup := by
  unfold validate at h
  split at h
  · cases h
  split_ifs at h with hdup
  exact hdup

omit [Scalar R] in
theorem mem_of_findMessageNamed {name : Text} {m : Message R}
    (h : db.findMessageNamed name = some m) : m ∈ db.messages := List.mem_of_find?_eq_some h

end Database

end Core
end Canforge
