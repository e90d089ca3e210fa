/-
# CAN identifiers and frames

`core/include/canforge/core/Frame.hpp` and `core/src/Frame.cpp`: `CanId`,
`FrameFlags`, the data length code tables and `BasicFrame`, with the errors of
`core/include/canforge/core/Result.hpp` its constructor reports.  An identifier
carries the proof that it is in range, a frame the proof that its payload array
has the capacity of its type.
-/

import Canforge.Core.Word

namespace Canforge
namespace Core

/-- `ErrorCode`. -/
inductive ErrorCode
  | ok
  | invalidArgument
  | outOfRange
  | notImplemented
  | unsupported
  | frameBadIdentifier
  | frameBadDlc
  | frameBadFlags
  | framePayloadTooLarge
  | codecSignalOutOfBounds
  | codecBadBitLength
  | codecBadFactor
  | codecValueNotFinite
  | codecMultiplexMismatch
  | codecUnknownSignal
  | parseIoError
  | parseBadEncoding
  | parseUnexpectedToken
  | parseUnexpectedEof
  | parseBadNumber
  | parseUnterminatedString
  | parseUnknownKeyword
  | parseDuplicateDefinition
  | parseUndefinedReference
  | parseSemantic
  | transportOpenFailed
  | transportNotOpen
  | transportWriteFailed
  | transportReadFailed
  | transportTimeout
  | transportUnsupported
  | transportOverflow
  | logBadFormat
  | logUnsupportedVersion
  | logEndOfFile
  deriving DecidableEq, Repr

/-- `Error`: a code, its text and the two words of `ErrorDetail`. -/
structure Error where
  code : ErrorCode := .ok
  message : String := ""
  detail : ℕ × ℕ := (0, 0)
  deriving DecidableEq, Repr

/-- `Result<T>`. -/
abbrev Result (α : Type) := Except Error α

/-- `Result::value()`.  On an error the program aborts; the model returns
`default` there. -/
def Result.value {α : Type} [Inhabited α] : Result α → α
  | .ok a => a
  | .error _ => default

/-! ### Identifiers -/

/-- `kStandardIdMax`: 11 bits. -/
def kStandardIdMax : BitVec 32 := 0x7FF#32

/-- `kExtendedIdMax`: 29 bits. -/
def kExtendedIdMax : BitVec 32 := 0x1FFFFFFF#32

/-- `kEffFlag`: bit 31 marks an extended identifier. -/
def kEffFlag : BitVec 32 := 0x80000000#32

/-- What the constructors of `CanId` let through. -/
def CanId.InRange (packed : BitVec 32) : Prop :=
  packed ≤ kStandardIdMax ∨ (kEffFlag ≤ packed ∧ packed - kEffFlag ≤ kExtendedIdMax)

instance (packed : BitVec 32) : Decidable (CanId.InRange packed) :=
  inferInstanceAs (Decidable (_ ∨ _))

/-- `CanId`: an identifier that cannot be out of range. -/
structure CanId where
  packed : BitVec 32
  inRange : CanId.InRange packed
  deriving DecidableEq

instance : Inhabited CanId := ⟨⟨0, .inl (by decide)⟩⟩

theorem CanId.inRange_standard : CanId.InRange 0x123 := .inl (by decide)

theorem CanId.inRange_extended : CanId.InRange 0x80000004 := .inr (by decide)

/-- `CanId::standard`. -/
def CanId.standard (id : BitVec 32) : Result CanId :=
  if h : id ≤ kStandardIdMax then .ok ⟨id, .inl h⟩
  else .error ⟨.frameBadIdentifier, "standard CAN identifier does not fit in 11 bits",
    (id.toNat, kStandardIdMax.toNat)⟩

theorem CanId.or_kEffFlag_toNat {id : BitVec 32} (h : id ≤ kExtendedIdMax) :
    (id ||| kEffFlag).toNat = id.toNat + 2 ^ 31 := by
  have hlt : id.toNat ≤ 0x1FFFFFFF := h
  have := Nat.two_pow_add_eq_or_of_lt (i := 31) (b := id.toNat) (by omega) 1
  rw [BitVec.toNat_or, Nat.lor_comm, show kEffFlag.toNat = 2 ^ 31 * 1 from rfl, ← this]
  omega

/-- The constructor of `CanId` for an extended identifier. -/
theorem CanId.inRange_or_kEffFlag {id : BitVec 32} (h : id ≤ kExtendedIdMax) :
    CanId.InRange (id ||| kEffFlag) := by
  have hlt : id.toNat ≤ 0x1FFFFFFF := h
  have hor := or_kEffFlag_toNat h
  refine .inr ?_
  unfold kEffFlag kExtendedIdMax at *
  bv_omega

/-- `CanId::extended`. -/
def CanId.extended (id : BitVec 32) : Result CanId :=
  if h : id ≤ kExtendedIdMax then .ok ⟨id ||| kEffFlag, inRange_or_kEffFlag h⟩
  else .error ⟨.frameBadIdentifier, "extended CAN identifier does not fit in 29 bits",
    (id.toNat, kExtendedIdMax.toNat)⟩

/-- `value`. -/
def CanId.value (id : CanId) : BitVec 32 := id.packed &&& kExtendedIdMax

/-- `is_extended`. -/
def CanId.isExtended (id : CanId) : Bool := decide (id.packed &&& kEffFlag ≠ 0)

/-- `CanId::from_packed`. -/
def CanId.fromPacked (packed : BitVec 32) : Result CanId :=
  let id := packed &&& kExtendedIdMax
  if packed &&& kEffFlag ≠ 0 then CanId.extended id else CanId.standard id

theorem CanId.value_toNat (id : CanId) : id.value.toNat = id.packed.toNat % 2 ^ 29 := by
  rw [value, BitVec.toNat_and, ← Nat.and_two_pow_sub_one_eq_mod]
  rfl

theorem CanId.isExtended_iff (id : CanId) : id.isExtended = true ↔ 2 ^ 31 ≤ id.packed.toNat := by
  have hlt := id.packed.isLt
  have hand : (id.packed &&& kEffFlag).toNat = (id.packed.toNat.testBit 31).toNat * 2 ^ 31 := by
    rw [BitVec.toNat_and, ← Nat.and_two_pow]
    rfl
  rw [isExtended, decide_eq_true_iff, Ne, ← BitVec.toNat_inj, hand]
  rw [Nat.testBit_eq_decide_div_mod_eq]
  by_cases h : id.packed.toNat / 2 ^ 31 % 2 = 1
  · simp only [h, decide_true]
    simp
    omega
  · simp only [h, decide_false]
    simp
    omega

/-- A standard identifier is its value. -/
theorem CanId.standard_value {id : CanId} (h : id.isExtended = false) :
    id.packed = id.value ∧ id.value ≤ kStandardIdMax := by
  have hle : id.packed ≤ kStandardIdMax := by
    rcases id.inRange with hr | ⟨hr, -⟩
    · exact hr
    · exact absurd (id.isExtended_iff.2 hr) (by rw [h]; decide)
  have hnat : id.packed.toNat ≤ 0x7FF := hle
  have hval : id.packed = id.value := by
    refine BitVec.eq_of_toNat_eq ?_
    rw [id.value_toNat, Nat.mod_eq_of_lt (by omega)]
  exact ⟨hval, hval ▸ hle⟩

/-- An extended identifier is its value with bit 31 set. -/
theorem CanId.extended_value {id : CanId} (h : id.isExtended = true) :
    id.packed = id.value ||| kEffFlag ∧ id.value ≤ kExtendedIdMax := by
  have hge := id.isExtended_iff.1 h
  have hsub : id.packed.toNat - 2 ^ 31 ≤ 0x1FFFFFFF := by
    rcases id.inRange with hr | ⟨hr, hs⟩
    · have : id.packed.toNat ≤ 0x7FF := hr
      omega
    · unfold kEffFlag kExtendedIdMax at hs
      bv_omega
  have hval : id.value.toNat = id.packed.toNat - 2 ^ 31 := by
    rw [id.value_toNat]
    omega
  have hle : id.value ≤ kExtendedIdMax := by
    rw [BitVec.le_def, hval]
    exact hsub
  refine ⟨BitVec.eq_of_toNat_eq ?_, hle⟩
  rw [CanId.or_kEffFlag_toNat hle, hval]
  omega

theorem CanId.standard_eq {id : CanId} (h : id.isExtended = false) :
    CanId.standard id.value = .ok id := by
  obtain ⟨hpacked, hle⟩ := CanId.standard_value h
  rw [CanId.standard, dif_pos hle]
  simp only [← hpacked]

theorem CanId.extended_eq {id : CanId} (h : id.isExtended = true) :
    CanId.extended id.value = .ok id := by
  obtain ⟨hpacked, hle⟩ := CanId.extended_value h
  rw [CanId.extended, dif_pos hle]
  simp only [← hpacked]

/-- **The packed form gives the identifier back.** -/
theorem CanId.fromPacked_packed (id : CanId) : CanId.fromPacked id.packed = .ok id := by
  unfold CanId.fromPacked
  cases h : id.isExtended with
  | false => exact (if_neg (of_decide_eq_false h)).trans (CanId.standard_eq h)
  | true => exact (if_pos (of_decide_eq_true h)).trans (CanId.extended_eq h)

/-! ### Flags and data length codes -/

/-- `FrameFlags`, a set of bits. -/
abbrev FrameFlags := BitVec 8

namespace FrameFlags

def none : FrameFlags := 0
def rtr : FrameFlags := 1
def error : FrameFlags := 2
def fd : FrameFlags := 4
def brs : FrameFlags := 8
def esi : FrameFlags := 16

/-- The unions of the enumerators. -/
def Valid (flags : FrameFlags) : Prop := flags &&& 0x1F = flags

instance (flags : FrameFlags) : Decidable flags.Valid := inferInstanceAs (Decidable (_ = _))

end FrameFlags

/-- `has_flag`. -/
def hasFlag (set bit : FrameFlags) : Bool := decide (set &&& bit ≠ FrameFlags.none)

/-- `kFdDlcToLength`. -/
def kFdDlcToLength : List ℕ := [0, 1, 2, 3, 4, 5, 6, 7, 8, 12, 16, 20, 24, 32, 48, 64]

/-- `dlc_to_length`. -/
def dlcToLength (dlc : ℕ) (fd : Bool) : ℕ :=
  if 15 < dlc then 0
  else if fd then kFdDlcToLength.getD dlc 0
  else if 8 < dlc then 8 else dlc

/-- `DlcFit`. -/
structure DlcFit where
  dlc : ℕ
  length : ℕ
  padding : ℕ
  deriving DecidableEq, Repr

/-- `length_to_dlc`. -/
def lengthToDlc (len : ℕ) (fd : Bool) : Result DlcFit :=
  let limit := if fd then 64 else 8
  if limit < len then
    .error ⟨.framePayloadTooLarge, "no data length code can carry this many bytes", (len, limit)⟩
  else if !fd then
    .ok ⟨len, len, 0⟩
  else
    match kFdDlcToLength.findIdx? (len ≤ ·) with
    | some dlc =>
      let encoded := kFdDlcToLength.getD dlc 0
      .ok ⟨dlc, encoded, encoded - len⟩
    | none => .error ⟨.frameBadDlc, "unreachable: no data length code found", (0, 0)⟩

/-! ### Frames -/

/-- `BasicFrame<Capacity>`. -/
structure BasicFrame (capacity : ℕ) where
  timestampNs : ℕ := 0
  id : CanId
  dlc : ℕ := 0
  flags : FrameFlags := FrameFlags.none
  data : List Byte
  data_length : data.length = capacity
  deriving DecidableEq

/-- `FdFrame`. -/
abbrev FdFrame := BasicFrame 64

namespace BasicFrame

variable {capacity : ℕ}

instance : Inhabited (BasicFrame capacity) :=
  ⟨{ id := default, data := List.replicate capacity 0, data_length := List.length_replicate }⟩

/-- A frame buffer of zeros. -/
theorem zeros_length : (List.replicate 64 (0 : Byte)).length = 64 := List.length_replicate

/-- `is_fd`. -/
def isFd (f : BasicFrame capacity) : Bool := hasFlag f.flags FrameFlags.fd

/-- `is_error_frame`. -/
def isErrorFrame (f : BasicFrame capacity) : Bool := hasFlag f.flags FrameFlags.error

/-- `is_brs`. -/
def isBrs (f : BasicFrame capacity) : Bool := hasFlag f.flags FrameFlags.brs

/-- `is_esi`. -/
def isEsi (f : BasicFrame capacity) : Bool := hasFlag f.flags FrameFlags.esi

/-- `is_remote`. -/
def isRemote (f : BasicFrame capacity) : Bool := hasFlag f.flags FrameFlags.rtr

/-- `size`. -/
def size (f : BasicFrame capacity) : ℕ := if f.isRemote then 0 else dlcToLength f.dlc f.isFd

/-- The bytes `data()[0] … data()[size() - 1]`. -/
def bytes (f : BasicFrame capacity) : List Byte := f.data.take f.size

/-- `validate_flags`. -/
def validateFlags (capacity : ℕ) (flags : FrameFlags) : Result Unit :=
  let fd := hasFlag flags FrameFlags.fd
  if fd && decide (capacity < 64) then
    .error ⟨.frameBadFlags, "this frame type cannot hold a CAN FD payload", (0, 0)⟩
  else if fd && hasFlag flags FrameFlags.rtr then
    .error ⟨.frameBadFlags, "CAN FD has no remote frames", (0, 0)⟩
  else if !fd && (hasFlag flags FrameFlags.brs || hasFlag flags FrameFlags.esi) then
    .error ⟨.frameBadFlags, "BRS and ESI are only defined for CAN FD frames", (0, 0)⟩
  else .ok ()

/-- The payload array after `memcpy(data_, bytes, len)`. -/
def store (capacity : ℕ) (bytes : List Byte) : List Byte :=
  (bytes ++ List.replicate capacity 0).take capacity

theorem store_length (capacity : ℕ) (bytes : List Byte) :
    (store capacity bytes).length = capacity := by
  simp [store]

/-- `make`. -/
def make (capacity : ℕ) (id : CanId) (bytes : List Byte) (flags : FrameFlags)
    (timestampNs : ℕ := 0) : Result (BasicFrame capacity) := do
  validateFlags capacity flags
  if hasFlag flags FrameFlags.rtr && bytes.length != 0 then
    throw ⟨.frameBadFlags, "a remote frame carries no data bytes", (0, 0)⟩
  if capacity < bytes.length then
    throw ⟨.framePayloadTooLarge, "payload exceeds the frame capacity", (bytes.length, capacity)⟩
  let fit ← lengthToDlc bytes.length (hasFlag flags FrameFlags.fd)
  if fit.padding != 0 then
    throw ⟨.frameBadDlc,
      "CAN FD has no data length code for this size; pad the payload to the next encodable length",
      (bytes.length, fit.length)⟩
  return { id, dlc := fit.dlc, flags, timestampNs, data := store capacity bytes,
           data_length := store_length capacity bytes }

/-- `make_remote`. -/
def makeRemote (capacity : ℕ) (id : CanId) (requestedLen : ℕ) (timestampNs : ℕ := 0) :
    Result (BasicFrame capacity) :=
  if 8 < requestedLen then
    .error ⟨.frameBadDlc, "a remote frame may request at most 8 bytes", (requestedLen, 8)⟩
  else
    .ok { id, dlc := requestedLen, flags := FrameFlags.rtr, timestampNs,
          data := store capacity [], data_length := store_length capacity [] }

/-- `from_wire` of a buffer that holds at least the bytes of the code. -/
def fromWire (capacity : ℕ) (id : CanId) (dlc : ℕ) (bytes : List Byte) (flags : FrameFlags)
    (timestampNs : ℕ := 0) : Result (BasicFrame capacity) := do
  validateFlags capacity flags
  if 15 < dlc then
    throw ⟨.frameBadDlc, "a data length code has four bits", (dlc, 15)⟩
  let len := dlcToLength dlc (hasFlag flags FrameFlags.fd)
  if capacity < len then
    throw ⟨.framePayloadTooLarge, "payload exceeds the frame capacity", (len, capacity)⟩
  return { id, dlc, flags, timestampNs, data := store capacity (bytes.take len),
           data_length := store_length capacity (bytes.take len) }

/-- `operator==`: everything but the timestamp and the bytes past the payload. -/
def Same (a b : BasicFrame capacity) : Prop :=
  a.id = b.id ∧ a.dlc = b.dlc ∧ a.flags = b.flags ∧ a.data.take a.size = b.data.take a.size

instance (a b : BasicFrame capacity) : Decidable (a.Same b) :=
  inferInstanceAs (Decidable (_ ∧ _))

end BasicFrame

end Core
end Canforge
