/-
# The CAN objects of a BLF file

The payloads of CAN_MESSAGE and CAN_FD_MESSAGE as `transport/src/BlfLog.cpp`
documents them, and what the reader makes of an object that holds one
(`next_object`).  A CAN_MESSAGE is decoded unless it is a remote frame that
requests data: its length is passed on as the length of a payload.  The data of
a CAN_FD_MESSAGE is taken four bytes behind the place where it begins, so that
the frame is right only where those bytes agree.
-/

import Canforge.Transport.BlfWalk

namespace Canforge
namespace Transport

open Canforge.Core Lib Outcome

/-! ### Fields -/

/-- The bytes of a `u16`. -/
def u16Bytes (x : BitVec 16) : List Byte := [x.setWidth 8, (x >>> 8).setWidth 8]

/-- The bytes of a `u32`. -/
def u32Bytes (x : BitVec 32) : List Byte :=
  u16Bytes (x.setWidth 16) ++ u16Bytes ((x >>> 16).setWidth 16)

theorem readU16_u16Bytes (x : BitVec 16) (rest : List Byte) :
    readU16 (u16Bytes x ++ rest) 0 = x.toNat := by
  have hlt := x.isLt
  simp only [readU16, u16Bytes, List.cons_append, List.nil_append, List.getD_cons_zero,
    List.getD_cons_succ, BitVec.toNat_setWidth, BitVec.toNat_ushiftRight, Nat.shiftRight_eq_div_pow]
  omega

theorem readU16_drop (data : List Byte) (k offset : ℕ) :
    readU16 (data.drop k) offset = readU16 data (k + offset) := by
  simp only [readU16, List.getD_eq_getElem?_getD, List.getElem?_drop, Nat.add_assoc]

theorem readU32_drop (data : List Byte) (k offset : ℕ) :
    readU32 (data.drop k) offset = readU32 data (k + offset) := by
  simp only [readU32, readU16_drop, Nat.add_assoc]

theorem readU32_u32Bytes (x : BitVec 32) (rest : List Byte) :
    readU32 (u32Bytes x ++ rest) 0 = x.toNat := by
  have hlt := x.isLt
  have hhigh := readU16_drop (u32Bytes x ++ rest) 2 0
  rw [u32Bytes, List.append_assoc] at hhigh ⊢
  have hdrop : (u16Bytes (x.setWidth 16) ++ (u16Bytes ((x >>> 16).setWidth 16) ++ rest)).drop 2 =
      u16Bytes ((x >>> 16).setWidth 16) ++ rest := rfl
  rw [hdrop, readU16_u16Bytes] at hhigh
  rw [readU32, readU16_u16Bytes, ← hhigh]
  simp only [BitVec.toNat_setWidth, BitVec.toNat_ushiftRight, Nat.shiftRight_eq_div_pow]
  omega

/-- The bytes of a `u64`. -/
def u64Bytes (x : BitVec 64) : List Byte :=
  u32Bytes (x.setWidth 32) ++ u32Bytes ((x >>> 32).setWidth 32)

theorem readU64_drop (data : List Byte) (k offset : ℕ) :
    readU64 (data.drop k) offset = readU64 data (k + offset) := by
  simp only [readU64, readU32_drop, Nat.add_assoc]

theorem readU64_u64Bytes (x : BitVec 64) (rest : List Byte) :
    readU64 (u64Bytes x ++ rest) 0 = x.toNat := by
  have hlt := x.isLt
  have hhigh := readU32_drop (u64Bytes x ++ rest) 4 0
  rw [u64Bytes, List.append_assoc] at hhigh ⊢
  have hdrop : (u32Bytes (x.setWidth 32) ++ (u32Bytes ((x >>> 32).setWidth 32) ++ rest)).drop 4 =
      u32Bytes ((x >>> 32).setWidth 32) ++ rest := rfl
  rw [hdrop, readU32_u32Bytes] at hhigh
  rw [readU64, readU32_u32Bytes, ← hhigh]
  simp only [BitVec.toNat_setWidth, BitVec.toNat_ushiftRight, Nat.shiftRight_eq_div_pow]
  omega

/-! ### The header -/

/-- The header base and the header of version 1. -/
structure DocumentedHeader where
  headerVersion : BitVec 16
  objectSize : BitVec 32
  objectType : BitVec 32
  flags : BitVec 32
  clientIndex : BitVec 16
  objectVersion : BitVec 16
  timestamp : BitVec 64

/-- `signature[4] "LOBJ", headerSize u16, headerVersion u16, objectSize u32, objectType u32,
objectFlags u32, clientIndex u16, objectVersion u16, objectTimeStamp u64`. -/
def DocumentedHeader.bytes (d : DocumentedHeader) : List Byte :=
  ascii "LOBJ" ++ u16Bytes 32 ++ u16Bytes d.headerVersion ++ u32Bytes d.objectSize ++
    u32Bytes d.objectType ++ u32Bytes d.flags ++ u16Bytes d.clientIndex ++
    u16Bytes d.objectVersion ++ u64Bytes d.timestamp

theorem DocumentedHeader.bytes_length (d : DocumentedHeader) : d.bytes.length = 32 := by
  simp [DocumentedHeader.bytes, u16Bytes, u32Bytes, u64Bytes, ascii]

/-- The header at a position. -/
def DocumentedHeader.header (d : DocumentedHeader) (cursor : ℕ) : ObjectHeader where
  headerSize := 32
  headerVersion := d.headerVersion.toNat
  objectSize := d.objectSize.toNat
  objectType := d.objectType.toNat
  flags := d.flags.toNat
  timestamp := d.timestamp.toNat
  payloadOffset := cursor + 32

/-- **A documented header is read field by field.** -/
theorem readHeader_documented (d : DocumentedHeader) (before after : List Byte)
    (hsize : 32 ≤ d.objectSize.toNat) (hfits : d.objectSize.toNat ≤ 32 + after.length) :
    readHeader (before ++ (d.bytes ++ after)) before.length = .ok (d.header before.length) ∧
      objectPayload (before ++ (d.bytes ++ after)) before.length (d.header before.length) =
        after.take (d.objectSize.toNat - 32) := by
  have hlen : (before ++ (d.bytes ++ after)).length = before.length + (32 + after.length) := by
    rw [List.length_append, List.length_append, d.bytes_length]
  have hat : (before ++ (d.bytes ++ after)).drop before.length = d.bytes ++ after :=
    List.drop_left
  have hread (k : ℕ) :
      (before ++ (d.bytes ++ after)).drop (before.length + k) = (d.bytes ++ after).drop k := by
    rw [← List.drop_drop, hat]
  have h16 (k : ℕ) : readU16 (before ++ (d.bytes ++ after)) (before.length + k) =
      readU16 ((d.bytes ++ after).drop k) 0 := by
    rw [← hread, readU16_drop, Nat.add_zero]
  have h32 (k : ℕ) : readU32 (before ++ (d.bytes ++ after)) (before.length + k) =
      readU32 ((d.bytes ++ after).drop k) 0 := by
    rw [← hread, readU32_drop, Nat.add_zero]
  have h64 (k : ℕ) : readU64 (before ++ (d.bytes ++ after)) (before.length + k) =
      readU64 ((d.bytes ++ after).drop k) 0 := by
    rw [← hread, readU64_drop, Nat.add_zero]
  have hheaderSize : readU16 ((d.bytes ++ after).drop 4) 0 = 32 := readU16_u16Bytes 32 _
  have hversion : readU16 ((d.bytes ++ after).drop 6) 0 = d.headerVersion.toNat := by
    rw [← readU16_u16Bytes d.headerVersion]
    rfl
  have hobject : readU32 ((d.bytes ++ after).drop 8) 0 = d.objectSize.toNat := by
    rw [← readU32_u32Bytes d.objectSize]
    rfl
  have htype : readU32 ((d.bytes ++ after).drop 12) 0 = d.objectType.toNat := by
    rw [← readU32_u32Bytes d.objectType]
    rfl
  have hflags : readU32 ((d.bytes ++ after).drop 16) 0 = d.flags.toNat := by
    rw [← readU32_u32Bytes d.flags]
    rfl
  have htime : readU64 ((d.bytes ++ after).drop 24) 0 = d.timestamp.toNat := by
    rw [← readU64_u64Bytes d.timestamp]
    rfl
  have hsignature : (d.bytes ++ after).take 4 = ascii "LOBJ" := rfl
  constructor
  · rw [readHeader, if_neg (by omega), hat, hsignature, if_neg (not_not_intro rfl), h16, h16, h32,
      h32, h32, h64, hheaderSize, hversion, hobject, htype, hflags, htime]
    have hv1 : 32 ≤ 32 ∧ before.length + 32 ≤ (before ++ (d.bytes ++ after)).length :=
      ⟨le_rfl, by omega⟩
    dsimp only
    rw [if_neg (by omega), if_pos hv1]
    dsimp only
    rw [if_neg (by omega)]
    rfl
  · have hbody : (before ++ (d.bytes ++ after)).drop (before.length + 32) = after := hread 32
    have htake : before.length + d.objectSize.toNat - (before.length + 32) =
        d.objectSize.toNat - 32 := Nat.add_sub_add_left _ _ _
    rw [objectPayload, DocumentedHeader.header, hbody, htake]

/-- **The identifier of an object** is the one whose packed form it holds. -/
theorem blfId_packed (id : CanId) : blfId id.packed.toNat = .ok id := by
  have hof : BitVec.ofNat 32 id.packed.toNat = id.packed := BitVec.ofNat_toNat 32 id.packed
  have hbit : id.packed.toNat.testBit 31 = id.isExtended := by
    rw [Bool.eq_iff_iff, id.isExtended_iff, Nat.testBit_eq_decide_div_mod_eq, decide_eq_true_iff]
    have hlt := id.packed.isLt
    omega
  rw [blfId, hbit, hof]
  cases h : id.isExtended with
  | true => exact CanId.extended_eq h
  | false =>
    obtain ⟨hpacked, hle⟩ := CanId.standard_value h
    have hmask : id.packed &&& 0x7FF = id.value := by
      have hlow : id.value.toNat ≤ 0x7FF := hle
      refine BitVec.eq_of_toNat_eq ?_
      rw [hpacked, BitVec.toNat_and, show (0x7FF : BitVec 32).toNat = 2 ^ 11 - 1 from rfl,
        Nat.and_two_pow_sub_one_eq_mod, Nat.mod_eq_of_lt (by omega)]
    rw [if_neg Bool.false_ne_true, hmask]
    exact CanId.standard_eq h

/-! ### CAN_MESSAGE -/

/-- A CAN_MESSAGE, or what a CAN_MESSAGE2 begins with. -/
structure CanMessage where
  channel : BitVec 16
  flags : Byte
  dlc : Byte
  id : CanId
  data : List Byte
  dlc_le : dlc.toNat ≤ 15
  data_length : data.length = 8

namespace CanMessage

/-- `channel u16, flags u8, dlc u8, id u32, data[8]`. -/
def payload (m : CanMessage) : List Byte :=
  u16Bytes m.channel ++ [m.flags, m.dlc] ++ u32Bytes m.id.packed ++ m.data

/-- Bit 0 is the transmit direction. -/
def isRx (m : CanMessage) : Bool := !m.flags.getLsbD 0

/-- Bit 7 marks a remote frame. -/
def isRemote (m : CanMessage) : Bool := m.flags.getLsbD 7

end CanMessage

/-- The nanoseconds of one tick of the time stamp of an object. -/
def ObjectHeader.unit (h : ObjectHeader) : ℕ := if h.flags.testBit 1 then 1 else 10000

/-- What every CAN object says beside its data. -/
structure Describes (h : ObjectHeader) (id : CanId) (channel : BitVec 16) (isRx : Bool)
    (record : LogRecord) : Prop where
  id : record.frame.id = id
  channel : record.channel = ascii "can" ++ dec 1 channel.toNat
  isRx : record.isRx = isRx
  timestamp : h.timestamp * h.unit < 2 ^ 64 → record.frame.timestampNs = h.timestamp * h.unit

/-- **The record of a CAN_MESSAGE.** -/
structure CanMessage.Decoded (h : ObjectHeader) (m : CanMessage) (record : LogRecord) : Prop where
  describes : Describes h m.id m.channel m.isRx record
  isRemote : record.frame.isRemote = m.isRemote
  data : m.isRemote = false → record.frame.bytes = m.data.take (min m.dlc.toNat 8)
  requested : m.isRemote = true → m.dlc.toNat ≤ 8 → record.frame.dlc = m.dlc.toNat

theorem timestampNs_eq {h : ObjectHeader} (hfit : h.timestamp * h.unit < 2 ^ 64) :
    h.timestampNs = h.timestamp * h.unit := by
  unfold ObjectHeader.timestampNs ObjectHeader.unit at *
  split_ifs at hfit ⊢
  · exact (Nat.mul_one _).symm
  · exact Nat.mod_eq_of_lt hfit

theorem and_one_eq_zero_iff (flags : Byte) : decide (flags &&& 0x01 = 0) = !flags.getLsbD 0 := by
  have hall : ∀ flags : Byte, decide (flags &&& 0x01 = 0) = !flags.getLsbD 0 := by decide +kernel
  exact hall flags

theorem and_remote_ne_zero_iff (flags : Byte) : flags &&& 0x80 ≠ 0 ↔ flags.getLsbD 7 = true := by
  have hall : ∀ flags : Byte, flags &&& 0x80 ≠ 0 ↔ flags.getLsbD 7 = true := by decide +kernel
  exact hall flags

theorem CanMessage.payload_drop (m : CanMessage) (rest : List Byte) :
    (m.payload ++ rest).drop 8 = m.data ++ rest := by
  simp [CanMessage.payload, u16Bytes, u32Bytes]

theorem CanMessage.payload_length (m : CanMessage) : m.payload.length = 16 := by
  simp [CanMessage.payload, u16Bytes, u32Bytes, m.data_length]

/-- The frame a CAN_MESSAGE is made into. -/
def CanMessage.made (h : ObjectHeader) (m : CanMessage) : Result FdFrame :=
  BasicFrame.make 64 m.id (m.data.take (min m.dlc.toNat 8))
    (if m.isRemote then FrameFlags.rtr else FrameFlags.none) h.timestampNs

/-- **`parse_can_message` of the documented layout.** -/
theorem parseCanMessage_payload (h : ObjectHeader) (m : CanMessage) (rest : List Byte) :
    parseCanMessage h (m.payload ++ rest) = do
      let frame ← m.made h
      return { frame, channel := blfChannel m.channel.toNat, isRx := m.isRx } := by
  have hchannel : readU16 (m.payload ++ rest) 0 = m.channel.toNat := by
    rw [CanMessage.payload, List.append_assoc, List.append_assoc, List.append_assoc]
    exact readU16_u16Bytes _ _
  have hid : readU32 (m.payload ++ rest) 4 = m.id.packed.toNat := by
    have hdrop : (m.payload ++ rest).drop 4 = u32Bytes m.id.packed ++ (m.data ++ rest) := by
      simp [CanMessage.payload, u16Bytes]
    have hread := readU32_drop (m.payload ++ rest) 4 0
    rw [hdrop, readU32_u32Bytes] at hread
    exact hread.symm
  have hflags : (m.payload ++ rest).getD 2 0 = m.flags := rfl
  have hdlc : (m.payload ++ rest).getD 3 0 = m.dlc := rfl
  have hlen : ¬(m.payload ++ rest).length < 16 := by
    rw [List.length_append, m.payload_length]
    omega
  have hmin : (if 8 < m.dlc.toNat then 8 else m.dlc.toNat) = min m.dlc.toNat 8 := by
    split_ifs <;> omega
  have htake : (m.data ++ rest).take (min m.dlc.toNat 8) = m.data.take (min m.dlc.toNat 8) :=
    List.take_append_of_le_length (by rw [m.data_length]; omega)
  rw [parseCanMessage, if_neg hlen, hchannel, hid, hflags, hdlc, blfId_packed]
  dsimp only
  rw [hmin, m.payload_drop, htake, and_one_eq_zero_iff]
  simp only [and_remote_ne_zero_iff]
  rfl

/-- A frame that was made describes its object. -/
theorem describes_made {h : ObjectHeader} {id : CanId} {bytes : List Byte} {flags : FrameFlags}
    {frame : FdFrame} (hmade : BasicFrame.make 64 id bytes flags h.timestampNs = .ok frame)
    (channel : BitVec 16) (isRx : Bool) :
    Describes h id channel isRx { frame, channel := blfChannel channel.toNat, isRx } := by
  obtain ⟨hid, -, htime⟩ := make_id hmade
  exact ⟨hid, rfl, rfl, fun hfit => htime.trans (timestampNs_eq hfit)⟩

/-- The frame of a CAN_MESSAGE is made unless it is a remote frame that requests data. -/
theorem CanMessage.made_ok_iff {h : ObjectHeader} {m : CanMessage} :
    (∃ frame, m.made h = .ok frame) ↔ ¬(m.isRemote = true ∧ m.dlc.toNat ≠ 0) := by
  have hlen : (m.data.take (min m.dlc.toNat 8)).length = min m.dlc.toNat 8 := by
    rw [List.length_take, m.data_length]
    omega
  constructor
  · rintro ⟨frame, hmade⟩ ⟨hremote, hdlc⟩
    rw [made, hremote] at hmade
    have hempty := (make_eq_ok_iff.1 hmade).2.1 (by decide)
    rw [hempty, List.length_nil] at hlen
    omega
  · intro hplain
    cases hremote : m.isRemote with
    | true =>
      have hzero : m.dlc.toNat = 0 := by
        by_contra hdlc
        exact hplain ⟨hremote, hdlc⟩
      rw [made, hremote, hzero]
      exact ⟨_, make_eq_ok_iff.2 ⟨validateFlags_eq_ok_iff.2 (by decide), fun _ => rfl, 0, rfl, rfl⟩⟩
    | false =>
      have hfit : lengthToDlc (min m.dlc.toNat 8) false =
          .ok ⟨min m.dlc.toNat 8, min m.dlc.toNat 8, 0⟩ := by
        rw [lengthToDlc]
        exact if_neg (by simp)
      rw [made, hremote]
      refine ⟨_, make_eq_ok_iff.2 ⟨validateFlags_eq_ok_iff.2 (by decide), fun hrtr => ?_,
        min m.dlc.toNat 8, ?_, rfl⟩⟩
      · exact absurd hrtr (by decide)
      · rw [hlen]
        exact hfit

/-- The record of a frame that was made is the one of its object. -/
theorem CanMessage.decoded_made {h : ObjectHeader} {m : CanMessage} {frame : FdFrame}
    (hmade : m.made h = .ok frame) :
    m.Decoded h { frame, channel := blfChannel m.channel.toNat, isRx := m.isRx } := by
  have hplain := CanMessage.made_ok_iff.1 ⟨frame, hmade⟩
  have hflags : frame.flags = if m.isRemote then FrameFlags.rtr else FrameFlags.none :=
    (make_id hmade).2.1
  have hremote : frame.isRemote = m.isRemote := by
    rw [BasicFrame.isRemote, hflags]
    cases m.isRemote <;> rfl
  refine ⟨describes_made hmade _ _, hremote, fun _ => make_bytes hmade, fun hr _ => ?_⟩
  have hzero : m.dlc.toNat = 0 := by
    by_contra hdlc
    exact hplain ⟨hr, hdlc⟩
  rw [hzero]
  exact make_dlc_of_isRemote hmade (hremote.trans hr)

/-! ### CAN_FD_MESSAGE -/

/-- A CAN_FD_MESSAGE of a CAN FD frame. -/
structure CanFdMessage where
  channel : BitVec 16
  flags : Byte
  dlc : Byte
  id : CanId
  frameLength : BitVec 32
  arbBitCount : Byte
  canFdFlags : Byte
  validDataBytes : Byte
  reserved1 : Byte
  reserved2 : BitVec 32
  data : List Byte
  edl : canFdFlags.getLsbD 0 = true
  encodable : validDataBytes.toNat ∈ kFdDlcToLength
  data_length : data.length = 64

namespace CanFdMessage

/-- `channel u16, flags u8, dlc u8, id u32, frameLength u32, arbBitCount u8, canFdFlags u8,
validDataBytes u8, reserved u8, reserved u32, data[64]`. -/
def payload (m : CanFdMessage) : List Byte :=
  u16Bytes m.channel ++ [m.flags, m.dlc] ++ u32Bytes m.id.packed ++ u32Bytes m.frameLength ++
    [m.arbBitCount, m.canFdFlags, m.validDataBytes, m.reserved1] ++ u32Bytes m.reserved2 ++ m.data

/-- Bit 0 is the transmit direction. -/
def isRx (m : CanFdMessage) : Bool := !m.flags.getLsbD 0

/-- **The record of a CAN_FD_MESSAGE.** -/
structure Decoded (h : ObjectHeader) (m : CanFdMessage) (record : LogRecord) : Prop where
  describes : Describes h m.id m.channel m.isRx record
  isFd : record.frame.isFd = true
  isBrs : record.frame.isBrs = m.canFdFlags.getLsbD 1
  isEsi : record.frame.isEsi = m.canFdFlags.getLsbD 2
  data : record.frame.bytes = m.data.take m.validDataBytes.toNat

/-- **Where the data is right**, `rest` being what the object holds behind it: the bytes from the
fifth of the data on are there and are those from the first on.  Where the object counts no bytes,
the data length code, which is read in their place, stands for none. -/
def Agrees (m : CanFdMessage) (rest : List Byte) : Prop :=
  if m.validDataBytes.toNat = 0 then dlcToLength m.dlc.toNat true = 0
  else m.validDataBytes.toNat + 4 ≤ 64 + rest.length ∧
    ((m.data ++ rest).drop 4).take m.validDataBytes.toNat = m.data.take m.validDataBytes.toNat

instance (m : CanFdMessage) (rest : List Byte) : Decidable (m.Agrees rest) :=
  inferInstanceAs (Decidable (ite (m.validDataBytes.toNat = 0) _ (_ ∧ _)))

/-- The flags of the frame. -/
def frameFlags (m : CanFdMessage) : FrameFlags :=
  FrameFlags.fd ||| (if m.canFdFlags.getLsbD 1 then FrameFlags.brs else FrameFlags.none) |||
    (if m.canFdFlags.getLsbD 2 then FrameFlags.esi else FrameFlags.none)

/-- The length that is read. -/
def length (m : CanFdMessage) : ℕ :=
  if m.validDataBytes.toNat = 0 then dlcToLength m.dlc.toNat true else m.validDataBytes.toNat

/-- The frame a CAN_FD_MESSAGE is made into. -/
def made (h : ObjectHeader) (m : CanFdMessage) (rest : List Byte) : Result FdFrame :=
  BasicFrame.make 64 m.id (((m.data ++ rest).drop 4).take m.length) m.frameFlags h.timestampNs

theorem payload_length (m : CanFdMessage) : m.payload.length = 84 := by
  simp [payload, u16Bytes, u32Bytes, m.data_length]

theorem encodable_le (m : CanFdMessage) : m.validDataBytes.toNat ≤ 64 := by
  have hall : ∀ len ∈ kFdDlcToLength, len ≤ 64 := by decide
  exact hall _ m.encodable

/-- **`parse_can_fd_message` of the documented layout.** -/
theorem parse_payload (h : ObjectHeader) (m : CanFdMessage) (rest : List Byte) :
    parseCanFdMessage h (m.payload ++ rest) =
      if 84 + rest.length < 24 + m.length then
        .error (malformed "CAN FD payload runs past the end of the object")
      else do
        let frame ← m.made h rest
        return { frame, channel := blfChannel m.channel.toNat, isRx := m.isRx } := by
  have hchannel : readU16 (m.payload ++ rest) 0 = m.channel.toNat := by
    simp only [payload, List.append_assoc]
    exact readU16_u16Bytes _ _
  have hid : readU32 (m.payload ++ rest) 4 = m.id.packed.toNat := by
    have hread := readU32_drop (m.payload ++ rest) 4 0
    simp only [payload, List.append_assoc] at hread ⊢
    exact hread.symm.trans (readU32_u32Bytes _ _)
  have hflags : (m.payload ++ rest).getD 2 0 = m.flags := rfl
  have hdlc : (m.payload ++ rest).getD 3 0 = m.dlc := rfl
  have hfd : (m.payload ++ rest).getD 13 0 = m.canFdFlags := rfl
  have hvalid : (m.payload ++ rest).getD 14 0 = m.validDataBytes := rfl
  have hdrop : (m.payload ++ rest).drop 24 = (m.data ++ rest).drop 4 := rfl
  have hlen : ¬(m.payload ++ rest).length < 24 := by
    rw [List.length_append, m.payload_length]
    omega
  have hlength : (if m.validDataBytes.toNat = 0 ∨ 64 < m.validDataBytes.toNat then
      dlcToLength m.dlc.toNat true else m.validDataBytes.toNat) = m.length := by
    have hle := m.encodable_le
    rw [length]
    by_cases hzero : m.validDataBytes.toNat = 0
    · rw [if_pos (.inl hzero), if_pos hzero]
    · rw [if_neg (by omega), if_neg hzero]
  have hedl : decide (m.canFdFlags &&& 0x01 ≠ 0) = true := by
    have hall : ∀ flags : Byte, flags.getLsbD 0 = true → decide (flags &&& 0x01 ≠ 0) = true := by
      decide +kernel
    exact hall _ m.edl
  have hbrs : ∀ flags : Byte, flags &&& 0x02 ≠ 0 ↔ flags.getLsbD 1 = true := by decide +kernel
  have hesi : ∀ flags : Byte, flags &&& 0x04 ≠ 0 ↔ flags.getLsbD 2 = true := by decide +kernel
  rw [parseCanFdMessage, if_neg hlen, hchannel, hid, hflags, hdlc, hfd, hvalid, blfId_packed]
  dsimp only
  rw [hedl, hlength, List.length_append, m.payload_length, hdrop, and_one_eq_zero_iff]
  simp only [hbrs, hesi, if_true]
  by_cases hshort : 84 + rest.length < 24 + m.length
  · rw [if_pos hshort]
    simp only [hshort, if_true]
    rfl
  · rw [if_neg hshort]
    simp only [hshort, if_false]
    rfl

theorem frameFlags_spec (m : CanFdMessage) :
    hasFlag m.frameFlags FrameFlags.fd = true ∧ hasFlag m.frameFlags FrameFlags.rtr = false ∧
      hasFlag m.frameFlags FrameFlags.brs = m.canFdFlags.getLsbD 1 ∧
      hasFlag m.frameFlags FrameFlags.esi = m.canFdFlags.getLsbD 2 := by
  rw [frameFlags]
  cases m.canFdFlags.getLsbD 1 <;> cases m.canFdFlags.getLsbD 2 <;> decide

end CanFdMessage

/-! ### The object under the reader's cursor -/

/-- Where the next object is: in the container that was unpacked, or in the file. -/
inductive BlfReader.At (r : BlfReader) : List Byte → ℕ → Prop
  | inner (hlt : r.innerPos < r.inner.length) : r.At r.inner r.innerPos
  | file (hdone : r.inner.length ≤ r.innerPos) (hlt : r.pos < r.bytes.length) :
      r.At r.bytes r.pos

variable {r : BlfReader} {data rest : List Byte} {cursor : ℕ} {h : ObjectHeader}

/-- **`next` returns what the object under the cursor is parsed into**, a record or an error. -/
theorem next_object (hat : r.At data cursor) (hheader : readHeader data cursor = .ok h)
    (hkind : h.objectType ∈ kCanObjects) (result : Result LogRecord)
    (hparse : parseObject h (objectPayload data cursor h) = result)
    (hreturned : returned result = some result) :
    ∃ r', ∀ rounds, r.next (rounds + 1) = .ok (result, r') := by
  have hcontainer : h.objectType ≠ kObjLogContainer := by
    rintro heq
    rw [heq] at hkind
    exact absurd hkind (by decide)
  have hread : readObject data cursor = .ok { result, cursor := nextCursor data cursor h } := by
    rw [readObject, hheader]
    dsimp only
    rw [if_neg hcontainer, hparse]
    rfl
  cases hat with
  | inner hlt =>
    refine ⟨{ r with innerPos := nextCursor r.inner r.innerPos h }, fun rounds => ?_⟩
    rw [BlfReader.next, round_inner hlt hread rfl, ok_bind]
    dsimp only
    rw [hreturned]
    rfl
  | file hdone hlt =>
    refine ⟨{ r with pos := nextCursor r.bytes r.pos h, inner := [], innerPos := 0 },
      fun rounds => ?_⟩
    rw [BlfReader.next, round_file hdone hlt hread, ok_bind]
    dsimp only
    rw [hreturned]
    rfl

/-- What is not the end of the log is returned. -/
theorem returned_error {e : Error} (hcode : e.code ≠ .logEndOfFile) :
    returned (.error e) = some (.error e) := if_neg hcode

theorem frameCodes_ne_end {code : ErrorCode} (hcode : code ∈ frameCodes) :
    code ≠ .logEndOfFile := by
  rintro rfl
  exact absurd hcode (by decide)

/-- **A CAN_MESSAGE is decoded unless it is a remote frame that requests data.** -/
theorem canMessage_decoded_iff {m : CanMessage} (hat : r.At data cursor)
    (hheader : readHeader data cursor = .ok h)
    (hkind : h.objectType = kObjCanMessage ∨ h.objectType = kObjCanMessage2)
    (hpayload : objectPayload data cursor h = m.payload ++ rest) (rounds : ℕ) :
    (∃ record r', r.next (rounds + 1) = .ok (.ok record, r') ∧ m.Decoded h record) ↔
      ¬(m.isRemote = true ∧ m.dlc.toNat ≠ 0) := by
  have hmem : h.objectType ∈ kCanObjects := by
    rcases hkind with hkind | hkind <;> rw [hkind] <;> decide
  have hparse : parseObject h (objectPayload data cursor h) = do
      let frame ← m.made h
      return { frame, channel := blfChannel m.channel.toNat, isRx := m.isRx } := by
    rw [parseObject, if_pos hkind, hpayload, parseCanMessage_payload]
  rw [← CanMessage.made_ok_iff (h := h)]
  constructor
  · rintro ⟨record, r', hnext, -⟩
    cases hmade : m.made h with
    | ok frame => exact ⟨frame, rfl⟩
    | error e =>
      -- the error ends the reading: the reader returns it in place of a record
      rw [hmade] at hparse
      obtain ⟨r₁, herror⟩ := next_object hat hheader hmem (.error e) hparse
        (returned_error (frameCodes_ne_end (make_code hmade)))
      rw [herror rounds] at hnext
      cases hnext
  · rintro ⟨frame, hmade⟩
    rw [hmade] at hparse
    obtain ⟨r', hnext⟩ := next_object hat hheader hmem (.ok _) hparse rfl
    exact ⟨_, r', hnext rounds, CanMessage.decoded_made hmade⟩

/-- The header of an object with such a payload, one microsecond into the recording. -/
def headerOf (objectType : BitVec 32) (payload : List Byte) : DocumentedHeader where
  headerVersion := 1
  objectSize := BitVec.ofNat 32 (32 + payload.length)
  objectType := objectType
  flags := 2
  clientIndex := 0
  objectVersion := 0
  timestamp := 1000

/-- A reader in front of a file of one object. -/
def readerOf (objectType : BitVec 32) (payload : List Byte) : BlfReader where
  bytes := (headerOf objectType payload).bytes ++ payload
  pos := 0

theorem readerOf_at (objectType : BitVec 32) (payload : List Byte) :
    (readerOf objectType payload).At ((headerOf objectType payload).bytes ++ payload) 0 := by
  have hpos : 0 < ((headerOf objectType payload).bytes ++ payload).length := by
    rw [List.length_append, DocumentedHeader.bytes_length]
    omega
  exact .file (r := { bytes := (headerOf objectType payload).bytes ++ payload, pos := 0 })
    (Nat.zero_le _) hpos

/-- A data object, on channel 1 with eight bytes. -/
def dataMessage : CanMessage where
  channel := 1
  flags := 0
  dlc := 8
  id := ⟨0x123, CanId.inRange_standard⟩
  data := [1, 2, 3, 4, 5, 6, 7, 8]
  dlc_le := by decide
  data_length := rfl

/-- A remote object that requests two bytes. -/
def remoteMessage : CanMessage where
  channel := 1
  flags := 0x80
  dlc := 2
  id := ⟨0x123, CanId.inRange_standard⟩
  data := List.replicate 8 0
  dlc_le := by decide
  data_length := rfl

theorem canMessage_decoded_data :
    ∃ record r', (readerOf 1 dataMessage.payload).next 1 = .ok (.ok record, r') ∧
      dataMessage.Decoded ((headerOf 1 dataMessage.payload).header 0) record := by
  obtain ⟨hheader, hpayload⟩ := readHeader_documented (headerOf 1 dataMessage.payload) []
    dataMessage.payload (by decide) (by decide)
  rw [List.nil_append, List.length_nil] at hheader hpayload
  exact (canMessage_decoded_iff (readerOf_at 1 dataMessage.payload) hheader (.inl rfl)
    (hpayload.trans (List.append_nil _).symm) 0).2 (by decide)

/-- **A remote object that requests two bytes stops the reading.** -/
theorem canMessage_remote_refused :
    remoteMessage.isRemote = true ∧ remoteMessage.dlc.toNat = 2 ∧
      readHeader (readerOf 1 remoteMessage.payload).bytes 0 =
        .ok ((headerOf 1 remoteMessage.payload).header 0) ∧
      objectPayload (readerOf 1 remoteMessage.payload).bytes 0
        ((headerOf 1 remoteMessage.payload).header 0) = remoteMessage.payload ∧
      ∃ r', (readerOf 1 remoteMessage.payload).next 1 =
        .ok (.error ⟨.frameBadFlags, "a remote frame carries no data bytes", (0, 0)⟩, r') := by
  refine ⟨by decide, by decide, by decide +kernel, by decide +kernel,
    { readerOf 1 remoteMessage.payload with pos := 48 }, by decide +kernel⟩

theorem canFd_encodable {len : ℕ} (h : len ∈ kFdDlcToLength) :
    ∃ dlc, lengthToDlc len true = .ok ⟨dlc, len, 0⟩ := by
  have hall : ∀ len ∈ kFdDlcToLength, ∃ dlc < 16, lengthToDlc len true = .ok ⟨dlc, len, 0⟩ := by
    decide
  obtain ⟨dlc, -, hfit⟩ := hall len h
  exact ⟨dlc, hfit⟩

/-- The data that is read, where the object reaches to its end. -/
theorem CanFdMessage.taken_length {m : CanFdMessage} (hlong : 24 + m.length ≤ 84 + rest.length) :
    (((m.data ++ rest).drop 4).take m.length).length = m.length := by
  rw [List.length_take, List.length_drop, List.length_append, m.data_length]
  omega

/-- **The frame of a CAN_FD_MESSAGE holds its data just where the bytes agree.** -/
theorem CanFdMessage.made_agrees_iff {m : CanFdMessage} :
    (24 + m.length ≤ 84 + rest.length ∧
        ∃ frame, m.made h rest = .ok frame ∧ frame.bytes = m.data.take m.validDataBytes.toNat) ↔
      m.Agrees rest := by
  constructor
  · rintro ⟨hlong, frame, hmade, hbytes⟩
    rw [make_bytes hmade] at hbytes
    have htaken := CanFdMessage.taken_length hlong
    rw [hbytes] at htaken
    rw [Agrees]
    split_ifs with hzero
    · rw [hzero, List.take_zero, List.length_nil, length, if_pos hzero] at htaken
      exact htaken.symm
    · rw [length, if_neg hzero] at hlong hbytes
      exact ⟨by omega, hbytes⟩
  · intro hagrees
    rw [Agrees] at hagrees
    have hdata : 24 + m.length ≤ 84 + rest.length ∧ m.length ∈ kFdDlcToLength ∧
        ((m.data ++ rest).drop 4).take m.length = m.data.take m.validDataBytes.toNat := by
      rw [length]
      split_ifs at hagrees ⊢ with hzero
      · rw [hagrees, hzero]
        exact ⟨by omega, by decide, rfl⟩
      · exact ⟨by omega, m.encodable, hagrees.2⟩
    obtain ⟨hlong, hmem, hsame⟩ := hdata
    obtain ⟨hfd, hrtr, -, -⟩ := m.frameFlags_spec
    obtain ⟨dlc, hfit⟩ := canFd_encodable hmem
    have hmade : m.made h rest = .ok _ := make_eq_ok_iff.2
      ⟨validateFlags_eq_ok_iff.2 ⟨fun _ => hrtr, fun hclassic => ?_⟩, fun hr => ?_, dlc, ?_, rfl⟩
    · exact ⟨hlong, _, hmade, (make_bytes hmade).trans hsame⟩
    · rw [hfd] at hclassic
      cases hclassic
    · rw [hrtr] at hr
      cases hr
    · rw [hfd, CanFdMessage.taken_length hlong]
      exact hfit

/-- **A CAN_FD_MESSAGE is decoded where its data agrees with itself four bytes later.** -/
theorem canFdMessage_decoded_iff {m : CanFdMessage} (hat : r.At data cursor)
    (hheader : readHeader data cursor = .ok h)
    (hkind : h.objectType = kObjCanFdMessage ∨ h.objectType = kObjCanFdMessage64)
    (hpayload : objectPayload data cursor h = m.payload ++ rest) (rounds : ℕ) :
    (∃ record r', r.next (rounds + 1) = .ok (.ok record, r') ∧ m.Decoded h record) ↔
      m.Agrees rest := by
  have hmem : h.objectType ∈ kCanObjects := by
    rcases hkind with hkind | hkind <;> rw [hkind] <;> decide
  have hother : ¬(h.objectType = kObjCanMessage ∨ h.objectType = kObjCanMessage2) := by
    rcases hkind with hkind | hkind <;> rw [hkind] <;> decide
  have hparse : parseObject h (objectPayload data cursor h) =
      if 84 + rest.length < 24 + m.length then
        .error (malformed "CAN FD payload runs past the end of the object")
      else do
        let frame ← m.made h rest
        return { frame, channel := blfChannel m.channel.toNat, isRx := m.isRx } := by
    rw [parseObject, if_neg hother, if_pos hkind, hpayload, m.parse_payload]
  rw [← CanFdMessage.made_agrees_iff (h := h)]
  constructor
  · rintro ⟨record, r', hnext, hdecoded⟩
    by_cases hshort : 84 + rest.length < 24 + m.length
    · rw [if_pos hshort] at hparse
      obtain ⟨r₁, herror⟩ := next_object hat hheader hmem (.error _) hparse (returned_error (by decide))
      rw [herror rounds] at hnext
      cases hnext
    rw [if_neg hshort] at hparse
    cases hmade : m.made h rest with
    | error e =>
      rw [hmade] at hparse
      obtain ⟨r₁, herror⟩ := next_object hat hheader hmem (.error e) hparse
        (returned_error (frameCodes_ne_end (make_code hmade)))
      rw [herror rounds] at hnext
      cases hnext
    | ok frame =>
      rw [hmade] at hparse
      obtain ⟨r₁, hread⟩ := next_object hat hheader hmem (.ok _) hparse rfl
      rw [hread rounds] at hnext
      cases hnext
      exact ⟨Nat.not_lt.1 hshort, frame, rfl, hdecoded.data⟩
  · rintro ⟨hlong, frame, hmade, hdata⟩
    rw [if_neg (Nat.not_lt.2 hlong), hmade] at hparse
    obtain ⟨r', hnext⟩ := next_object hat hheader hmem (.ok _) hparse rfl
    obtain ⟨hfd, -, hbrs, hesi⟩ := m.frameFlags_spec
    have hflags : frame.flags = m.frameFlags := (make_id hmade).2.1
    refine ⟨_, r', hnext rounds, describes_made hmade _ _, ?_, ?_, ?_, hdata⟩
    · rw [BasicFrame.isFd, hflags, hfd]
    · rw [BasicFrame.isBrs, hflags, hbrs]
    · rw [BasicFrame.isEsi, hflags, hesi]

/-- A CAN FD frame with eight of the 64 bytes. -/
def fdMessage (data : List Byte) (hdata : data.length = 64) : CanFdMessage where
  channel := 1
  flags := 0
  dlc := 8
  id := ⟨0x123, CanId.inRange_standard⟩
  frameLength := 0
  arbBitCount := 0
  canFdFlags := 3
  validDataBytes := 8
  reserved1 := 0
  reserved2 := 0
  data := data
  edl := by decide
  encodable := by decide
  data_length := hdata

/-- Eight bytes that are all the same. -/
def constantMessage : CanFdMessage := fdMessage (List.replicate 64 0) rfl

/-- Bytes that are all different. -/
def countingMessage : CanFdMessage := fdMessage ((List.range 64).map (BitVec.ofNat 8)) rfl

theorem canFdMessage_decoded_constant :
    ∃ record r', (readerOf 100 constantMessage.payload).next 1 = .ok (.ok record, r') ∧
      constantMessage.Decoded ((headerOf 100 constantMessage.payload).header 0) record := by
  obtain ⟨hheader, hpayload⟩ := readHeader_documented (headerOf 100 constantMessage.payload) []
    constantMessage.payload (by decide +kernel) (by decide +kernel)
  rw [List.nil_append, List.length_nil] at hheader hpayload
  exact (canFdMessage_decoded_iff (readerOf_at 100 constantMessage.payload) hheader (.inl rfl)
    (hpayload.trans (List.append_nil _).symm) 0).2 (by decide +kernel)

/-- **The data of a CAN FD object is read four bytes too far on**: eight bytes that count from 0
are read as those that count from 4. -/
theorem canFdMessage_data_shifted :
    readHeader (readerOf 100 countingMessage.payload).bytes 0 =
        .ok ((headerOf 100 countingMessage.payload).header 0) ∧
      objectPayload (readerOf 100 countingMessage.payload).bytes 0
        ((headerOf 100 countingMessage.payload).header 0) = countingMessage.payload ∧
      countingMessage.data.take countingMessage.validDataBytes.toNat = [0, 1, 2, 3, 4, 5, 6, 7] ∧
      ∃ record r', (readerOf 100 countingMessage.payload).next 1 = .ok (.ok record, r') ∧
        record.frame.bytes = [4, 5, 6, 7, 8, 9, 10, 11] := by
  refine ⟨by decide +kernel, by decide +kernel, by decide +kernel,
    { frame := ⟨1000, ⟨0x123, CanId.inRange_standard⟩, 8, countingMessage.frameFlags,
        BasicFrame.store 64 [4, 5, 6, 7, 8, 9, 10, 11], BasicFrame.store_length _ _⟩
      channel := ascii "can1" }, { readerOf 100 countingMessage.payload with pos := 116 }, ?_, ?_⟩
  · decide +kernel
  · decide +kernel

end Transport
end Canforge
