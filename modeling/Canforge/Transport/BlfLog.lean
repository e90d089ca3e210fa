/-
# Vector BLF

`transport/src/BlfLog.cpp`: the object header, the CAN objects, the containers
and `BlfReader`, with `inflate_zlib` and `adler32` of
`transport/src/Inflate.cpp`.  A field is the number its bytes stand for, a
position in a buffer a natural number.  The rounded size of an object is computed
in 32 bits, the start of a container by a subtraction in 64 bits.
-/

import Canforge.Transport.Inflate
import Canforge.Transport.LogFormat

namespace Canforge
namespace Transport

open Canforge.Core Lib Outcome

/-! ### zlib -/

/-- One byte of `adler32`. -/
def adlerStep (sums : ℕ × ℕ) (b : Byte) : ℕ × ℕ :=
  let a := (sums.1 + b.toNat) % 65521
  (a, (sums.2 + a) % 65521)

/-- `adler32`. -/
def adler32 (data : List Byte) : BitVec 32 :=
  let (a, b) := data.foldl adlerStep (1, 0)
  BitVec.ofNat 32 b <<< 16 ||| BitVec.ofNat 32 a

/-- The checksum at the end of a zlib stream, big end first. -/
def storedChecksum (data : List Byte) : BitVec 32 :=
  let tail := data.drop (data.length - 4)
  (tail.getD 0 0).setWidth 32 <<< 24 ||| (tail.getD 1 0).setWidth 32 <<< 16 |||
    (tail.getD 2 0).setWidth 32 <<< 8 ||| (tail.getD 3 0).setWidth 32

/-- `inflate_zlib`. -/
def inflateZlib (data : List Byte) (expectedSize : ℕ) : Checked (List Byte) :=
  if data.length < 6 then bad "zlib stream is too short to contain a header and a checksum"
  else
    let cmf := data.getD 0 0
    let flg := data.getD 1 0
    if cmf &&& 0x0F ≠ 8 then
      .error ⟨.logBadFormat, "zlib compression method is not deflate", (cmf.toNat, 0)⟩
    else if (cmf.toNat * 256 + flg.toNat) % 31 ≠ 0 then bad "zlib header check bits are wrong"
    else if flg &&& 0x20 ≠ 0 then bad "zlib preset dictionaries are not supported"
    else do
      let out ← inflateRaw ((data.drop 2).take (data.length - 6)) expectedSize
      if storedChecksum data ≠ adler32 out then
        bad "zlib checksum mismatch: the container is corrupt"
      else pure out

/-! ### Objects -/

def kObjCanMessage : ℕ := 1
def kObjLogContainer : ℕ := 10
def kObjCanMessage2 : ℕ := 86
def kObjCanFdMessage : ℕ := 100
def kObjCanFdMessage64 : ℕ := 101

/-- `read_u16`. -/
def readU16 (data : List Byte) (offset : ℕ) : ℕ :=
  (data.getD offset 0).toNat + (data.getD (offset + 1) 0).toNat * 2 ^ 8

/-- `read_u32`. -/
def readU32 (data : List Byte) (offset : ℕ) : ℕ := readU16 data offset + readU16 data (offset + 2) * 2 ^ 16

/-- `read_u64`. -/
def readU64 (data : List Byte) (offset : ℕ) : ℕ := readU32 data offset + readU32 data (offset + 4) * 2 ^ 32

/-- `ObjectHeader`. -/
structure ObjectHeader where
  headerSize : ℕ
  headerVersion : ℕ
  objectSize : ℕ
  objectType : ℕ
  flags : ℕ := 0
  timestamp : ℕ := 0
  payloadOffset : ℕ
  deriving DecidableEq

/-- `timestamp_ns`: ten microseconds is the default unit. -/
def ObjectHeader.timestampNs (h : ObjectHeader) : ℕ :=
  if h.flags.testBit 1 then h.timestamp else h.timestamp * 10000 % 2 ^ 64

/-- `read_header`. -/
def readHeader (data : List Byte) (offset : ℕ) : Result ObjectHeader :=
  if data.length < offset + 16 then .error (malformed "truncated object header")
  else if (data.drop offset).take 4 ≠ ascii "LOBJ" then
    .error (malformed "missing the LOBJ signature" (offset % 2 ^ 32))
  else
    let headerSize := readU16 data (offset + 4)
    let headerVersion := readU16 data (offset + 6)
    let objectSize := readU32 data (offset + 8)
    let objectType := readU32 data (offset + 12)
    if objectSize < 16 ∨ data.length < offset + objectSize then
      .error (malformed "object size runs past the end of the data" objectSize)
    else
      let h : ObjectHeader :=
        if 32 ≤ headerSize ∧ offset + 32 ≤ data.length then
          { headerSize, headerVersion, objectSize, objectType, flags := readU32 data (offset + 16),
            timestamp := readU64 data (offset + 24), payloadOffset := offset + headerSize }
        else
          { headerSize, headerVersion, objectSize, objectType,
            payloadOffset := offset + if 16 ≤ headerSize then headerSize else 16 }
      if offset + objectSize < h.payloadOffset then
        .error (malformed "object header is larger than the object")
      else .ok h

/-- The identifier of a CAN object. -/
def blfId (rawId : ℕ) : Result CanId :=
  if rawId.testBit 31 then CanId.extended (BitVec.ofNat 32 rawId &&& 0x1FFFFFFF)
  else CanId.standard (BitVec.ofNat 32 rawId &&& 0x7FF)

/-- The name of a channel. -/
def blfChannel (channel : ℕ) : Text := ascii "can" ++ dec 1 channel

/-- `parse_can_message`. -/
def parseCanMessage (h : ObjectHeader) (p : List Byte) : Result LogRecord :=
  if p.length < 16 then .error (malformed "truncated CAN_MESSAGE object")
  else do
    let channel := readU16 p 0
    let flags := p.getD 2 0
    let dlc := (p.getD 3 0).toNat
    let id ← blfId (readU32 p 4)
    let frameFlags := if flags &&& 0x80 ≠ 0 then FrameFlags.rtr else FrameFlags.none
    let length := if 8 < dlc then 8 else dlc
    let frame ← BasicFrame.make 64 id ((p.drop 8).take length) frameFlags h.timestampNs
    return { frame, channel := blfChannel channel, isRx := decide (flags &&& 0x01 = 0) }

/-- `parse_can_fd_message`. -/
def parseCanFdMessage (h : ObjectHeader) (p : List Byte) : Result LogRecord :=
  if p.length < 24 then .error (malformed "truncated CAN_FD_MESSAGE object")
  else do
    let channel := readU16 p 0
    let flags := p.getD 2 0
    let dlc := (p.getD 3 0).toNat
    let fdFlags := p.getD 13 0
    let validBytes := (p.getD 14 0).toNat
    let id ← blfId (readU32 p 4)
    let edl := decide (fdFlags &&& 0x01 ≠ 0)
    let frameFlags :=
      if edl then
        FrameFlags.fd ||| (if fdFlags &&& 0x02 ≠ 0 then FrameFlags.brs else FrameFlags.none) |||
          (if fdFlags &&& 0x04 ≠ 0 then FrameFlags.esi else FrameFlags.none)
      else FrameFlags.none
    let length := if validBytes = 0 ∨ 64 < validBytes then dlcToLength dlc edl else validBytes
    if p.length < 24 + length then
      throw (malformed "CAN FD payload runs past the end of the object")
    let frame ← BasicFrame.make 64 id ((p.drop 24).take length) frameFlags h.timestampNs
    return { frame, channel := blfChannel channel, isRx := decide (flags &&& 0x01 = 0) }

/-! ### Containers -/

/-- The size of an object rounded up to four bytes, in 32 bits. -/
def ObjectHeader.aligned (h : ObjectHeader) : ℕ := (h.objectSize + 3) % 2 ^ 32 / 4 * 4

/-- Where the payload of a container may begin: the first place that fits. -/
def payloadStart (data : List Byte) (method uncompressedSize objectEnd : ℕ) : List ℕ → ℕ
  | [] => 0
  | candidate :: candidates =>
    if objectEnd < candidate + 2 then payloadStart data method uncompressedSize objectEnd candidates
    else if method = 0 then
      -- the payload length is known, so the right offset is the one that gives it
      if objectEnd - candidate = uncompressedSize then candidate
      else payloadStart data method uncompressedSize objectEnd candidates
    else
      -- a plausible zlib header
      let cmf := data.getD candidate 0
      let flg := data.getD (candidate + 1) 0
      if cmf &&& 0x0F = 8 ∧ (cmf.toNat * 256 + flg.toNat) % 31 = 0 then candidate
      else payloadStart data method uncompressedSize objectEnd candidates

/-- The data of the container whose object begins at `objectStart`. -/
def unpackFrom (data : List Byte) (objectStart : ℕ) (h : ObjectHeader) : Checked (List Byte) :=
  let body := (objectStart + 16) % 2 ^ 64
  let objectEnd := (objectStart + h.objectSize) % 2 ^ 64
  if objectEnd < (body + 12) % 2 ^ 64 then .error (malformed "truncated log container header")
  else
    let method := readU16 data body
    let uncompressedSize := readU32 data (body + 8)
    if kMaxInflateOutput < uncompressedSize then
      .error (malformed "log container claims an implausible uncompressed size" uncompressedSize)
    else
      let start := payloadStart data method uncompressedSize objectEnd [body + 12, body + 16]
      if start = 0 then .error (malformed "cannot locate the container payload")
      else
        let payload := (data.drop start).take (objectEnd - start)
        if method = 0 then pure payload else inflateZlib payload uncompressedSize

/-- `object_start` of `unpack_container`: what `read_object` added, taken back. -/
def objectStart (after : ℕ) (h : ObjectHeader) : ℕ := (after + 2 ^ 64 - h.aligned) % 2 ^ 64

/-- `unpack_container`: what it puts in `inner_`. -/
def unpackContainer (data : List Byte) (after : ℕ) (h : ObjectHeader) : Checked (List Byte) :=
  unpackFrom data (objectStart after h) h

/-! ### The reader -/

/-- The cursor behind an object, held at the end of the buffer. -/
def nextCursor (data : List Byte) (cursor : ℕ) (h : ObjectHeader) : ℕ :=
  if data.length < cursor + h.aligned then data.length else cursor + h.aligned

/-- What `read_object` leaves: its result, the cursor, and the new `inner_` if there is one. -/
structure ObjectRead where
  result : Result LogRecord
  cursor : ℕ
  inner : Option (List Byte) := none

/-- The payload of an object. -/
def objectPayload (data : List Byte) (cursor : ℕ) (h : ObjectHeader) : List Byte :=
  (data.drop h.payloadOffset).take (cursor + h.objectSize - h.payloadOffset)

/-- The switch of `read_object` over the objects that are no container. -/
def parseObject (h : ObjectHeader) (payload : List Byte) : Result LogRecord :=
  if h.objectType = kObjCanMessage ∨ h.objectType = kObjCanMessage2 then parseCanMessage h payload
  else if h.objectType = kObjCanFdMessage ∨ h.objectType = kObjCanFdMessage64 then
    parseCanFdMessage h payload
  else .error ⟨.logEndOfFile, "not a CAN object", (0, 0)⟩

/-- `read_object`. -/
def readObject (data : List Byte) (cursor : ℕ) : Checked ObjectRead :=
  match readHeader data cursor with
  | .error e => pure { result := .error e, cursor }
  | .ok h =>
    let payload := objectPayload data cursor h
    let cursor := nextCursor data cursor h
    if h.objectType = kObjLogContainer then
      match unpackContainer data cursor h with
      | .ok inner =>
        pure { result := .error ⟨.logEndOfFile, "container consumed", (0, 0)⟩, cursor,
               inner := some inner }
      | .error e => pure { result := .error e, cursor }
      | .undefined => .undefined
    else pure { result := parseObject h payload, cursor }

/-- `BlfReader`. -/
structure BlfReader where
  bytes : List Byte
  inner : List Byte := []
  pos : ℕ
  innerPos : ℕ := 0
  deriving DecidableEq

/-- `BlfReader::open` of a file with these bytes. -/
def BlfReader.openBytes (bytes : List Byte) : Result BlfReader :=
  if bytes.length < 144 then .error (malformed "the file is shorter than a BLF header")
  else if bytes.take 4 ≠ ascii "LOGG" then .error (malformed "missing the LOGG signature")
  else
    let headerSize := readU32 bytes 4
    if headerSize < 16 ∨ bytes.length < headerSize then
      .error (malformed "implausible BLF header size" headerSize)
    else .ok { bytes, pos := headerSize }

/-- The result the loops of `next` return: `LogEndOfFile` of `read_object` is no frame. -/
def returned (result : Result LogRecord) : Option (Result LogRecord) :=
  match result with
  | .ok record => some (.ok record)
  | .error e => if e.code = .logEndOfFile then none else some (.error e)

/-- One round of the loops of `next`: an object of the container, or one of the file.  A container
inside a container replaces the data it is read from. -/
def BlfReader.round (r : BlfReader) : Checked (Option (Result LogRecord) × BlfReader) :=
  if r.innerPos < r.inner.length then do
    let read ← readObject r.inner r.innerPos
    let r :=
      match read.inner with
      | some inner => { r with inner, innerPos := 0 }
      | none => { r with innerPos := read.cursor }
    pure (returned read.result, r)
  else
    let r := { r with inner := [], innerPos := 0 }
    if r.bytes.length ≤ r.pos then
      pure (some (.error ⟨.logEndOfFile, "end of BLF log", (0, 0)⟩), r)
    else do
      let read ← readObject r.bytes r.pos
      let r := { r with pos := read.cursor, inner := read.inner.getD [] }
      pure (returned read.result, r)

/-- `next`, in at most so many rounds. -/
def BlfReader.next : ℕ → BlfReader → Checked (Result LogRecord × BlfReader)
  | 0, _ => .undefined
  | rounds + 1, r => do
    let (result, r) ← r.round
    match result with
    | some result => pure (result, r)
    | none => next rounds r

/-- `read_all`, with `fuel` for the calls of `next` and for each of them. -/
def BlfReader.readAllFrom (rounds : ℕ) : ℕ → List LogRecord → BlfReader →
    Checked (Result (List LogRecord))
  | 0, _, _ => .undefined
  | calls + 1, out, r => do
    let (result, r) ← r.next rounds
    match result with
    | .ok record => readAllFrom rounds calls (out ++ [record]) r
    | .error e => if e.code = .logEndOfFile then pure (.ok out) else pure (.error e)

/-- `read_all`. -/
def BlfReader.readAll (fuel : ℕ) (r : BlfReader) : Checked (Result (List LogRecord)) :=
  readAllFrom fuel fuel [] r

end Transport
end Canforge
