/-
# The signal codec

`core/include/canforge/core/Signal.hpp` (`bit_mask`, `SignalLayout`) and
`core/src/Signal.cpp` (`load_le` … `insert_motorola`, `decode_raw`,
`encode_raw` and their `_reference` versions).

Both byte orders are a run of `len` bits that ascends from a canonical position
`q₀`; an Intel position `q` is bit `q % 8` of byte `q / 8`, a Motorola position
is bit `7 - q % 8` of it.  The fast codec reads and writes the run a word at a
time, with a ninth byte when the run straddles one; the reference codec walks it
bit by bit.  Loops are recursions on the number of iterations already made, the
last iteration outermost.  Reads, writes and shifts go through `readByte`,
`writeByte`, `shl` and `shr`, so every function here is `none` as soon as it
leaves its buffer or shifts a word by its width.
-/

import Canforge.Core.Word

namespace Canforge
namespace Core

/-- `@0` and `@1` of a DBC signal. -/
inductive ByteOrder
  | motorola
  | intel
  deriving DecidableEq, Repr

/-- The fields of `SignalLayout` that place a signal in a payload. -/
structure SignalLayout where
  startBit : ℕ := 0
  bitLength : ℕ := 1
  byteOrder : ByteOrder := .intel
  deriving DecidableEq, Repr

/-- `bit_mask`: the low `len` bits set. -/
def bitMask (len : ℕ) : BitVec 64 :=
  if 64 ≤ len then ~~~0#64 else (1#64 <<< len) - 1#64

/-- `spanned_bytes`: how many bytes a run of `len` bits touches when it begins
`off` bits into the first of them. -/
def spannedBytes (off len : ℕ) : ℕ := (off + len + 7) / 8

/-- `load_le`. -/
def loadLe (data : List Byte) (first : ℕ) : ℕ → Option (BitVec 64)
  | 0 => some 0
  | i + 1 => do
    let acc ← loadLe data first i
    let p ← readByte data (first + i)
    let w ← shl (p.setWidth 64) (8 * i)
    return acc ||| w

/-- `store_le`. -/
def storeLe (data : List Byte) (first : ℕ) (v : BitVec 64) : ℕ → Option (List Byte)
  | 0 => some data
  | i + 1 => do
    let d ← storeLe data first v i
    let w ← shr v (8 * i)
    writeByte d (first + i) ((w &&& 0xFF#64).setWidth 8)

/-- `load_be`. -/
def loadBe (data : List Byte) (first : ℕ) : ℕ → Option (BitVec 64)
  | 0 => some 0
  | i + 1 => do
    let acc ← loadBe data first i
    let w ← shl acc 8
    let p ← readByte data (first + i)
    return w ||| p.setWidth 64

/-- `store_be` of `n` bytes, after `i` of them. -/
def storeBe (data : List Byte) (first n : ℕ) (v : BitVec 64) : ℕ → Option (List Byte)
  | 0 => some data
  | i + 1 => do
    let d ← storeBe data first n v i
    let w ← shr v (8 * (n - 1 - i))
    writeByte d (first + i) ((w &&& 0xFF#64).setWidth 8)

/-- `extract_intel`. -/
def extractIntel (data : List Byte) (q₀ len : ℕ) : Option (BitVec 64) := do
  let first := q₀ / 8
  let off := q₀ % 8
  let nb := spannedBytes off len
  let head := min nb 8
  let acc ← loadLe data first head
  let raw ← shr acc off
  if nb = 9 then
    let p ← readByte data (first + 8)
    let spill ← shl (p.setWidth 64) (64 - off)
    return (raw ||| spill) &&& bitMask len
  else
    return raw &&& bitMask len

/-- `insert_intel`. -/
def insertIntel (data : List Byte) (q₀ len : ℕ) (value : BitVec 64) : Option (List Byte) := do
  let first := q₀ / 8
  let off := q₀ % 8
  let nb := spannedBytes off len
  let head := min nb 8
  let v := value &&& bitMask len
  -- the bits of the window past the first eight bytes fall off this mask
  let window ← shl (bitMask len) off
  let acc ← loadLe data first head
  let vOff ← shl v off
  let d ← storeLe data first ((acc &&& ~~~window) ||| (vOff &&& window)) head
  if nb = 9 then
    let tail := off + len - 64
    let one ← shl 1#32 tail
    let tailMask : Byte := (one - 1#32).setWidth 8
    let vTail ← shr v (len - tail)
    let tailBits : Byte := (vTail &&& tailMask.setWidth 64).setWidth 8
    let p ← readByte d (first + 8)
    writeByte d (first + 8) ((p &&& ~~~tailMask) ||| tailBits)
  else
    return d

/-- `extract_motorola`. -/
def extractMotorola (data : List Byte) (q₀ len : ℕ) : Option (BitVec 64) := do
  let first := q₀ / 8
  let off := q₀ % 8
  let nb := spannedBytes off len
  if nb ≤ 8 then
    let acc ← loadBe data first nb
    let w ← shr acc (nb * 8 - off - len)
    return w &&& bitMask len
  else
    let tail := off + len - 64
    let acc ← loadBe data first 8
    let p ← readByte data (first + 8)
    let w ← shl acc tail
    let last ← shr (p.setWidth 64 : BitVec 64) (8 - tail)
    return (w ||| last) &&& bitMask len

/-- `insert_motorola`. -/
def insertMotorola (data : List Byte) (q₀ len : ℕ) (value : BitVec 64) :
    Option (List Byte) := do
  let first := q₀ / 8
  let off := q₀ % 8
  let nb := spannedBytes off len
  let v := value &&& bitMask len
  if nb ≤ 8 then
    let shift := nb * 8 - off - len
    let window ← shl (bitMask len) shift
    let acc ← loadBe data first nb
    let w ← shl v shift
    storeBe data first nb ((acc &&& ~~~window) ||| (w &&& window)) nb
  else
    let tail := off + len - 64
    let window := bitMask (len - tail)
    let acc ← loadBe data first 8
    let w ← shr v tail
    let d ← storeBe data first 8 ((acc &&& ~~~window) ||| (w &&& window)) 8
    let ones ← shl 0xFF#32 (8 - tail)
    let tailMask : Byte := ones.setWidth 8
    let vTail ← shl v (8 - tail)
    let tailBits : Byte := (vTail &&& tailMask.setWidth 64).setWidth 8
    let p ← readByte d (first + 8)
    writeByte d (first + 8) ((p &&& ~~~tailMask) ||| tailBits)

/-- `address_of`: the byte and the bit of a canonical position. -/
def addressOf (q : ℕ) (order : ByteOrder) : ℕ × ℕ :=
  match order with
  | .intel => (q / 8, q % 8)
  | .motorola => (q / 8, 7 - q % 8)

namespace SignalLayout

/-- `canonical_start`: an Intel start bit is its own canonical position, a
Motorola one counts from the other end of its byte. -/
def canonicalStart (s : SignalLayout) : ℕ :=
  match s.byteOrder with
  | .intel => s.startBit
  | .motorola => s.startBit / 8 * 8 + (7 - s.startBit % 8)

/-- `canonical_end`. -/
def canonicalEnd (s : SignalLayout) : ℕ := s.canonicalStart + s.bitLength

/-- `fits`. -/
def fits (s : SignalLayout) (payloadBytes : ℕ) : Prop :=
  1 ≤ s.bitLength ∧ s.bitLength ≤ 64 ∧ s.canonicalEnd ≤ payloadBytes * 8

instance (s : SignalLayout) (n : ℕ) : Decidable (s.fits n) :=
  inferInstanceAs (Decidable (_ ∧ _ ∧ _))

theorem fits.mono {s : SignalLayout} {n k : ℕ} (h : s.fits n) (hle : n ≤ k) : s.fits k :=
  ⟨h.1, h.2.1, h.2.2.trans (Nat.mul_le_mul_right 8 hle)⟩

/-- `decode_raw`. -/
def decodeRaw (s : SignalLayout) (data : List Byte) : Option (BitVec 64) :=
  match s.byteOrder with
  | .intel => extractIntel data s.canonicalStart s.bitLength
  | .motorola => extractMotorola data s.canonicalStart s.bitLength

/-- `encode_raw`; the result is the buffer after the call. -/
def encodeRaw (s : SignalLayout) (raw : BitVec 64) (data : List Byte) : Option (List Byte) :=
  match s.byteOrder with
  | .intel => insertIntel data s.canonicalStart s.bitLength raw
  | .motorola => insertMotorola data s.canonicalStart s.bitLength raw

/-- `decode_raw_reference` after `k` bits. -/
def decodeRawReferenceLoop (s : SignalLayout) (data : List Byte) : ℕ → Option (BitVec 64)
  | 0 => some 0
  | k + 1 => do
    let raw ← decodeRawReferenceLoop s data k
    let a := addressOf (s.canonicalStart + k) s.byteOrder
    let p ← readByte data a.1
    let bit : BitVec 64 := ((p >>> a.2) &&& 1#8).setWidth 64
    match s.byteOrder with
    | .intel =>
      let w ← shl bit k
      return raw ||| w
    | .motorola =>
      let w ← shl raw 1
      return w ||| bit

/-- `decode_raw_reference`. -/
def decodeRawReference (s : SignalLayout) (data : List Byte) : Option (BitVec 64) :=
  s.decodeRawReferenceLoop data s.bitLength

/-- `encode_raw_reference` of the masked value `v`, after `k` bits. -/
def encodeRawReferenceLoop (s : SignalLayout) (v : BitVec 64) (data : List Byte) :
    ℕ → Option (List Byte)
  | 0 => some data
  | k + 1 => do
    let d ← encodeRawReferenceLoop s v data k
    let a := addressOf (s.canonicalStart + k) s.byteOrder
    let shift := match s.byteOrder with
      | .intel => k
      | .motorola => s.bitLength - 1 - k
    let w ← shr v shift
    let mask : Byte := 1#8 <<< a.2
    let p ← readByte d a.1
    writeByte d a.1 ((p &&& ~~~mask) ||| (if w &&& 1#64 ≠ 0#64 then mask else 0#8))

/-- `encode_raw_reference`. -/
def encodeRawReference (s : SignalLayout) (raw : BitVec 64) (data : List Byte) :
    Option (List Byte) :=
  s.encodeRawReferenceLoop (raw &&& bitMask s.bitLength) data s.bitLength

end SignalLayout

end Core
end Canforge
