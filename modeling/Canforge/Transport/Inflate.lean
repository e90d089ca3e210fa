/-
# The DEFLATE decoder

`transport/src/Inflate.cpp`: the canonical Huffman decoder, the bit reader, the tables of
fixed and dynamic blocks, and `inflate_raw`.  An access to a table or to the output, and
a difference used as an index, is an operation of `Canforge.Lib.Outcome`, so that a result
that is not `undefined` stays within all of them.  A loop of the source that runs until
the input ends it has a fuel, and `undefined` is what it is when that runs out.

The widths of the integers do not matter here: a table has at most 316 lengths, and a code
at most 15 bits.
-/

import Canforge.Core.Frame
import Canforge.Lib.Outcome

namespace Canforge
namespace Transport

open Canforge.Core Lib Outcome

/-- A value, an error, or an undefined operation. -/
abbrev Checked (α : Type) := Outcome Error α

/-- `kMaxInflateOutput`: 256 MiB. -/
def kMaxInflateOutput : ℕ := 256 * 1024 * 1024

/-- `bad`. -/
def bad {α : Type} (why : String) : Checked α := .error { code := .logBadFormat, message := why }

/-! ### The bit reader -/

/-- `BitReader`. -/
structure BitReader where
  data : List Byte
  pos : ℕ := 0
  buffer : Byte := 0
  held : ℕ := 0
  overrun : Bool := false

namespace BitReader

/-- `ok`. -/
def ok (r : BitReader) : Bool := !r.overrun

/-- The next byte, when the buffer is empty; `none` at the end of the input. -/
def refill (r : BitReader) : Option BitReader :=
  if r.held = 0 then
    r.data[r.pos]?.map fun b => { r with pos := r.pos + 1, buffer := b, held := 8 }
  else some r

/-- The loop of `bits` from the `i`-th bit on. -/
def bitsFrom : ℕ → ℕ → ℕ → BitReader → ℕ × BitReader
  | 0, _, value, r => (value, r)
  | left + 1, i, value, r =>
    match r.refill with
    | none => (value, { r with overrun := true })
    | some r =>
      bitsFrom left (i + 1) (value ||| (r.buffer &&& 1).toNat <<< i)
        { r with buffer := r.buffer >>> 1, held := r.held - 1 }

/-- `bits`. -/
def bits (r : BitReader) (count : ℕ) : ℕ × BitReader := bitsFrom count 0 0 r

/-- `align_to_byte`. -/
def alignToByte (r : BitReader) : BitReader := { r with held := 0, buffer := 0 }

/-- `copy_bytes`: the output and whether the bytes were there. -/
def copyBytes (r : BitReader) (out : List Byte) (n : ℕ) : Bool × List Byte × BitReader :=
  if r.data.length < r.pos + n then (false, out, { r with overrun := true })
  else (true, out ++ (r.data.drop r.pos).take n, { r with pos := r.pos + n })

/-- `read_u16_le`. -/
def readU16Le (r : BitReader) : Checked (BitVec 16 × BitReader) :=
  if r.data.length < r.pos + 2 then pure (0, { r with overrun := true })
  else do
    let lo ← fetch r.data r.pos
    let hi ← fetch r.data (r.pos + 1)
    pure (lo.setWidth 16 ||| hi.setWidth 16 <<< 8, { r with pos := r.pos + 2 })

end BitReader

/-! ### Huffman tables -/

/-- `Huffman`. -/
structure Huffman where
  counts : List ℕ := List.replicate 16 0
  symbols : List ℕ := []

namespace Huffman

/-- `kMaxBits`. -/
def kMaxBits : ℕ := 15

/-- The counts of the code lengths. -/
def countLengths : List ℕ → List ℕ → Checked (List ℕ)
  | [], counts => pure counts
  | length :: lengths, counts =>
    if kMaxBits < length then bad "Huffman code length exceeds 15 bits"
    else do
      let count ← fetch counts length
      let counts ← store counts length (count + 1)
      countLengths lengths counts

/-- The check that the codes are not too many, from `bits` on. -/
def checkSubscription (counts : List ℕ) : ℕ → ℕ → ℤ → Checked Unit
  | 0, _, _ => pure ()
  | rounds + 1, bits, left => do
    let count ← fetch counts bits
    let left := left * 2 - count
    if left < 0 then bad "over-subscribed Huffman code"
    else checkSubscription counts rounds (bits + 1) left

/-- The first place of each length in the table, from `bits` on. -/
def fillOffsets (counts : List ℕ) : ℕ → ℕ → List ℕ → Checked (List ℕ)
  | 0, _, offsets => pure offsets
  | rounds + 1, bits, offsets => do
    let offset ← fetch offsets bits
    let count ← fetch counts bits
    let offsets ← store offsets (bits + 1) (offset + count)
    fillOffsets counts rounds (bits + 1) offsets

/-- The symbols from `i` on to their places. -/
def placeSymbols : List ℕ → ℕ → List ℕ → List ℕ → Checked (List ℕ)
  | [], _, _, symbols => pure symbols
  | length :: lengths, i, offsets, symbols =>
    if length ≠ 0 then do
      let offset ← fetch offsets length
      let symbols ← store symbols offset i
      let offsets ← store offsets length (offset + 1)
      placeSymbols lengths (i + 1) offsets symbols
    else placeSymbols lengths (i + 1) offsets symbols

/-- `build`. -/
def build (lengths : List ℕ) : Checked Huffman := do
  let counts ← countLengths lengths (List.replicate 16 0)
  let counts ← store counts 0 0
  checkSubscription counts kMaxBits 1 1
  let offsets ← store (List.replicate 16 0) 1 0
  let offsets ← fillOffsets counts (kMaxBits - 1) 1 offsets
  let symbols ← placeSymbols lengths 0 offsets (List.replicate lengths.length 0)
  pure { counts, symbols }

end Huffman

/-- The loop of `decode` from `length` on; `none` is its `-1`. -/
def decodeFrom (table : Huffman) : ℕ → ℕ → ℕ → ℕ → ℕ → BitReader →
    Checked (Option ℕ × BitReader)
  | 0, _, _, _, _, r => pure (none, r)
  | rounds + 1, length, code, first, index, r => do
    let (bit, r) := r.bits 1
    let code := code ||| bit
    if r.overrun then pure (none, r)
    else
      let count ← fetch table.counts length
      if code < first + count then
        let off ← indexSub code first
        if table.symbols.length ≤ index + off then pure (none, r)
        else
          let symbol ← fetch table.symbols (index + off)
          pure (some symbol, r)
      else
        decodeFrom table rounds (length + 1) (code <<< 1) ((first + count) <<< 1) (index + count) r

/-- `decode`. -/
def decode (table : Huffman) (r : BitReader) : Checked (Option ℕ × BitReader) :=
  decodeFrom table 15 1 0 0 0 r

/-! ### The tables of RFC 1951 -/

/-- `kLengthBase`. -/
def kLengthBase : List ℕ :=
  [3, 4, 5, 6, 7, 8, 9, 10, 11, 13, 15, 17, 19, 23, 27, 31, 35, 43, 51, 59, 67, 83, 99, 115, 131,
    163, 195, 227, 258]

/-- `kLengthExtra`. -/
def kLengthExtra : List ℕ :=
  [0, 0, 0, 0, 0, 0, 0, 0, 1, 1, 1, 1, 2, 2, 2, 2, 3, 3, 3, 3, 4, 4, 4, 4, 5, 5, 5, 5, 0]

/-- `kDistanceBase`. -/
def kDistanceBase : List ℕ :=
  [1, 2, 3, 4, 5, 7, 9, 13, 17, 25, 33, 49, 65, 97, 129, 193, 257, 385, 513, 769, 1025, 1537, 2049,
    3073, 4097, 6145, 8193, 12289, 16385, 24577]

/-- `kDistanceExtra`. -/
def kDistanceExtra : List ℕ :=
  [0, 0, 0, 0, 1, 1, 2, 2, 3, 3, 4, 4, 5, 5, 6, 6, 7, 7, 8, 8, 9, 9, 10, 10, 11, 11, 12, 12, 13, 13]

/-- `kOrder`. -/
def kOrder : List ℕ := [16, 17, 18, 0, 8, 7, 9, 6, 10, 5, 11, 4, 12, 3, 13, 2, 14, 1, 15]

/-- The literal and length codes of a fixed block. -/
def fixedLiterals : List ℕ :=
  List.replicate 144 8 ++ List.replicate 112 9 ++ List.replicate 24 7 ++ List.replicate 8 8

/-- Its distance codes. -/
def fixedDistances : List ℕ := List.replicate 30 5

/-- `fixed_tables`. -/
def fixedTables : Checked (Huffman × Huffman) := do
  let literals ← Huffman.build fixedLiterals
  let distances ← Huffman.build fixedDistances
  pure (literals, distances)

/-! ### The tables of a dynamic block -/

/-- The lengths of the code length alphabet, from the `i`-th one that is sent. -/
def readCodeLengths : ℕ → ℕ → List ℕ → BitReader → Checked (List ℕ × BitReader)
  | 0, _, codeLengths, r => pure (codeLengths, r)
  | left + 1, i, codeLengths, r => do
    let symbol ← fetch kOrder i
    let (length, r) := r.bits 3
    let codeLengths ← store codeLengths symbol length
    readCodeLengths left (i + 1) codeLengths r

/-- `lengths[written++] = value`, `repeat` times. -/
def repeatLength (value : ℕ) : ℕ → List ℕ → ℕ → Checked (List ℕ × ℕ)
  | 0, lengths, written => pure (lengths, written)
  | left + 1, lengths, written => do
    let lengths ← store lengths written value
    repeatLength value left lengths (written + 1)

/-- The length that a repeat code repeats. -/
def repeatedLength (symbol written : ℕ) (lengths : List ℕ) : Checked ℕ :=
  if symbol = 16 then fetch lengths (written - 1) else pure 0

/-- The code lengths of both alphabets, behind the first `written` of them. -/
def readLengths (table : Huffman) : ℕ → List ℕ → ℕ → BitReader → Checked (List ℕ × BitReader)
  | 0, _, _, _ => .undefined
  | fuel + 1, lengths, written, r =>
    if lengths.length ≤ written then pure (lengths, r)
    else do
      let (symbol, r) ← decode table r
      match symbol with
      | none => bad "bad code length symbol"
      | some symbol =>
        if symbol < 16 then
          let lengths ← store lengths written symbol
          readLengths table fuel lengths (written + 1) r
        else if symbol = 16 ∧ written = 0 then
          bad "repeat code at the start of the length list"
        else
          let value ← repeatedLength symbol written lengths
          let (extra, r) := r.bits (if symbol = 16 then 2 else if symbol = 17 then 3 else 7)
          let count := (if symbol ≤ 17 then 3 else 11) + extra
          if r.overrun ∨ lengths.length < written + count then
            bad "code length repeat runs past the end of the list"
          else
            let (lengths, written) ← repeatLength value count lengths written
            readLengths table fuel lengths written r

/-- `dynamic_tables`; `fuel` bounds the code length symbols. -/
def dynamicTables (fuel : ℕ) (r : BitReader) : Checked ((Huffman × Huffman) × BitReader) := do
  let (hlit, r) := r.bits 5
  let hlit := hlit + 257
  let (hdist, r) := r.bits 5
  let hdist := hdist + 1
  let (hclen, r) := r.bits 4
  let hclen := hclen + 4
  if r.overrun ∨ 286 < hlit ∨ 30 < hdist then bad "malformed dynamic block header"
  else
    let (codeLengths, r) ← readCodeLengths hclen 0 (List.replicate 19 0) r
    if r.overrun then bad "truncated code length alphabet"
    else
      let table ← Huffman.build codeLengths
      let (lengths, r) ← readLengths table fuel (List.replicate (hlit + hdist) 0) 0 r
      let literals ← Huffman.build (lengths.take hlit)
      let distances ← Huffman.build ((lengths.drop hlit).take hdist)
      pure ((literals, distances), r)

/-! ### Blocks -/

/-- `out.push_back(out[from + i])` for `length` rounds from the `i`-th. -/
def copyBack (start : ℕ) : ℕ → ℕ → List Byte → Checked (List Byte)
  | 0, _, out => pure out
  | left + 1, i, out => do
    let byte ← fetch out (start + i)
    copyBack start left (i + 1) (out ++ [byte])

/-- `base[index] + in.bits(extra[index])`. -/
def readRange (base extra : List ℕ) (index : ℕ) (r : BitReader) : Checked (ℕ × BitReader) := do
  let base ← fetch base index
  let extra ← fetch extra index
  let (more, r) := r.bits extra
  pure (base + more, r)

/-- The loop over the symbols of a block. -/
def inflateSymbols (literals distances : Huffman) : ℕ → List Byte → BitReader →
    Checked (List Byte × BitReader)
  | 0, _, _ => .undefined
  | fuel + 1, out, r => do
    let (symbol, r) ← decode literals r
    match symbol with
    | none => bad "bad literal or length code"
    | some symbol =>
      if kMaxInflateOutput ≤ out.length then bad "decompressed output exceeds the size limit"
      else if symbol < 256 then
        inflateSymbols literals distances fuel (out ++ [BitVec.ofNat 8 symbol]) r
      else if symbol = 256 then pure (out, r)  -- end of block
      else
        let index ← indexSub symbol 257
        if 29 ≤ index then bad "length code out of range"
        else
          let (length, r) ← readRange kLengthBase kLengthExtra index r
          let (symbol, r) ← decode distances r
          match symbol with
          | none => bad "bad distance code"
          | some index =>
            if 30 ≤ index then bad "bad distance code"
            else
              let (distance, r) ← readRange kDistanceBase kDistanceExtra index r
              if r.overrun then bad "truncated back reference"
              else if distance = 0 ∨ out.length < distance then
                bad "back reference points before the start of the output"
              else if kMaxInflateOutput < out.length + length then
                bad "decompressed output exceeds the size limit"
              else
                let start ← indexSub out.length distance
                let out ← copyBack start length 0 out
                inflateSymbols literals distances fuel out r

/-- A stored block. -/
def inflateStored (out : List Byte) (r : BitReader) : Checked (List Byte × BitReader) := do
  let (length, r) ← r.alignToByte.readU16Le
  let (inverse, r) ← r.readU16Le
  if r.overrun then bad "truncated stored block header"
  else if ~~~length ≠ inverse then bad "stored block length does not match its complement"
  else if kMaxInflateOutput < out.length + length.toNat then
    bad "decompressed output exceeds the size limit"
  else
    let (there, out, r) := r.copyBytes out length.toNat
    if there then pure (out, r) else bad "stored block runs past the end of the input"

/-- The tables of a block of type 1 or 2. -/
def blockTables (fuel type : ℕ) (r : BitReader) : Checked ((Huffman × Huffman) × BitReader) :=
  if type = 1 then do
    let tables ← fixedTables
    pure (tables, r)
  else dynamicTables fuel r

/-- A block behind its header. -/
def inflateBlock (fuel type : ℕ) (out : List Byte) (r : BitReader) :
    Checked (List Byte × BitReader) :=
  if type = 0 then inflateStored out r
  else do
    let ((literals, distances), r) ← blockTables fuel type r
    inflateSymbols literals distances fuel out r

/-- The loop over the blocks; `fuel` bounds the symbols of each block as well. -/
def inflateBlocks (fuel : ℕ) : ℕ → List Byte → BitReader → Checked (List Byte)
  | 0, _, _ => .undefined
  | blocks + 1, out, r => do
    let (final, r) := r.bits 1
    let (type, r) := r.bits 2
    if r.overrun then bad "truncated block header"
    else if type = 3 then bad "reserved block type"
    else
      let (out, r) ← inflateBlock fuel type out r
      if final ≠ 0 then pure out else inflateBlocks fuel blocks out r

/-- `inflate_raw`; the size hint only reserves memory. -/
def inflateRaw (data : List Byte) (_expectedSize : ℕ) : Checked (List Byte) :=
  inflateBlocks (8 * data.length + 1) (8 * data.length + 1) [] { data }

end Transport
end Canforge
