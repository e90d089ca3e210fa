/-
# Bits on the wire

`frame_timing` counts the bits of a frame without its data in hand.  Here is what it counts: the
bits of a classic frame as ISO 11898-1 lays them out, and the stuff bits among them.  The region
that is stuffed goes from the start of the frame through the CRC sequence; `worst_case_stuff_bits`
is the most a region of its length can get, and some bits get that many
(`worstCaseStuffBits_exact`).
-/

import Canforge.Core.Arbitration
import Canforge.IsoTp.Bounded
import Canforge.Lib.Stuffing
import Canforge.Transport.Bus

namespace Canforge
namespace Transport

open Canforge.Core Lib

/-- The run behind which a complement is inserted. -/
def kStuffWidth : ℕ := 5

/-- The stuff bits of a bit string. -/
def stuffBitsOf (bits : List Bool) : ℕ := (stuffed kStuffWidth bits).length - bits.length

/-- The start of the frame, the identifier and the control field.  A dominant bit is `false`. -/
def headBits (frame : FdFrame) : List Bool :=
  let rtr := frame.isRemote
  [false] ++ msbBits 11 frame.id.base ++
  -- SRR, IDE, the lower eighteen bits, RTR and two reserved bits
  (if frame.id.isExtended then
    [true, true] ++ msbBits 18 frame.id.value.toNat ++ [rtr, false, false]
  else [rtr, false, false]) ++
  msbBits 4 frame.dlc

/-- The data field. -/
def dataBits (frame : FdFrame) : List Bool :=
  if frame.isRemote then [] else frame.bytes.flatMap fun byte => msbBits 8 byte.toNat

/-- The CRC sequence of some bits. -/
def crc15 (bits : List Bool) : BitVec 15 :=
  bits.foldl (fun crc b => if b != crc.msb then crc <<< 1 ^^^ 0x4599 else crc <<< 1) 0

/-- The region that is stuffed. -/
def stuffedRegion (frame : FdFrame) : List Bool :=
  let bits := headBits frame ++ dataBits frame
  bits ++ msbBits 15 (crc15 bits).toNat

/-- The bits of a classic frame on the wire. -/
def wireBits (frame : FdFrame) : ℕ := (stuffed kStuffWidth (stuffedRegion frame)).length + kTrailer

theorem worstCaseStuffBits_eq (n : ℕ) : worstCaseStuffBits n = (n - 1) / (kStuffWidth - 1) := by
  unfold worstCaseStuffBits
  split_ifs with h
  · rw [h]
    rfl
  · rfl

theorem stuffBitsOf_le (bits : List Bool) : stuffBitsOf bits ≤ worstCaseStuffBits bits.length := by
  have h := stuffed_length_le (w := kStuffWidth) (by decide) bits
  rw [worstCaseStuffBits_eq, stuffBitsOf]
  exact Nat.sub_le_iff_le_add'.2 h

theorem headBits_length (frame : FdFrame) :
    (headBits frame).length = if frame.id.isExtended then 39 else 19 := by
  unfold headBits
  dsimp only
  split_ifs
  · simp
  · simp

theorem dataBits_length (frame : FdFrame) :
    (dataBits frame).length = (if frame.isRemote then 0 else frame.size) * 8 := by
  have hbytes : frame.bytes.length = frame.size := by
    rw [BasicFrame.bytes, List.length_take, frame.data_length, min_eq_left (IsoTp.Receiver.size_le frame)]
  unfold dataBits
  split_ifs
  · rfl
  · rw [List.length_flatMap, ← hbytes]
    simp only [msbBits_length, List.map_const', List.sum_replicate, smul_eq_mul]

theorem stuffedRegion_length (frame : FdFrame) : (stuffedRegion frame).length =
    (if frame.id.isExtended then 54 else 34) + (if frame.isRemote then 0 else frame.size) * 8 := by
  unfold stuffedRegion
  dsimp only
  rw [List.length_append, List.length_append, headBits_length, dataBits_length, msbBits_length]
  split_ifs <;> omega

/-- **The worst case is exact**: no bit string gets more stuff bits than its length says, and for
each length one gets as many; so the timing of a classic frame bounds its bits on the wire. -/
theorem worstCaseStuffBits_exact :
    (∀ bits, stuffBitsOf bits ≤ worstCaseStuffBits bits.length) ∧
      (∀ n, ∃ bits : List Bool, bits.length = n ∧ stuffBitsOf bits = worstCaseStuffBits n) ∧
      ∀ (frame : FdFrame) (timing : BusTiming),
        wireBits frame ≤ (classicTiming frame timing).totalBits := by
  refine ⟨stuffBitsOf_le, fun n => ?_, fun frame timing => ?_⟩
  · obtain ⟨hlength, hstuffed⟩ := stuffed_densest (w := kStuffWidth) (by decide) n
    refine ⟨densest kStuffWidth n, hlength, ?_⟩
    rw [stuffBitsOf, hstuffed, hlength, worstCaseStuffBits_eq, Nat.add_sub_cancel_left]
  · have h := stuffBitsOf_le (stuffedRegion frame)
    rw [stuffedRegion_length] at h
    unfold stuffBitsOf at h
    rw [stuffedRegion_length] at h
    unfold wireBits FrameTiming.totalBits classicTiming
    dsimp only
    omega

end Transport
end Canforge
