/-
# What a container holds

The payload of a container begins 32 bytes into its object, or 28.  The reader
finds it: in a stored container by the length it states (`unpackFrom_stored`), in
a compressed one by the header of the zlib stream (`unpackFrom_zlib`), which is
inflated to what its blocks expand to (`inflateZlib_stream`).
-/

import Canforge.Transport.BlfLog
import Canforge.Transport.InflateCorrect

namespace Canforge
namespace Transport

open Canforge.Core Lib Outcome

variable {data : List Byte} {cursor : ℕ} {h : ObjectHeader}

/-! ### zlib -/

theorem storedChecksum_append {checksum : List Byte} (hfour : checksum.length = 4)
    (front : List Byte) : storedChecksum (front ++ checksum) = storedChecksum checksum := by
  have htail : (front ++ checksum).drop ((front ++ checksum).length - 4) = checksum := by
    rw [List.length_append, hfour, Nat.add_sub_cancel, List.drop_left]
  have htail' : checksum.drop (checksum.length - 4) = checksum := by
    rw [hfour, Nat.sub_self, List.drop_zero]
  rw [storedChecksum, storedChecksum, htail, htail']

/-- **A zlib stream is inflated to what its blocks expand to.** -/
theorem inflateZlib_stream {cmf flg : Byte} {deflated checksum : List Byte}
    {blocks : List Deflate.Block} {rest : List Bool} (expectedSize : ℕ) (hmethod : cmf &&& 0x0F = 8)
    (hcheck : (cmf.toNat * 256 + flg.toNat) % 31 = 0) (hdictionary : flg &&& 0x20 = 0)
    (hne : blocks ≠ []) (hvalid : Deflate.Valid [] blocks)
    (hlimit : (Deflate.expand [] blocks).length < kMaxInflateOutput)
    (hdata : bitsOf deflated = Deflate.stream 0 blocks ++ rest)
    (hfour : checksum.length = 4)
    (hsum : storedChecksum checksum = adler32 (Deflate.expand [] blocks)) :
    inflateZlib (cmf :: flg :: (deflated ++ checksum)) expectedSize =
      .ok (Deflate.expand [] blocks) := by
  have hlength : (cmf :: flg :: (deflated ++ checksum)).length = deflated.length + 6 := by
    simp [hfour]
  have hbody : ((cmf :: flg :: (deflated ++ checksum)).drop 2).take (deflated.length + 6 - 6) =
      deflated := by
    rw [Nat.add_sub_cancel, List.drop_succ_cons, List.drop_succ_cons, List.drop_zero, List.take_left]
  have hstored : storedChecksum (cmf :: flg :: (deflated ++ checksum)) =
      storedChecksum checksum := storedChecksum_append hfour (cmf :: flg :: deflated)
  rw [inflateZlib, hlength, if_neg (by omega)]
  simp only [List.getD_cons_zero, List.getD_cons_succ]
  rw [if_neg (not_not.2 hmethod), if_neg (not_not.2 hcheck), if_neg (not_not.2 hdictionary), hbody,
    inflateRaw_stream expectedSize hne hvalid hlimit hdata, ok_bind, hstored,
    if_neg (not_not.2 hsum)]
  rfl

/-! ### Containers -/

/-- An object lies within its buffer. -/
theorem readHeader_within (hheader : readHeader data cursor = .ok h) :
    16 ≤ h.objectSize ∧ cursor + h.objectSize ≤ data.length := by
  unfold readHeader at hheader
  dsimp only at hheader
  split_ifs at hheader with hshort hsign hsize
  all_goals
    cases hheader
    dsimp only
    omega

/-- The payload of a container whose header has 32 bytes. -/
def containerPayload (data : List Byte) (cursor : ℕ) (h : ObjectHeader) : List Byte :=
  (data.drop (cursor + 32)).take (h.objectSize - 32)

/-- **A stored container holds its payload.** -/
theorem unpackFrom_stored (hlen : data.length < 2 ^ 64) (hheader : readHeader data cursor = .ok h)
    (hpayload : 34 ≤ h.objectSize) (hmethod : readU16 data (cursor + 16) = 0)
    (hsize : readU32 data (cursor + 24) = h.objectSize - 32)
    (hlimit : h.objectSize - 32 ≤ kMaxInflateOutput) :
    unpackFrom data cursor h = .ok (containerPayload data cursor h) := by
  have hwithin := readHeader_within hheader
  have hbody : (cursor + 16) % 2 ^ 64 = cursor + 16 := Nat.mod_eq_of_lt (by omega)
  have hend : (cursor + h.objectSize) % 2 ^ 64 = cursor + h.objectSize := Nat.mod_eq_of_lt (by omega)
  have hstart : payloadStart data 0 (h.objectSize - 32) (cursor + h.objectSize)
      [cursor + 16 + 12, cursor + 16 + 16] = cursor + 32 := by
    rw [payloadStart, if_neg (by omega), if_pos rfl, if_neg (by omega), payloadStart,
      if_neg (by omega), if_pos rfl, if_pos (by omega)]
  have htake : cursor + h.objectSize - (cursor + 32) = h.objectSize - 32 := by omega
  rw [unpackFrom, hbody, hend]
  dsimp only
  rw [if_neg (by omega), hmethod, hsize, if_neg (by omega), hstart, if_neg (by omega), if_pos rfl,
    htake]
  rfl

/-- **A compressed container holds what its zlib stream inflates to**, when the four bytes before
the stream do not look like one. -/
theorem unpackFrom_zlib (hlen : data.length < 2 ^ 64) (hheader : readHeader data cursor = .ok h)
    (hpayload : 34 ≤ h.objectSize) (hmethod : readU16 data (cursor + 16) ≠ 0)
    (hlimit : readU32 data (cursor + 24) ≤ kMaxInflateOutput)
    (hreserved : data.getD (cursor + 28) 0 &&& 0x0F ≠ 8)
    (hdeflate : data.getD (cursor + 32) 0 &&& 0x0F = 8)
    (hcheck : ((data.getD (cursor + 32) 0).toNat * 256 + (data.getD (cursor + 33) 0).toNat) % 31 =
      0) :
    unpackFrom data cursor h =
      inflateZlib (containerPayload data cursor h) (readU32 data (cursor + 24)) := by
  have hwithin := readHeader_within hheader
  have hbody : (cursor + 16) % 2 ^ 64 = cursor + 16 := Nat.mod_eq_of_lt (by omega)
  have hend : (cursor + h.objectSize) % 2 ^ 64 = cursor + h.objectSize := Nat.mod_eq_of_lt (by omega)
  have hstart : payloadStart data (readU16 data (cursor + 16)) (readU32 data (cursor + 24))
      (cursor + h.objectSize) [cursor + 16 + 12, cursor + 16 + 16] = cursor + 32 := by
    rw [payloadStart, if_neg (by omega), if_neg hmethod, if_neg (fun hplausible =>
      hreserved hplausible.1), payloadStart, if_neg (by omega), if_neg hmethod,
      if_pos ⟨hdeflate, hcheck⟩]
  have htake : cursor + h.objectSize - (cursor + 32) = h.objectSize - 32 := by omega
  rw [unpackFrom, hbody, hend]
  dsimp only
  have hfield : cursor + 16 + 8 = cursor + 24 := rfl
  rw [if_neg (by omega), hfield, if_neg (by omega), hstart, if_neg (by omega), if_neg hmethod,
    htake]
  rfl

end Transport
end Canforge
