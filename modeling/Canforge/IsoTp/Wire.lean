/-
# What the other side reads

A frame of one side, read by the other.  `makeFrame_spec` gives the bytes of a
frame (the header, the body and the padding of classic CAN), `body_makeFrame`
what `Address.body` of the mirrored address makes of them, and the `pci_…` lemmas
read back the three length encodings, the sequence number and the flow status.
-/

import Canforge.IsoTp.Receiver

namespace Canforge
namespace Core

theorem lengthToDlc_small {len : ℕ} (h : len ≤ 8) (fd : Bool) :
    lengthToDlc len fd = .ok ⟨len, len, 0⟩ := by
  interval_cases len <;> cases fd <;> rfl

theorem dlcToLength_small {len : ℕ} (h : len ≤ 8) (fd : Bool) : dlcToLength len fd = len := by
  interval_cases len <;> cases fd <;> rfl

/-- A payload of at most eight bytes makes a frame that holds just these bytes. -/
theorem BasicFrame.make_spec (id : CanId) {bytes : List Byte} {flags : FrameFlags}
    (hlen : bytes.length ≤ 8) (hflags : validateFlags 64 flags = .ok ())
    (hrtr : hasFlag flags FrameFlags.rtr = false) :
    ∃ f, make 64 id bytes flags = .ok f ∧ f.id = id ∧ f.bytes = bytes ∧ f.size = bytes.length := by
  have h64 : ¬ 64 < bytes.length := by omega
  refine ⟨_, by simp only [make, hflags, hrtr, h64, lengthToDlc_small hlen]; rfl, rfl, ?_, ?_⟩
  · simp only [BasicFrame.bytes, size, isRemote, hrtr, isFd, dlcToLength_small hlen, store]
    simp [List.take_take, show min bytes.length 64 = bytes.length by omega]
  · simp only [size, isRemote, hrtr, dlcToLength_small hlen]
    rfl

end Core

namespace IsoTp

open Canforge.Core

theorem fdPaddedLength_small {n : ℕ} (h : n ≤ 8) : fdPaddedLength n = n := by
  interval_cases n <;> rfl

theorem Config.validateFlags_flags (c : Config) :
    BasicFrame.validateFlags 64 c.flags = .ok () := by
  unfold Config.flags
  cases c.useCanFd <;> cases c.fdBitRateSwitch <;> rfl

theorem Config.flags_rtr (c : Config) : hasFlag c.flags FrameFlags.rtr = false := by
  unfold Config.flags
  cases c.useCanFd <;> cases c.fdBitRateSwitch <;> rfl

/-- The padding behind a body of `n` bytes: classic frames are filled to eight
bytes, and every length up to eight is a CAN FD length. -/
def Config.padding (c : Config) (n : ℕ) : List Byte :=
  if c.padFrames = true ∧ c.useCanFd = false then
    List.replicate (8 - c.address.headerSize - n) c.paddingByte
  else []

theorem Config.padding_length_le (c : Config) (n : ℕ) :
    (c.padding n).length ≤ 8 - c.address.headerSize - n := by
  unfold Config.padding; split_ifs <;> simp

theorem Config.padding_full (c : Config) {n : ℕ} (h : 8 - c.address.headerSize ≤ n) :
    c.padding n = [] :=
  List.length_eq_zero_iff.1 (by have := c.padding_length_le n; omega)

variable {c : Config} {body : List Byte}

/-- **The bytes of a frame:** header, body, padding. -/
theorem makeFrame_spec (h : c.address.headerSize + body.length ≤ 8) :
    (makeFrame c body).id = c.address.txId ∧
    (makeFrame c body).bytes = c.address.header ++ (body ++ c.padding body.length) ∧
    (makeFrame c body).size = c.address.headerSize + (body ++ c.padding body.length).length := by
  have hn : (c.address.header ++ body).length = c.address.headerSize + body.length := by
    rw [List.length_append, Address.header_length]
  -- whatever the settings, the buffer is cut right behind the padding
  obtain ⟨f, hf, hid, hbytes, hsize⟩ := BasicFrame.make_spec c.address.txId
    (show (c.address.header ++ (body ++ c.padding body.length)).length ≤ 8 by
      have := c.padding_length_le body.length
      simp only [List.length_append, Address.header_length]
      omega)
    c.validateFlags_flags c.flags_rtr
  have hmake : makeFrame c body = f := by
    unfold makeFrame
    rw [show f = Result.value (.ok f) from rfl, ← hf]
    have hfull : 8 - (c.address.headerSize + body.length) =
        8 - c.address.headerSize - body.length := by omega
    simp only [hn, Config.padding]
    cases c.padFrames <;> cases c.useCanFd <;>
      simp only [Bool.false_eq_true, if_false, if_true, fdPaddedLength_small h, max_self,
        max_eq_left h, Nat.sub_self, List.replicate_zero, List.append_nil, and_false, and_self,
        and_true, Bool.true_eq_false, hfull]
    · rw [List.take_left' hn]
    · rw [List.take_left' hn]
    · rw [List.take_left' (by rw [List.length_append, List.length_replicate, hn]; omega),
        List.append_assoc]
    · rw [List.take_left' hn]
  rw [hmake]
  refine ⟨hid, hbytes, ?_⟩
  rw [hsize, List.length_append, Address.header_length]

/-- **The other side reads the body and the padding.** -/
theorem body_makeFrame {a : Address} (hm : c.address.Mirrored a) (hne : body ≠ [])
    (h : c.address.headerSize + body.length ≤ 8) :
    a.body (makeFrame c body) = some (body ++ c.padding body.length) := by
  obtain ⟨hid, hbytes, hsize⟩ := makeFrame_spec h
  have hpos := List.length_pos_iff.2 hne
  unfold Address.body
  rw [if_neg (by rw [hid, hm.forth]; exact fun h => h rfl), hsize, ← hm.headerSize,
    if_neg (by rw [List.length_append]; omega), hbytes,
    List.drop_left' c.address.header_length, if_neg]
  rintro ⟨hmode, hne⟩
  refine hne ?_
  rw [Address.header, if_pos (hm.mode.trans hmode), List.singleton_append, List.getD_cons_zero,
    hm.forthExtension]

theorem makeFlowControl_eq (c : Config) (status : FlowStatus) :
    makeFlowControl c status =
      makeFrame c [BitVec.ofNat 8 (0x30 ||| status.toNibble), c.blockSize, c.stMinRaw] := by
  have hh := c.address.headerSize_le
  have hlen : (c.address.header ++
      [BitVec.ofNat 8 (0x30 ||| status.toNibble), c.blockSize, c.stMinRaw]).length ≤ 8 := by
    simp only [List.length_append, Address.header_length, List.length_cons, List.length_nil]
    omega
  unfold makeFlowControl makeFrame
  simp only [fdPaddedLength_small hlen]
  cases c.useCanFd
  · rw [max_eq_left (by simpa using hlen)]
  · rw [max_eq_left (by simp)]

/-! ### Protocol data units -/

theorem and_fifteen (k : ℕ) : k &&& 0x0F = k % 16 := Nat.and_two_pow_sub_one_eq_mod k 4

theorem pci_single : ∀ n < 8, (BitVec.ofNat 8 n >>> 4 &&& 0x0F#8).toNat = 0 ∧
    (BitVec.ofNat 8 n &&& 0x0F#8).toNat = n := by decide

theorem pci_consecutive : ∀ n < 16, (BitVec.ofNat 8 (0x20 ||| n) >>> 4 &&& 0x0F#8).toNat = 2 ∧
    (BitVec.ofNat 8 (0x20 ||| n) &&& 0x0F#8).toNat = n := by decide

theorem pci_first : ∀ n < 16, (BitVec.ofNat 8 (0x10 ||| n) >>> 4 &&& 0x0F#8).toNat = 1 ∧
    (BitVec.ofNat 8 (0x10 ||| n) &&& 0x0F#8).toNat = n := by decide

theorem pci_flowControl (status : FlowStatus) :
    (BitVec.ofNat 8 (0x30 ||| status.toNibble) >>> 4 &&& 0x0F#8).toNat = 3 ∧
    (BitVec.ofNat 8 (0x30 ||| status.toNibble) &&& 0x0F#8).toNat = status.toNibble := by
  cases status <;> decide

theorem FlowStatus.ofNibble_toNibble (status : FlowStatus) :
    FlowStatus.ofNibble status.toNibble = some status := by cases status <;> rfl

/-- A number put together from its high part and its low byte. -/
theorem length_step (n : ℕ) : (n / 2 ^ 8) <<< 8 ||| n % 2 ^ 8 = n := by
  rw [← Nat.shiftLeft_add_eq_or_of_lt (Nat.mod_lt _ (by norm_num)), Nat.shiftLeft_eq]
  omega

theorem toNat_byte (n : ℕ) : (BitVec.ofNat 8 (n &&& 0xFF)).toNat = n % 2 ^ 8 := by
  rw [BitVec.toNat_ofNat, Nat.and_two_pow_sub_one_eq_mod n 8, Nat.mod_mod]

/-- **`FF_DL` in 12 bits.** -/
theorem length_classic {size : ℕ} (h : size ≤ kClassicMaxLength) :
    (BitVec.ofNat 8 (0x10 ||| (size >>> 8 &&& 0x0F)) &&& 0x0F#8).toNat <<< 8 |||
      (BitVec.ofNat 8 (size &&& 0xFF)).toNat = size := by
  have hhigh : size >>> 8 &&& 0x0F = size / 2 ^ 8 := by
    unfold kClassicMaxLength at h
    rw [and_fifteen, Nat.shiftRight_eq_div_pow]
    omega
  have hlt : size / 2 ^ 8 < 16 := by unfold kClassicMaxLength at h; omega
  rw [hhigh, (pci_first _ hlt).2, toNat_byte, length_step]

/-- One byte further down a number. -/
theorem length_byte (size k : ℕ) :
    (size / 2 ^ (k + 8)) <<< (k + 8) ||| (size / 2 ^ k % 2 ^ 8) <<< k = (size / 2 ^ k) <<< k := by
  rw [Nat.pow_add, ← Nat.div_div_eq_div_mul, Nat.add_comm, Nat.shiftLeft_add,
    ← Nat.shiftLeft_or_distrib, length_step]

/-- **`FF_DL` in 32 bits.** -/
theorem length_escape {size : ℕ} (h : size < 2 ^ 32) :
    (BitVec.ofNat 8 (size >>> 24 &&& 0xFF)).toNat <<< 24 |||
      (BitVec.ofNat 8 (size >>> 16 &&& 0xFF)).toNat <<< 16 |||
      (BitVec.ofNat 8 (size >>> 8 &&& 0xFF)).toNat <<< 8 |||
      (BitVec.ofNat 8 (size &&& 0xFF)).toNat = size := by
  have htop : size / 2 ^ 24 % 2 ^ 8 = size / 2 ^ 24 := Nat.mod_eq_of_lt (by omega)
  simp only [toNat_byte, Nat.shiftRight_eq_div_pow]
  rw [htop, length_byte size 16, length_byte size 8, length_step]

end IsoTp
end Canforge
