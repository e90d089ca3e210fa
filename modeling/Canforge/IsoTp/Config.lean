/-
# ISO-TP: protocol data units, addresses and configuration

`isotp/include/canforge/isotp/IsoTp.hpp` and the free functions of
`isotp/src/IsoTp.cpp` (`fd_padded_length`, `st_min_to_ns`,
`Config::validate`).

Times and durations are the numbers below `2 ^ 64` of `std::uint64_t`, and their
sums wrap (`addNs`).  The part of `on_frame` that both sides share, which decides
whether a frame is for this side and where its PCI starts, is `Address.body`.
-/

import Canforge.Core.Frame

namespace Canforge
namespace IsoTp

open Canforge.Core

/-- A sum of two `std::uint64_t` times. -/
def addNs (a b : ℕ) : ℕ := (a + b) % 2 ^ 64

/-- A difference of two `std::size_t` counts. -/
def sizeSub (a b : ℕ) : ℕ := if b ≤ a then a - b else a + 2 ^ 64 - b

theorem sizeSub_eq {a b : ℕ} (h : b ≤ a) : sizeSub a b = a - b := if_pos h

/-- `Pci`. -/
inductive Pci
  | singleFrame
  | firstFrame
  | consecutiveFrame
  | flowControl
  deriving DecidableEq, Repr

/-- `static_cast<Pci>` of a nibble; `none` is a value without an enumerator. -/
def Pci.ofNibble : ℕ → Option Pci
  | 0 => some .singleFrame
  | 1 => some .firstFrame
  | 2 => some .consecutiveFrame
  | 3 => some .flowControl
  | _ => none

/-- `FlowStatus`. -/
inductive FlowStatus
  | continueToSend
  | wait
  | overflow
  deriving DecidableEq, Repr

/-- The nibble that stands for a flow status. -/
def FlowStatus.toNibble : FlowStatus → ℕ
  | .continueToSend => 0
  | .wait => 1
  | .overflow => 2

/-- The flow status a nibble stands for; `none` is a reserved value. -/
def FlowStatus.ofNibble : ℕ → Option FlowStatus
  | 0 => some .continueToSend
  | 1 => some .wait
  | 2 => some .overflow
  | _ => none

/-- `kClassicMaxLength`: the largest payload a 12-bit `FF_DL` describes. -/
def kClassicMaxLength : ℕ := 4095

/-- `TransferResult`. -/
inductive TransferResult
  | inProgress
  | ok
  | timeoutA
  | timeoutBs
  | timeoutCr
  | wrongSequence
  | unexpectedPdu
  | bufferOverflow
  | waitOverrun
  | invalidPdu
  | aborted
  deriving DecidableEq, Repr

/-- The underlying value of a result. -/
def TransferResult.toNat : TransferResult → ℕ
  | inProgress => 0
  | ok => 1
  | timeoutA => 2
  | timeoutBs => 3
  | timeoutCr => 4
  | wrongSequence => 5
  | unexpectedPdu => 6
  | bufferOverflow => 7
  | waitOverrun => 8
  | invalidPdu => 9
  | aborted => 10

/-- `AddressingMode`. -/
inductive AddressingMode
  | normal
  | extended
  deriving DecidableEq, Repr

/-- `Address`. -/
structure Address where
  mode : AddressingMode := .normal
  txId : CanId
  rxId : CanId
  txExtension : Byte := 0
  rxExtension : Byte := 0
  deriving DecidableEq

namespace Address

/-- `normal`. -/
def normal (tx rx : CanId) : Address := { txId := tx, rxId := rx }

/-- `header_size`: the bytes before the PCI. -/
def headerSize (a : Address) : ℕ := if a.mode = .extended then 1 else 0

/-- The bytes before the PCI of a frame this side sends. -/
def header (a : Address) : List Byte := if a.mode = .extended then [a.txExtension] else []

/-- The frame from its PCI on, if `on_frame` does not ignore it: it carries this
side's identifier, has a byte after the header, and is not addressed to another
peer on the same identifier. -/
def body (a : Address) (frame : FdFrame) : Option (List Byte) :=
  if frame.id ≠ a.rxId then none
  else if frame.size ≤ a.headerSize then none
  else if a.mode = .extended ∧ frame.bytes.getD 0 0 ≠ a.rxExtension then none
  else some (frame.bytes.drop a.headerSize)

/-- The two ends of one connection. -/
structure Mirrored (a b : Address) : Prop where
  mode : a.mode = b.mode
  forth : a.txId = b.rxId
  back : b.txId = a.rxId
  forthExtension : a.txExtension = b.rxExtension
  backExtension : b.txExtension = a.rxExtension

theorem Mirrored.symm {a b : Address} (h : Mirrored a b) : Mirrored b a :=
  ⟨h.mode.symm, h.back, h.forth, h.backExtension, h.forthExtension⟩

theorem headerSize_le (a : Address) : a.headerSize ≤ 1 := by
  unfold headerSize; split_ifs <;> omega

theorem header_length (a : Address) : a.header.length = a.headerSize := by
  unfold header headerSize; split_ifs <;> rfl

theorem Mirrored.headerSize {a b : Address} (h : Mirrored a b) : a.headerSize = b.headerSize := by
  rw [Address.headerSize, Address.headerSize, h.mode]

end Address

/-- `Config`. -/
structure Config where
  address : Address
  nAsNs : ℕ := 1000000000
  nArNs : ℕ := 1000000000
  nBsNs : ℕ := 1000000000
  nCrNs : ℕ := 1000000000
  nBrNs : ℕ := 0
  nCsNs : ℕ := 0
  blockSize : Byte := 8
  stMinRaw : Byte := 0
  wftMax : Byte := 4
  maxReceiveLength : ℕ := 4095
  padFrames : Bool := true
  paddingByte : Byte := 0xCC
  useCanFd : Bool := false
  fdBitRateSwitch : Bool := true
  deriving DecidableEq

/-- The tester's end of a connection on `0x7E0` and `0x7E8`, as `canforge isotp` sets it up. -/
def testerConfig : Config :=
  { address := .normal ⟨0x7E0, .inl (by decide)⟩ ⟨0x7E8, .inl (by decide)⟩ }

/-- The control unit's end of this connection. -/
def ecuConfig : Config :=
  { address := .normal ⟨0x7E8, .inl (by decide)⟩ ⟨0x7E0, .inl (by decide)⟩ }

/-- `Config::validate`.  The products are of `std::uint64_t`. -/
def Config.validate (c : Config) : Result Unit :=
  if c.nBsNs = 0 ∨ c.nCrNs = 0 then
    .error ⟨.invalidArgument, "N_Bs and N_Cr must be non-zero", (0, 0)⟩
  else if c.nBsNs * 9 % 2 ^ 64 / 10 ≤ c.nBrNs then
    .error ⟨.invalidArgument, "N_Br leaves no room under 0.9 * N_Bs for the link layer", (0, 0)⟩
  else if c.nCrNs * 9 % 2 ^ 64 / 10 ≤ c.nCsNs then
    .error ⟨.invalidArgument, "N_Cs leaves no room under 0.9 * N_Cr for the link layer", (0, 0)⟩
  else if c.maxReceiveLength = 0 then
    .error ⟨.invalidArgument, "max_receive_length must be non-zero", (0, 0)⟩
  else .ok ()

/-- `st_min_to_ns`. -/
def stMinToNs (raw : Byte) : ℕ :=
  if raw ≤ 0x7F#8 then raw.toNat * 1000000
  else if 0xF1#8 ≤ raw ∧ raw ≤ 0xF9#8 then (raw.toNat - 0xF0) * 100000
  else 127 * 1000000

/-- `fd_padded_length`: the next length a CAN FD frame can carry. -/
def fdPaddedLength (want : ℕ) : ℕ :=
  (kFdDlcToLength.find? (want ≤ ·)).getD 64

/-- The flags of every frame this side sends. -/
def Config.flags (c : Config) : FrameFlags :=
  if c.useCanFd then
    if c.fdBitRateSwitch then FrameFlags.none ||| FrameFlags.fd ||| FrameFlags.brs
    else FrameFlags.none ||| FrameFlags.fd
  else FrameFlags.none

end IsoTp
end Canforge
