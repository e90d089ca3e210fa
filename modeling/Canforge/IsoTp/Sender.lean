/-
# The ISO-TP sender

`Sender` of `isotp/src/IsoTp.cpp`: `begin` starts a transfer, `poll` returns the
frames to put on the bus, `on_frame` takes the peer's flow control.  A method of
the class is a function on the record of its members.
-/

import Canforge.IsoTp.Config

namespace Canforge
namespace IsoTp

open Canforge.Core

/-- `Sender::State`. -/
inductive SenderState
  | idle
  | sendingSingle
  | sendingFirst
  | waitingFlowControl
  | sendingConsecutive
  | finished
  deriving DecidableEq, Repr

/-- `Sender`. -/
structure Sender where
  config : Config
  payload : List Byte := []
  state : SenderState := .idle
  result : TransferResult := .inProgress
  offset : ℕ := 0
  sequence : ℕ := 0
  blockSize : Byte := 0
  stMinNs : ℕ := 0
  framesInBlock : ℕ := 0
  waitCount : ℕ := 0
  deadlineNs : ℕ := 0
  nextSendNs : ℕ := 0
  deriving DecidableEq

/-- `Sender::make_frame`. -/
def makeFrame (config : Config) (body : List Byte) : FdFrame :=
  let n := config.address.header ++ body
  let length :=
    if config.padFrames then
      max (if config.useCanFd then fdPaddedLength n.length else 8) n.length
    else n.length
  let padded := n ++ List.replicate (length - n.length) config.paddingByte
  let length := if config.useCanFd then fdPaddedLength length else length
  -- the array behind the padding is zero
  let buffer := padded ++ List.replicate (64 - padded.length) 0
  (BasicFrame.make 64 config.address.txId (buffer.take length) config.flags).value

namespace Sender

/-- `done`. -/
def done (s : Sender) : Bool := decide (s.result ≠ .inProgress)

/-- The transfer is over, with this result. -/
def finish (s : Sender) (r : TransferResult) : Sender := { s with result := r, state := .finished }

/-- `begin`. -/
def begin (s : Sender) (data : List Byte) (now : ℕ) : Result Sender :=
  if s.state ≠ .idle then
    .error ⟨.invalidArgument, "a transfer is already running", (0, 0)⟩
  else
    match s.config.validate with
    | .error e => .error e
    | .ok () =>
      if 0xFFFFFFFF < data.length then
        .error ⟨.framePayloadTooLarge, "ISO-TP cannot describe a message this long", (0, 0)⟩
      else
        let singleMax := 7 - s.config.address.headerSize
        .ok { s with
          payload := data, offset := 0, sequence := 0, waitCount := 0, framesInBlock := 0,
          result := .inProgress,
          state := if data.length ≤ singleMax then .sendingSingle else .sendingFirst,
          nextSendNs := now }

/-- The PCI bytes of the First Frame of a message of `size` bytes: `FF_DL` in 12
bits, or zero and a 32-bit length. -/
def firstFramePci (size : ℕ) : List Byte :=
  if size ≤ kClassicMaxLength then
    [BitVec.ofNat 8 (0x10 ||| (size >>> 8 &&& 0x0F)), BitVec.ofNat 8 (size &&& 0xFF)]
  else
    [0x10, 0x00, BitVec.ofNat 8 (size >>> 24 &&& 0xFF), BitVec.ofNat 8 (size >>> 16 &&& 0xFF),
      BitVec.ofNat 8 (size >>> 8 &&& 0xFF), BitVec.ofNat 8 (size &&& 0xFF)]

/-- `poll`: the sender after the call and the frames it returns. -/
def poll (s : Sender) (now : ℕ) : Sender × List FdFrame :=
  if s.done then (s, [])
  else
    match s.state with
    | .idle => (s, [])
    | .sendingSingle =>
      ({ s with offset := s.payload.length, result := .ok, state := .finished },
        [makeFrame s.config (BitVec.ofNat 8 s.payload.length :: s.payload)])
    | .sendingFirst =>
      let pci := firstFramePci s.payload.length
      let room := 8 - s.config.address.headerSize - pci.length
      let take := min room s.payload.length
      ({ s with offset := take, sequence := 1, state := .waitingFlowControl,
                deadlineNs := addNs now s.config.nBsNs },
        [makeFrame s.config (pci ++ s.payload.take take)])
    | .waitingFlowControl =>
      if s.deadlineNs ≤ now then (s.finish .timeoutBs, []) else (s, [])
    | .sendingConsecutive =>
      if now < s.nextSendNs then (s, [])  -- STmin has not elapsed
      else
        let room := 8 - s.config.address.headerSize - 1
        let take := min room (sizeSub s.payload.length s.offset)
        let out := makeFrame s.config
          (BitVec.ofNat 8 (0x20 ||| (s.sequence &&& 0x0F)) :: (s.payload.drop s.offset).take take)
        let s' := { s with offset := s.offset + take, sequence := (s.sequence + 1) &&& 0x0F,
                           framesInBlock := (s.framesInBlock + 1) % 256,
                           nextSendNs := addNs now s.stMinNs }
        if s'.payload.length ≤ s'.offset then
          ({ s' with result := .ok, state := .finished }, [out])
        else if s'.blockSize ≠ 0#8 ∧ s'.blockSize.toNat ≤ s'.framesInBlock then
          ({ s' with framesInBlock := 0, state := .waitingFlowControl,
                     deadlineNs := addNs now s'.config.nBsNs }, [out])
        else (s', [out])
    | .finished => (s, [])

/-- What a flow control status makes of a waiting sender. -/
def onFlowStatus (s : Sender) (body : List Byte) (now : ℕ) : Sender :=
  match FlowStatus.ofNibble (body.getD 0 0 &&& 0x0F#8).toNat with
  | some .continueToSend =>
    { s with blockSize := body.getD 1 0, stMinNs := stMinToNs (body.getD 2 0), waitCount := 0,
             framesInBlock := 0, state := .sendingConsecutive,
             nextSendNs := addNs now s.config.nCsNs }
  | some .wait =>
    let s' := { s with waitCount := (s.waitCount + 1) % 256 }
    if s'.config.wftMax ≠ 0#8 ∧ s'.config.wftMax.toNat < s'.waitCount then s'.finish .waitOverrun
    else { s' with deadlineNs := addNs now s'.config.nBsNs }
  | some .overflow => s.finish .bufferOverflow
  | none => s.finish .invalidPdu

/-- The nibble that tells protocol data units apart. -/
def pciOf (body : List Byte) : ℕ := (body.getD 0 0 >>> 4 &&& 0x0F#8).toNat

/-- `on_frame`. -/
def onFrame (s : Sender) (frame : FdFrame) (now : ℕ) : Sender :=
  if s.done then s
  else
    match s.config.address.body frame with
    | none => s
    | some body =>
      if Pci.ofNibble (pciOf body) ≠ some .flowControl then s.finish .unexpectedPdu
      else if s.state ≠ .waitingFlowControl then s.finish .unexpectedPdu
      else if body.length < 3 then s.finish .invalidPdu
      else s.onFlowStatus body now

end Sender

end IsoTp
end Canforge
