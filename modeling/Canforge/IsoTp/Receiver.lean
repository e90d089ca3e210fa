/-
# The ISO-TP receiver

`Receiver` of `isotp/src/IsoTp.cpp`: `on_frame` takes the peer's frames, one
handler for each protocol data unit, and `poll` returns the flow control to put
on the bus.
-/

import Canforge.IsoTp.Sender

namespace Canforge
namespace IsoTp

open Canforge.Core

/-- `Receiver::State`. -/
inductive ReceiverState
  | idle
  | sendFlowControl
  | receiving
  | finished
  deriving DecidableEq, Repr

/-- `Receiver`. -/
structure Receiver where
  config : Config
  payload : List Byte := []
  state : ReceiverState := .idle
  result : TransferResult := .inProgress
  expected : ℕ := 0
  sequence : ℕ := 0
  framesInBlock : ℕ := 0
  deadlineNs : ℕ := 0
  fcDueNs : ℕ := 0
  pendingStatus : FlowStatus := .continueToSend
  deriving DecidableEq

/-- `Receiver::make_flow_control`. -/
def makeFlowControl (config : Config) (status : FlowStatus) : FdFrame :=
  let n := config.address.header ++
    [BitVec.ofNat 8 (0x30 ||| status.toNibble), config.blockSize, config.stMinRaw]
  let length :=
    if config.padFrames then if config.useCanFd then fdPaddedLength n.length else 8
    else n.length
  let padded := n ++ List.replicate (length - n.length) config.paddingByte
  let length := if config.useCanFd then fdPaddedLength length else length
  let buffer := padded ++ List.replicate (64 - padded.length) 0
  (BasicFrame.make 64 config.address.txId (buffer.take length) config.flags).value

namespace Receiver

/-- `done`. -/
def done (r : Receiver) : Bool := decide (r.result ≠ .inProgress)

/-- `has_message`. -/
def hasMessage (r : Receiver) : Bool := decide (r.result = .ok)

/-- `message`. -/
def message (r : Receiver) : List Byte := r.payload

/-- The reception is over, with this result. -/
def finish (r : Receiver) (res : TransferResult) : Receiver :=
  { r with result := res, state := .finished }

/-- `reset`. -/
def reset (r : Receiver) : Receiver :=
  { r with payload := [], state := .idle, result := .inProgress, expected := 0, sequence := 0,
           framesInBlock := 0, deadlineNs := 0, fcDueNs := 0 }

/-- `poll`: the receiver after the call and the frames it returns. -/
def poll (r : Receiver) (now : ℕ) : Receiver × List FdFrame :=
  match r.state with
  | .sendFlowControl =>
    if r.fcDueNs ≤ now then
      if r.pendingStatus = .overflow then
        (r.finish .bufferOverflow, [makeFlowControl r.config r.pendingStatus])
      else
        ({ r with state := .receiving, framesInBlock := 0,
                  deadlineNs := addNs now r.config.nCrNs },
          [makeFlowControl r.config r.pendingStatus])
    else (r, [])
  | .receiving => if r.deadlineNs ≤ now then (r.finish .timeoutCr, []) else (r, [])
  | .idle => (r, [])
  | .finished => (r, [])

/-- `on_frame`, `Pci::SingleFrame`. -/
def onSingleFrame (r : Receiver) (body : List Byte) : Receiver :=
  let accept (length dataAt : ℕ) : Receiver :=
    if length = 0 ∨ body.length < dataAt + length then r.finish .invalidPdu
    else { r with payload := (body.drop dataAt).take length, expected := length,
                  result := .ok, state := .finished }
  if r.state ≠ .idle then r.finish .unexpectedPdu
  else
    let length := (body.getD 0 0 &&& 0x0F#8).toNat
    if length = 0 then
      -- the CAN FD escape: the length is in the byte that follows
      if body.length < 2 then r.finish .invalidPdu else accept (body.getD 1 0).toNat 2
    else accept length 1

/-- `on_frame`, `Pci::FirstFrame`. -/
def onFirstFrame (r : Receiver) (body : List Byte) (now : ℕ) : Receiver :=
  let accept (length dataAt : ℕ) : Receiver :=
    if length ≤ 7 - r.config.address.headerSize then r.finish .invalidPdu
    else if r.config.maxReceiveLength < length then
      { r with expected := length, pendingStatus := .overflow, state := .sendFlowControl,
               fcDueNs := addNs now r.config.nBrNs }
    else
      { r with expected := length, payload := (body.drop dataAt).take length, sequence := 1,
               pendingStatus := .continueToSend, state := .sendFlowControl,
               fcDueNs := addNs now r.config.nBrNs }
  if r.state ≠ .idle then r.finish .unexpectedPdu
  else if body.length < 2 then r.finish .invalidPdu
  else
    let length := (body.getD 0 0 &&& 0x0F#8).toNat <<< 8 ||| (body.getD 1 0).toNat
    if length = 0 then
      -- the escape sequence for messages above 4095 bytes
      if body.length < 6 then r.finish .invalidPdu
      else
        accept ((body.getD 2 0).toNat <<< 24 ||| (body.getD 3 0).toNat <<< 16 |||
          (body.getD 4 0).toNat <<< 8 ||| (body.getD 5 0).toNat) 6
    else accept length 2

/-- `on_frame`, `Pci::ConsecutiveFrame`. -/
def onConsecutiveFrame (r : Receiver) (body : List Byte) (now : ℕ) : Receiver :=
  if r.state ≠ .receiving then r.finish .unexpectedPdu
  else if (body.getD 0 0 &&& 0x0F#8).toNat ≠ r.sequence then r.finish .wrongSequence
  else
    let remaining := sizeSub r.expected r.payload.length
    let available := body.length - 1
    let take := min remaining available
    let r' := { r with sequence := (r.sequence + 1) &&& 0x0F,
                       payload := r.payload ++ (body.drop 1).take take,
                       framesInBlock := (r.framesInBlock + 1) % 256 }
    if r'.expected ≤ r'.payload.length then { r' with result := .ok, state := .finished }
    else
      let r'' := { r' with deadlineNs := addNs now r'.config.nCrNs }
      if r''.config.blockSize ≠ 0#8 ∧ r''.config.blockSize.toNat ≤ r''.framesInBlock then
        { r'' with pendingStatus := .continueToSend, state := .sendFlowControl,
                   fcDueNs := addNs now r''.config.nBrNs }
      else r''

/-- `on_frame`. -/
def onFrame (r : Receiver) (frame : FdFrame) (now : ℕ) : Receiver :=
  if r.state = .finished then r
  else
    match r.config.address.body frame with
    | none => r
    | some body =>
      match Pci.ofNibble (Sender.pciOf body) with
      | some .singleFrame => r.onSingleFrame body
      | some .firstFrame => r.onFirstFrame body now
      | some .consecutiveFrame => r.onConsecutiveFrame body now
      | some .flowControl => r.finish .unexpectedPdu
      | none => r.finish .invalidPdu

end Receiver

end IsoTp
end Canforge
