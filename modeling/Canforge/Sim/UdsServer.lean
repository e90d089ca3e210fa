/-
# The simulated UDS server

`UdsServer` of `sim/src/UdsServer.cpp`.  The members that `handle` reads and writes
are `Diagnostics`, and each case of its `switch` is a function on them that returns
the answer and the state after it; an empty answer is no answer.  `UdsServer` adds
the two ISO-TP ends, `onFrame` and `poll`.

`handle` reads the flash without a check of its own in routine `0xFF01`; `none` is a
read behind its end.  The writes of `TransferData` and the erase are within the
buffer by their own tests.
-/

import Canforge.IsoTp.Receiver
import Canforge.Uds.Service

namespace Canforge
namespace Sim

open Canforge.Core IsoTp Uds

/-- `toy_key_from_seed`. -/
def toyKeyFromSeed (seed secret : BitVec 32) : BitVec 32 :=
  (seed <<< 3 ||| seed >>> 29) ^^^ secret

/-- `UdsServerConfig`. -/
structure UdsServerConfig where
  transport : Config
  securitySecret : BitVec 32 := 0xA5C3F00D
  flashSize : BitVec 32 := 64 * 1024
  flashBase : BitVec 32 := 0x08000000
  pendingResponsesPerBlock : BitVec 32 := 0
  eraseDurationNs : ℕ := 0
  dataByIdentifier : BitVec 16 → Option (List Byte)
  dtcs : List Dtc

/-- The members of `UdsServer` that `handle` reads and writes. -/
structure Diagnostics where
  config : UdsServerConfig
  session : SessionType := .default
  unlocked : Bool := false
  lastSeed : BitVec 32 := 0
  securityLevel : Byte := 0
  flash : List Byte
  downloadActive : Bool := false
  downloadComplete : Bool := false
  downloadAddress : BitVec 32 := 0
  downloadSize : BitVec 32 := 0
  downloadWritten : BitVec 32 := 0
  expectedBlock : Byte := 1
  pendingLeft : BitVec 32 := 0
  deferredResponse : List Byte := []
  deferredService : Byte := 0
  deferredUntilNs : ℕ := 0
  dtcs : List Dtc
  testerPresent : ℕ := 0

/-- `negative`. -/
def negative (service : Byte) (nrc : Nrc) : List Byte := [kNegativeResponse, service, nrc.toByte]

/-- `positive`, inside `handle`. -/
def positive (request body : List Byte) : List Byte :=
  if suppresses request then [] else (request.getD 0 0 + kPositiveResponseOffset) :: body

/-- `sub`, inside `handle`. -/
def subFunction (request : List Byte) : Byte :=
  if 2 ≤ request.length then request.getD 1 0 &&& 0x7F else 0

/-- The sum of the first `written` bytes; `none` reads behind the end of the flash. -/
def checksum (flash : List Byte) (written : ℕ) : Option (BitVec 32) :=
  (List.range written).foldlM (fun sum i => flash[i]?.map fun b => sum + b.setWidth 32) 0

namespace Diagnostics

/-- The bytes `flash_base + offset …` of the flash replaced by `data`. -/
def writeFlash (d : Diagnostics) (offset : ℕ) (data : List Byte) : List Byte :=
  d.flash.take offset ++ data ++ d.flash.drop (offset + data.length)

/-- `Service::DiagnosticSessionControl`. -/
def diagnosticSessionControl (d : Diagnostics) (request : List Byte) : List Byte × Diagnostics :=
  let service := request.getD 0 0
  let sub := subFunction request
  if request.length < 2 then (negative service .incorrectMessageLengthOrInvalidFormat, d)
  else
    match SessionType.ofByte sub with
    | none => (negative service .subFunctionNotSupported, d)
    | some session =>
      let unlocked := if session = .default then false else d.unlocked
      (positive request ([sub] ++ pushBe 50 2 ++ pushBe 500 2), { d with session, unlocked })

/-- `Service::EcuReset`. -/
def ecuReset (d : Diagnostics) (request : List Byte) : List Byte × Diagnostics :=
  let service := request.getD 0 0
  let sub := subFunction request
  if request.length < 2 then (negative service .incorrectMessageLengthOrInvalidFormat, d)
  else if sub < 1#8 ∨ 5#8 < sub then (negative service .subFunctionNotSupported, d)
  else
    (positive request [sub],
      { d with session := .default, unlocked := false, downloadActive := false })

/-- `Service::TesterPresent`. -/
def testerPresentService (d : Diagnostics) (request : List Byte) : List Byte × Diagnostics :=
  let service := request.getD 0 0
  let d := { d with testerPresent := d.testerPresent + 1 }
  if request.length < 2 ∨ subFunction request ≠ 0#8 then
    (negative service .subFunctionNotSupported, d)
  else (positive request [0x00], d)

/-- `Service::ReadDataByIdentifier`. -/
def readDataByIdentifier (d : Diagnostics) (request : List Byte) : List Byte × Diagnostics :=
  let service := request.getD 0 0
  if request.length < 3 then (negative service .incorrectMessageLengthOrInvalidFormat, d)
  else
    let did := (readBe request 1 2).setWidth 16
    match d.config.dataByIdentifier did with
    | none => (negative service .requestOutOfRange, d)
    | some value => (positive request (pushBe (did.setWidth 32) 2 ++ value), d)

/-- `Service::WriteDataByIdentifier`. -/
def writeDataByIdentifier (d : Diagnostics) (request : List Byte) : List Byte × Diagnostics :=
  let service := request.getD 0 0
  if request.length < 4 then (negative service .incorrectMessageLengthOrInvalidFormat, d)
  else
    let did := (readBe request 1 2).setWidth 16
    match d.config.dataByIdentifier did with
    | none => (negative service .requestOutOfRange, d)
    | some _ =>
      -- identifiers from `0xF100` are read-only
      if 0xF100#16 ≤ did then (negative service .securityAccessDenied, d)
      else
        let dataByIdentifier := fun i =>
          if i = did then some (request.drop 3) else d.config.dataByIdentifier i
        (positive request (pushBe (did.setWidth 32) 2),
          { d with config := { d.config with dataByIdentifier } })

/-- `Service::SecurityAccess`. -/
def securityAccess (d : Diagnostics) (request : List Byte) (now : ℕ) :
    List Byte × Diagnostics :=
  let service := request.getD 0 0
  let sub := subFunction request
  if request.length < 2 then (negative service .incorrectMessageLengthOrInvalidFormat, d)
  else if d.session = .default then (negative service .serviceNotSupportedInActiveSession, d)
  else if sub &&& 0x01 ≠ 0 then
    -- requestSeed: a seed of zero says "already unlocked"
    let lastSeed := if d.unlocked then 0 else 0xC0FFEE#32 ^^^ (BitVec.ofNat 32 now &&& 0xFFFFFF)
    (positive request ([sub] ++ pushBe lastSeed 4), { d with securityLevel := sub, lastSeed })
  else if sub.toNat ≠ d.securityLevel.toNat + 1 then (negative service .requestSequenceError, d)
  else if request.length < 6 then (negative service .incorrectMessageLengthOrInvalidFormat, d)
  else if readBe request 2 4 ≠ toyKeyFromSeed d.lastSeed d.config.securitySecret then
    (negative service .invalidKey, d)
  else (positive request [sub], { d with unlocked := true })

/-- `Service::ClearDiagnosticInformation`. -/
def clearDiagnosticInformation (d : Diagnostics) (request : List Byte) :
    List Byte × Diagnostics :=
  let service := request.getD 0 0
  if request.length < 4 then (negative service .incorrectMessageLengthOrInvalidFormat, d)
  else
    let group := readBe request 1 3
    let dtcs := if group = 0xFFFFFF then []
      else d.dtcs.filter fun dtc : Dtc => dtc.code >>> 16 != group >>> 16
    (positive request [], { d with dtcs })

/-- `Service::ReadDtcInformation`. -/
def readDtcInformation (d : Diagnostics) (request : List Byte) : List Byte × Diagnostics :=
  let service := request.getD 0 0
  let sub := subFunction request
  if request.length < 2 then (negative service .incorrectMessageLengthOrInvalidFormat, d)
  else
    match DtcReportType.ofByte sub with
    | some .reportNumberOfDtcByStatusMask =>
      if request.length < 3 then (negative service .incorrectMessageLengthOrInvalidFormat, d)
      else
        let count := d.dtcs.countP fun dtc => decide (dtc.status &&& request.getD 2 0 ≠ 0)
        (positive request ([sub, 0xFF, 0x01] ++ pushBe (BitVec.ofNat 32 (count % 2 ^ 16)) 2), d)
    | some .reportDtcByStatusMask =>
      let mask := if 3 ≤ request.length then request.getD 2 0 else 0xFF
      let reported := d.dtcs.filter fun dtc => decide (dtc.status &&& mask ≠ 0)
      (positive request
        ([sub, 0xFF] ++ reported.flatMap fun dtc => pushBe dtc.code 3 ++ [dtc.status]), d)
    | some .reportSupportedDtc =>
      (positive request
        ([sub, 0xFF] ++ d.dtcs.flatMap fun dtc => pushBe dtc.code 3 ++ [dtc.status]), d)
    | none => (negative service .subFunctionNotSupported, d)

/-- `Service::RoutineControl`. -/
def routineControl (d : Diagnostics) (request : List Byte) (now : ℕ) :
    Option (List Byte × Diagnostics) :=
  let service := request.getD 0 0
  if request.length < 4 then some (negative service .incorrectMessageLengthOrInvalidFormat, d)
  else
    let routine := (readBe request 2 2).setWidth 16
    let body := [subFunction request] ++ pushBe (routine.setWidth 32) 2
    if routine = 0xFF00#16 then  -- eraseMemory
      if d.unlocked = false then some (negative service .securityAccessDenied, d)
      else
        let d := { d with flash := List.replicate d.flash.length 0xFF }
        if d.config.eraseDurationNs ≠ 0 then
          -- `0x78` now, the real answer later
          some (negative service .requestCorrectlyReceivedResponsePending,
            { d with deferredResponse := (service + kPositiveResponseOffset) :: body ++ [0x00],
                     deferredService := service,
                     deferredUntilNs := addNs now d.config.eraseDurationNs, pendingLeft := 1 })
        else some (positive request (body ++ [0x00]), d)
    else if routine = 0xFF01#16 then  -- checkProgrammingDependencies
      (checksum d.flash d.downloadWritten.toNat).map fun sum =>
        (positive request (body ++ pushBe sum 4), d)
    else some (negative service .requestOutOfRange, d)

/-- `Service::RequestDownload`. -/
def requestDownload (d : Diagnostics) (request : List Byte) : List Byte × Diagnostics :=
  let service := request.getD 0 0
  if request.length < 4 then (negative service .incorrectMessageLengthOrInvalidFormat, d)
  else if d.session ≠ .programming then (negative service .serviceNotSupportedInActiveSession, d)
  else if d.unlocked = false then (negative service .securityAccessDenied, d)
  else
    let format := request.getD 2 0
    let addressBytes := (format &&& 0x0F).toNat
    let sizeBytes := (format >>> 4 &&& 0x0F).toNat
    if addressBytes = 0 ∨ sizeBytes = 0 ∨ request.length < 3 + addressBytes + sizeBytes then
      (negative service .incorrectMessageLengthOrInvalidFormat, d)
    else
      let d := { d with downloadAddress := readBe request 3 addressBytes,
                        downloadSize := readBe request (3 + addressBytes) sizeBytes }
      if d.downloadAddress < d.config.flashBase ∨
          d.config.flashSize < d.downloadAddress - d.config.flashBase + d.downloadSize then
        (negative service .requestOutOfRange, d)
      else
        (positive request ([0x20] ++ pushBe 512 2),
          { d with downloadActive := true, downloadComplete := false, downloadWritten := 0,
                   expectedBlock := 1 })

/-- `Service::TransferData`. -/
def transferData (d : Diagnostics) (request : List Byte) (now : ℕ) : List Byte × Diagnostics :=
  let service := request.getD 0 0
  if d.downloadActive = false then (negative service .requestSequenceError, d)
  else if request.length < 2 then (negative service .incorrectMessageLengthOrInvalidFormat, d)
  else
    let block := request.getD 1 0
    if block ≠ d.expectedBlock then
      -- the previous block again is accepted and does nothing
      if block = d.expectedBlock - 1 then (positive request [block], d)
      else (negative service .wrongBlockSequenceCounter, d)
    else
      let count := request.length - 2
      let offset := (d.downloadAddress - d.config.flashBase + d.downloadWritten).toNat
      if d.flash.length < offset + count then (negative service .requestOutOfRange, d)
      else
        let next := d.expectedBlock + 1
        let d := { d with flash := d.writeFlash offset (request.drop 2),
                          downloadWritten := d.downloadWritten + BitVec.ofNat 32 count,
                          expectedBlock := if next = 0 then 1 else next }
        if d.config.pendingResponsesPerBlock ≠ 0 then
          (negative service .requestCorrectlyReceivedResponsePending,
            { d with deferredResponse := [service + kPositiveResponseOffset, block],
                     deferredService := service, deferredUntilNs := now,
                     pendingLeft := d.config.pendingResponsesPerBlock })
        else (positive request [block], d)

/-- `Service::RequestTransferExit`. -/
def requestTransferExit (d : Diagnostics) (request : List Byte) : List Byte × Diagnostics :=
  let service := request.getD 0 0
  if d.downloadActive = false then (negative service .requestSequenceError, d)
  else if d.downloadWritten ≠ d.downloadSize then
    (negative service .generalProgrammingFailure, d)
  else (positive request [], { d with downloadActive := false, downloadComplete := true })

/-- `handle`: the answer and the state after it. -/
def handle (d : Diagnostics) (request : List Byte) (now : ℕ) : Option (List Byte × Diagnostics) :=
  match request with
  | [] => some ([], d)
  | service :: _ =>
    match Service.ofByte service with
    | some .diagnosticSessionControl => some (d.diagnosticSessionControl request)
    | some .ecuReset => some (d.ecuReset request)
    | some .testerPresent => some (d.testerPresentService request)
    | some .readDataByIdentifier => some (d.readDataByIdentifier request)
    | some .writeDataByIdentifier => some (d.writeDataByIdentifier request)
    | some .securityAccess => some (d.securityAccess request now)
    | some .clearDiagnosticInformation => some (d.clearDiagnosticInformation request)
    | some .readDtcInformation => some (d.readDtcInformation request)
    | some .routineControl => d.routineControl request now
    | some .requestDownload => some (d.requestDownload request)
    | some .transferData => some (d.transferData request now)
    | some .requestTransferExit => some (d.requestTransferExit request)
    | some .communicationControl => some (positive request [subFunction request], d)
    | none => some (negative service .serviceNotSupported, d)

end Diagnostics

/-- `UdsServer`. -/
structure UdsServer extends Diagnostics where
  receiver : Receiver
  sender : Sender
  sending : Bool := false
  handled : ℕ := 0

namespace UdsServer

/-- The constructor: the flash reads as erased. -/
def create (config : UdsServerConfig) : UdsServer where
  config := config
  flash := List.replicate config.flashSize.toNat 0xFF
  dtcs := config.dtcs
  receiver := { config := config.transport }
  sender := { config := config.transport }

/-- A sender that starts on `response`, if it can. -/
def send (s : UdsServer) (response : List Byte) (now : ℕ) : UdsServer :=
  match ({ config := s.config.transport } : Sender).begin response now with
  | .ok sender => { s with sender, sending := true }
  | .error _ => { s with sender := { config := s.config.transport } }

/-- The part of `on_frame` behind a completed request. -/
def respond (s : UdsServer) (request : List Byte) (now : ℕ) : Option UdsServer :=
  let s := { s with handled := s.handled + 1 }
  (s.handle request now).map fun (response, d) =>
    let s := { s with toDiagnostics := d }
    if response = [] then s else s.send response now

/-- `on_frame`; `none` reads behind the end of the flash. -/
def onFrame (s : UdsServer) (frame : FdFrame) (now : ℕ) : Option UdsServer :=
  if s.sending then some { s with sender := s.sender.onFrame frame now }
  else
    let receiver := s.receiver.onFrame frame now
    if receiver.hasMessage then
      { s with receiver := receiver.reset }.respond receiver.message now
    else some { s with receiver }

/-- The start of `poll`: the deferred answer goes out when it is due. -/
def releaseDeferred (s : UdsServer) (now : ℕ) : UdsServer :=
  if s.deferredResponse ≠ [] ∧ s.deferredUntilNs ≤ now ∧ s.sending = false then
    { s.send s.deferredResponse now with deferredResponse := [] }
  else s

/-- `poll`: the server after the call and the frames it returns. -/
def poll (s : UdsServer) (now : ℕ) : UdsServer × List FdFrame :=
  let s := s.releaseDeferred now
  if s.sending then
    let (sender, out) := s.sender.poll now
    if sender.done then
      ({ s with sender, sending := false, receiver := s.receiver.reset }, out)
    else ({ s with sender }, out)
  else if 0 < s.pendingLeft ∧ s.deferredResponse ≠ [] then
    -- while an answer is deferred, another `0x78`
    ({ s with pendingLeft := s.pendingLeft - 1 }.send
      (negative s.deferredService .requestCorrectlyReceivedResponsePending) now, [])
  else
    let (receiver, out) := s.receiver.poll now
    ({ s with receiver }, out)

/-- `add_dtc`. -/
def addDtc (s : UdsServer) (dtc : Dtc) : UdsServer := { s with dtcs := s.dtcs ++ [dtc] }

end UdsServer

end Sim
end Canforge
