/-
# UDS services, response codes and byte order

The parts of `uds/include/canforge/uds/Uds.hpp` that the client and the simulated
server share: service identifiers, sessions, the negative response codes the
server answers with, the suppress-positive-response bit, and the big-endian
`read_be` and `push_be`.
-/

import Canforge.Core.Word

namespace Canforge
namespace Uds

open Canforge.Core

/-- `Service`. -/
inductive Service
  | diagnosticSessionControl
  | ecuReset
  | clearDiagnosticInformation
  | readDtcInformation
  | readDataByIdentifier
  | securityAccess
  | communicationControl
  | writeDataByIdentifier
  | routineControl
  | requestDownload
  | transferData
  | requestTransferExit
  | testerPresent
  deriving DecidableEq, Repr

namespace Service

/-- The service identifier. -/
def toByte : Service → Byte
  | diagnosticSessionControl => 0x10
  | ecuReset => 0x11
  | clearDiagnosticInformation => 0x14
  | readDtcInformation => 0x19
  | readDataByIdentifier => 0x22
  | securityAccess => 0x27
  | communicationControl => 0x28
  | writeDataByIdentifier => 0x2E
  | routineControl => 0x31
  | requestDownload => 0x34
  | transferData => 0x36
  | requestTransferExit => 0x37
  | testerPresent => 0x3E

/-- `static_cast<Service>`; `none` is a value without an enumerator. -/
def ofByte (b : Byte) : Option Service :=
  [diagnosticSessionControl, ecuReset, clearDiagnosticInformation, readDtcInformation,
    readDataByIdentifier, securityAccess, communicationControl, writeDataByIdentifier,
    routineControl, requestDownload, transferData, requestTransferExit,
    testerPresent].find? (·.toByte = b)

theorem ofByte_toByte (s : Service) : ofByte s.toByte = some s := by cases s <;> rfl

theorem toByte_of_ofByte {b : Byte} {s : Service} (h : ofByte b = some s) : b = s.toByte := by
  have hs := List.find?_some h
  exact (of_decide_eq_true hs).symm

end Service

/-- `SessionType`. -/
inductive SessionType
  | default
  | programming
  | extendedDiagnostic
  | safetySystemDiagnostic
  deriving DecidableEq, Repr

/-- `static_cast<SessionType>`; `none` is a value without an enumerator. -/
def SessionType.ofByte (b : Byte) : Option SessionType :=
  match b.toNat with
  | 1 => some .default
  | 2 => some .programming
  | 3 => some .extendedDiagnostic
  | 4 => some .safetySystemDiagnostic
  | _ => none

/-- The value of the enumerator. -/
def SessionType.toByte : SessionType → Byte
  | default => 0x01
  | programming => 0x02
  | extendedDiagnostic => 0x03
  | safetySystemDiagnostic => 0x04

theorem SessionType.toByte_of_ofByte {b : Byte} {session : SessionType}
    (h : ofByte b = some session) : session.toByte = b := by
  have hbyte (hb : b.toNat = session.toByte.toNat) : session.toByte = b :=
    (BitVec.eq_of_toNat_eq hb).symm
  unfold ofByte at h
  split at h <;> rename_i hb <;> cases h <;> exact hbyte hb

/-- `DtcReportType`, as far as it has a number here. -/
inductive DtcReportType
  | reportNumberOfDtcByStatusMask
  | reportDtcByStatusMask
  | reportSupportedDtc
  deriving DecidableEq, Repr

/-- `static_cast<DtcReportType>`; `none` is a value without an enumerator. -/
def DtcReportType.ofByte (b : Byte) : Option DtcReportType :=
  match b.toNat with
  | 0x01 => some .reportNumberOfDtcByStatusMask
  | 0x02 => some .reportDtcByStatusMask
  | 0x0A => some .reportSupportedDtc
  | _ => none

/-- The codes of `Nrc` that the simulated server answers with. -/
inductive Nrc
  | serviceNotSupported
  | subFunctionNotSupported
  | incorrectMessageLengthOrInvalidFormat
  | requestSequenceError
  | requestOutOfRange
  | securityAccessDenied
  | invalidKey
  | generalProgrammingFailure
  | wrongBlockSequenceCounter
  | requestCorrectlyReceivedResponsePending
  | serviceNotSupportedInActiveSession
  deriving DecidableEq, Repr

/-- The code on the wire. -/
def Nrc.toByte : Nrc → Byte
  | serviceNotSupported => 0x11
  | subFunctionNotSupported => 0x12
  | incorrectMessageLengthOrInvalidFormat => 0x13
  | requestSequenceError => 0x24
  | requestOutOfRange => 0x31
  | securityAccessDenied => 0x33
  | invalidKey => 0x35
  | generalProgrammingFailure => 0x72
  | wrongBlockSequenceCounter => 0x73
  | requestCorrectlyReceivedResponsePending => 0x78
  | serviceNotSupportedInActiveSession => 0x7F

/-- `kPositiveResponseOffset`. -/
def kPositiveResponseOffset : Byte := 0x40

/-- `kNegativeResponse`. -/
def kNegativeResponse : Byte := 0x7F

/-- `kSuppressPositiveResponse`. -/
def kSuppressPositiveResponse : Byte := 0x80

/-- `has_sub_function`: the services whose second byte is a sub-function. -/
def hasSubFunction (service : Byte) : Bool :=
  [Service.diagnosticSessionControl, .ecuReset, .readDtcInformation, .securityAccess,
    .communicationControl, .routineControl, .testerPresent].any (·.toByte = service)

/-- The request asks for no positive response. -/
def suppresses (request : List Byte) : Bool :=
  hasSubFunction (request.getD 0 0) && decide (2 ≤ request.length) &&
    decide (request.getD 1 0 &&& kSuppressPositiveResponse ≠ 0)

/-- `read_be`: `bytes` bytes at `pos`, of which the last four count. -/
def readBe (data : List Byte) (pos bytes : ℕ) : BitVec 32 :=
  ((data.drop pos).take bytes).foldl (fun value b => value <<< 8 ||| b.setWidth 32) 0

/-- `push_be`: the `bytes` bytes to append. -/
def pushBe (value : BitVec 32) (bytes : ℕ) : List Byte :=
  (List.range bytes).reverse.map fun i => (value >>> (i * 8)).setWidth 8

/-- `Dtc`, a trouble code and its status. -/
structure Dtc where
  code : BitVec 32 := 0
  status : Byte := 0
  deriving DecidableEq, Repr

end Uds
end Canforge
