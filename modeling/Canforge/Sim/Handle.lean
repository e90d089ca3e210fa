/-
# What a request can do

`Handled d request response d'` lists the outcomes of `handle`: the request is
rejected, or answered without an effect, or has the effect of its service, with the
conditions under which it has it.  `handle_handled` says that there are no others,
one lemma for each case of the `switch`.  The results about the flash, the download
and the authorisation are case analyses of `Handled`; none of them unfolds a
service again.
-/

import Canforge.Sim.UdsServer

namespace Canforge
namespace Sim

open Canforge.Core IsoTp Uds

/-! ### Requests -/

/-- The bytes of the address field of a RequestDownload. -/
def addressBytes (request : List Byte) : ℕ := (request.getD 2 0 &&& 0x0F).toNat

/-- The bytes of its size field. -/
def sizeBytes (request : List Byte) : ℕ := (request.getD 2 0 >>> 4 &&& 0x0F).toNat

/-- The address a RequestDownload is read as. -/
def requestedAddress (request : List Byte) : BitVec 32 := readBe request 3 (addressBytes request)

/-- The size it is read as. -/
def requestedSize (request : List Byte) : BitVec 32 :=
  readBe request (3 + addressBytes request) (sizeBytes request)

namespace Diagnostics

/-- A RequestDownload that passes every check but that of its range. -/
structure AsksDownload (d : Diagnostics) (request : List Byte) : Prop where
  service : request.getD 0 0 = Service.requestDownload.toByte
  length : 4 ≤ request.length
  session : d.session = .programming
  unlocked : d.unlocked = true
  address : addressBytes request ≠ 0
  size : sizeBytes request ≠ 0
  fields : 3 + addressBytes request + sizeBytes request ≤ request.length

/-- The range of a RequestDownload fails the check, made with 32-bit numbers. -/
def OutOfRange (d : Diagnostics) (request : List Byte) : Prop :=
  requestedAddress request < d.config.flashBase ∨
    d.config.flashSize < requestedAddress request - d.config.flashBase + requestedSize request

/-- Where the next block goes, as the code computes it. -/
def blockOffset (d : Diagnostics) : ℕ :=
  (d.downloadAddress - d.config.flashBase + d.downloadWritten).toNat

/-- A TransferData whose block is written: the expected one, within the flash. -/
structure WritesBlock (d : Diagnostics) (request : List Byte) : Prop where
  service : request.getD 0 0 = Service.transferData.toByte
  active : d.downloadActive = true
  length : 2 ≤ request.length
  block : request.getD 1 0 = d.expectedBlock
  fits : d.blockOffset + (request.length - 2) ≤ d.flash.length

instance (d : Diagnostics) (request : List Byte) : Decidable (d.OutOfRange request) :=
  inferInstanceAs (Decidable (_ ∨ _))

/-- A request of a service and its positive answer, which may be suppressed. -/
structure Positive (service : Service) (request response : List Byte) : Prop where
  service : request.getD 0 0 = service.toByte
  response : ∃ body, response = positive request body

theorem Positive.ne_negative {service : Service} {request response : List Byte}
    (h : Positive service request response) (rest : List Byte) :
    response ≠ kNegativeResponse :: rest := by
  obtain ⟨hs, body, rfl⟩ := h
  rw [positive, hs]
  split_ifs
  · exact List.cons_ne_nil _ _ ∘ Eq.symm
  · intro h
    have := List.head_eq_of_cons_eq h
    cases service <;> cases this

/-- A slow service answers at once, or with `0x78` and a deferred positive answer. -/
def Deferral (service : Service) (d : Diagnostics) (request response deferredResponse : List Byte)
    (deferredService : Byte) : Prop :=
  (Positive service request response ∧ deferredResponse = d.deferredResponse ∧
      deferredService = d.deferredService) ∨
    (response = negative (request.getD 0 0) .requestCorrectlyReceivedResponsePending ∧
      deferredService = request.getD 0 0 ∧
      ∃ body, deferredResponse = (request.getD 0 0 + kPositiveResponseOffset) :: body)

/-- What a request does: the answers and the states `handle` can end in. -/
inductive Handled (d : Diagnostics) (request : List Byte) : List Byte → Diagnostics → Prop
  | empty (nothing : request = []) : Handled d request [] d
  | rejected (nrc : Nrc) (final : nrc ≠ .requestCorrectlyReceivedResponsePending)
      (testerPresent : ℕ) :
      Handled d request (negative (request.getD 0 0) nrc) { d with testerPresent }
  | answered {response : List Byte} {service : Service} (other : service ≠ .requestDownload)
      (positive : Positive service request response) (testerPresent : ℕ) :
      Handled d request response { d with testerPresent }
  | enteredSession {response : List Byte}
      (positive : Positive .diagnosticSessionControl request response) (session : SessionType) :
      Handled d request response
        { d with session, unlocked := if session = .default then false else d.unlocked }
  | reset {response : List Byte} (positive : Positive .ecuReset request response) :
      Handled d request response
        { d with session := .default, unlocked := false, downloadActive := false }
  | wroteData {response : List Byte} (positive : Positive .writeDataByIdentifier request response)
      (dataByIdentifier : BitVec 16 → Option (List Byte)) :
      Handled d request response { d with config := { d.config with dataByIdentifier } }
  | sentSeed {response : List Byte} (positive : Positive .securityAccess request response)
      (session : d.session ≠ .default) (securityLevel : Byte) (lastSeed : BitVec 32) :
      Handled d request response { d with securityLevel, lastSeed }
  | acceptedKey {response : List Byte} (positive : Positive .securityAccess request response)
      (session : d.session ≠ .default) : Handled d request response { d with unlocked := true }
  | clearedDtcs {response : List Byte}
      (positive : Positive .clearDiagnosticInformation request response) (dtcs : List Dtc) :
      Handled d request response { d with dtcs }
  | erased {response : List Byte} (service : request.getD 0 0 = Service.routineControl.toByte)
      (unlocked : d.unlocked = true) (deferredResponse : List Byte) (deferredService : Byte)
      (deferral : Deferral .routineControl d request response deferredResponse deferredService)
      (deferredUntilNs : ℕ) (pendingLeft : BitVec 32) :
      Handled d request response
        { d with flash := List.replicate d.flash.length 0xFF, deferredResponse, deferredService,
                 deferredUntilNs, pendingLeft }
  | refusedDownload (asks : d.AsksDownload request) (range : d.OutOfRange request) :
      Handled d request (negative (request.getD 0 0) .requestOutOfRange)
        { d with downloadAddress := requestedAddress request,
                 downloadSize := requestedSize request }
  | acceptedDownload {response : List Byte} (positive : Positive .requestDownload request response)
      (asks : d.AsksDownload request) (range : ¬ d.OutOfRange request) :
      Handled d request response
        { d with downloadAddress := requestedAddress request,
                 downloadSize := requestedSize request, downloadActive := true,
                 downloadComplete := false, downloadWritten := 0, expectedBlock := 1 }
  | wroteBlock {response : List Byte} (writes : d.WritesBlock request) (expectedBlock : Byte)
      (deferredResponse : List Byte) (deferredService : Byte)
      (deferral : Deferral .transferData d request response deferredResponse deferredService)
      (deferredUntilNs : ℕ) (pendingLeft : BitVec 32) :
      Handled d request response
        { d with flash := d.writeFlash d.blockOffset (request.drop 2),
                 downloadWritten := d.downloadWritten + BitVec.ofNat 32 (request.length - 2),
                 expectedBlock, deferredResponse, deferredService, deferredUntilNs, pendingLeft }
  | exited {response : List Byte} (positive : Positive .requestTransferExit request response) :
      Handled d request response { d with downloadActive := false, downloadComplete := true }

variable {d d' : Diagnostics} {request response : List Byte} {now : ℕ}

/-- The result of one case of the `switch` is one of the outcomes. -/
def Outcome (d : Diagnostics) (request : List Byte) (out : List Byte × Diagnostics) : Prop :=
  Handled d request out.1 out.2

theorem Outcome.ite {c : Prop} [Decidable c] {a b : List Byte × Diagnostics}
    (ht : c → Outcome d request a) (he : ¬ c → Outcome d request b) :
    Outcome d request (if c then a else b) := by
  split_ifs with h
  · exact ht h
  · exact he h

theorem Outcome.negative (nrc : Nrc) (final : nrc ≠ .requestCorrectlyReceivedResponsePending) :
    Outcome d request (negative (request.getD 0 0) nrc, d) :=
  .rejected nrc final d.testerPresent

/-- A check that rejects the request. -/
theorem Outcome.guard {c : Prop} [Decidable c] {nrc : Nrc} {b : List Byte × Diagnostics}
    (final : nrc ≠ .requestCorrectlyReceivedResponsePending) (h : ¬ c → Outcome d request b) :
    Outcome d request (if c then (Sim.negative (request.getD 0 0) nrc, d) else b) :=
  .ite (fun _ => .negative nrc final) h

theorem Outcome.positive {service : Service} (other : service ≠ .requestDownload)
    (hs : request.getD 0 0 = service.toByte) (body : List Byte) :
    Outcome d request (positive request body, d) :=
  .answered other ⟨hs, body, rfl⟩ d.testerPresent

theorem diagnosticSessionControl_outcome
    (hs : request.getD 0 0 = Service.diagnosticSessionControl.toByte) :
    Outcome d request (d.diagnosticSessionControl request) := by
  refine .guard (by decide) fun _ => ?_
  cases SessionType.ofByte (subFunction request) with
  | none => exact .negative _ (by decide)
  | some session => exact Handled.enteredSession ⟨hs, _, rfl⟩ session

theorem ecuReset_outcome
    (hs : request.getD 0 0 = Service.ecuReset.toByte) :
    Outcome d request (d.ecuReset request) := by
  refine .guard (by decide) fun _ => .guard (by decide) fun _ => ?_
  exact Handled.reset ⟨hs, _, rfl⟩

theorem testerPresent_outcome
    (hs : request.getD 0 0 = Service.testerPresent.toByte) :
    Outcome d request (d.testerPresentService request) := by
  refine .ite (fun _ => ?_) fun _ => ?_
  · exact Handled.rejected _ (by decide) _
  · exact Handled.answered (by decide) ⟨hs, _, rfl⟩ _

theorem readDataByIdentifier_outcome
    (hs : request.getD 0 0 = Service.readDataByIdentifier.toByte) :
    Outcome d request (d.readDataByIdentifier request) := by
  refine .guard (by decide) fun _ => ?_
  cases d.config.dataByIdentifier ((readBe request 1 2).setWidth 16) with
  | none => exact .negative _ (by decide)
  | some value => exact .positive (by decide) hs _

theorem writeDataByIdentifier_outcome
    (hs : request.getD 0 0 = Service.writeDataByIdentifier.toByte) :
    Outcome d request (d.writeDataByIdentifier request) := by
  refine .guard (by decide) fun _ => ?_
  cases d.config.dataByIdentifier ((readBe request 1 2).setWidth 16) with
  | none => exact .negative _ (by decide)
  | some value =>
    refine .guard (by decide) fun _ => ?_
    exact Handled.wroteData ⟨hs, _, rfl⟩ _

theorem securityAccess_outcome
    (hs : request.getD 0 0 = Service.securityAccess.toByte) :
    Outcome d request (d.securityAccess request now) := by
  refine .guard (by decide) fun _ => .guard (by decide) fun hsession => ?_
  refine .ite (fun _ => ?_) fun _ => .guard (by decide) fun _ =>
    .guard (by decide) fun _ => .guard (by decide) fun _ => ?_
  · exact Handled.sentSeed ⟨hs, _, rfl⟩ hsession _ _
  · exact Handled.acceptedKey ⟨hs, _, rfl⟩ hsession

theorem clearDiagnosticInformation_outcome
    (hs : request.getD 0 0 = Service.clearDiagnosticInformation.toByte) :
    Outcome d request (d.clearDiagnosticInformation request) :=
  .guard (by decide) fun _ => Handled.clearedDtcs ⟨hs, _, rfl⟩ _

theorem readDtcInformation_outcome
    (hs : request.getD 0 0 = Service.readDtcInformation.toByte) :
    Outcome d request (d.readDtcInformation request) := by
  refine .guard (by decide) fun _ => ?_
  cases DtcReportType.ofByte (subFunction request) with
  | none => exact .negative _ (by decide)
  | some type =>
    cases type with
    | reportNumberOfDtcByStatusMask => exact .guard (by decide) fun _ => .positive (by decide) hs _
    | reportDtcByStatusMask => exact .positive (by decide) hs _
    | reportSupportedDtc => exact .positive (by decide) hs _

theorem routineControl_outcome {out : List Byte × Diagnostics}
    (hs : request.getD 0 0 = Service.routineControl.toByte)
    (hr : d.routineControl request now = some out) : Outcome d request out := by
  unfold routineControl at hr
  by_cases hlen : request.length < 4
  · rw [if_pos hlen] at hr
    cases hr
    exact .negative _ (by decide)
  rw [if_neg hlen] at hr
  by_cases herase : (readBe request 2 2).setWidth 16 = 0xFF00#16
  · simp only [if_pos herase] at hr
    by_cases hlocked : d.unlocked = false
    · rw [if_pos hlocked] at hr
      cases hr
      exact .negative _ (by decide)
    rw [if_neg hlocked] at hr
    have hunlocked := eq_true_of_ne_false hlocked
    by_cases hduration : d.config.eraseDurationNs ≠ 0
    · rw [if_pos hduration] at hr
      cases hr
      exact Handled.erased hs hunlocked _ _ (.inr ⟨rfl, rfl, _, rfl⟩) _ _
    · rw [if_neg hduration] at hr
      cases hr
      exact Handled.erased hs hunlocked d.deferredResponse d.deferredService
        (.inl ⟨⟨hs, _, rfl⟩, rfl, rfl⟩) d.deferredUntilNs d.pendingLeft
  simp only [if_neg herase] at hr
  by_cases hverify : (readBe request 2 2).setWidth 16 = 0xFF01#16
  · rw [if_pos hverify] at hr
    obtain ⟨sum, _, rfl⟩ := Option.map_eq_some_iff.1 hr
    exact .positive (by decide) hs _
  · rw [if_neg hverify] at hr
    cases hr
    exact .negative _ (by decide)

theorem requestDownload_outcome
    (hs : request.getD 0 0 = Service.requestDownload.toByte) :
    Outcome d request (d.requestDownload request) := by
  refine .guard (by decide) fun hlen => .guard (by decide) fun hsession =>
    .guard (by decide) fun hlocked => .guard (by decide) fun hformat => ?_
  have asks : d.AsksDownload request :=
    { service := hs
      length := Nat.not_lt.1 hlen
      session := not_not.1 hsession
      unlocked := eq_true_of_ne_false hlocked
      address := fun h => hformat (.inl h)
      size := fun h => hformat (.inr (.inl h))
      fields := Nat.not_lt.1 fun h => hformat (.inr (.inr h)) }
  refine .ite (fun hrange => ?_) fun hrange => ?_
  · exact Handled.refusedDownload asks hrange
  · exact Handled.acceptedDownload ⟨hs, _, rfl⟩ asks hrange

theorem transferData_outcome
    (hs : request.getD 0 0 = Service.transferData.toByte) :
    Outcome d request (d.transferData request now) := by
  refine .guard (by decide) fun hactive => .guard (by decide) fun hlen =>
    .ite (fun _ => .ite (fun _ => .positive (by decide) hs _) fun _ => .negative _ (by decide))
      fun hblock => .guard (by decide) fun hfits => ?_
  have writes : d.WritesBlock request :=
    { service := hs
      active := eq_true_of_ne_false hactive
      length := Nat.not_lt.1 hlen
      block := not_not.1 hblock
      fits := Nat.not_lt.1 hfits }
  refine .ite (fun _ => ?_) fun _ => ?_
  · exact Handled.wroteBlock writes _ _ _ (.inr ⟨rfl, rfl, _, rfl⟩) _ _
  · exact Handled.wroteBlock writes _ d.deferredResponse d.deferredService
      (.inl ⟨⟨hs, _, rfl⟩, rfl, rfl⟩) d.deferredUntilNs d.pendingLeft

theorem requestTransferExit_outcome
    (hs : request.getD 0 0 = Service.requestTransferExit.toByte) :
    Outcome d request (d.requestTransferExit request) := by
  refine .guard (by decide) fun _ => .guard (by decide) fun _ => ?_
  exact Handled.exited ⟨hs, _, rfl⟩

/-- **Every answer of `handle` is one of the outcomes.** -/
theorem handle_handled (h : d.handle request now = some (response, d')) :
    Handled d request response d' := by
  cases request with
  | nil =>
    cases h
    exact .empty rfl
  | cons b bs =>
    rw [handle] at h
    cases hs : Service.ofByte b with
    | none =>
      rw [hs] at h
      cases h
      exact Outcome.negative .serviceNotSupported (by decide)
    | some service =>
      rw [hs] at h
      have hs : (b :: bs).getD 0 0 = service.toByte := Service.toByte_of_ofByte hs
      have hout {out : List Byte × Diagnostics} (ho : Outcome d (b :: bs) out)
          (heq : some out = some (response, d')) : Handled d (b :: bs) response d' := by
        cases heq
        exact ho
      cases service with
      | diagnosticSessionControl => exact hout (diagnosticSessionControl_outcome hs) h
      | ecuReset => exact hout (ecuReset_outcome hs) h
      | clearDiagnosticInformation => exact hout (clearDiagnosticInformation_outcome hs) h
      | readDtcInformation => exact hout (readDtcInformation_outcome hs) h
      | readDataByIdentifier => exact hout (readDataByIdentifier_outcome hs) h
      | securityAccess => exact hout (securityAccess_outcome hs) h
      | communicationControl => exact hout (.positive (by decide) hs _) h
      | writeDataByIdentifier => exact hout (writeDataByIdentifier_outcome hs) h
      | routineControl => exact hout (routineControl_outcome hs h) rfl
      | requestDownload => exact hout (requestDownload_outcome hs) h
      | transferData => exact hout (transferData_outcome hs) h
      | requestTransferExit => exact hout (requestTransferExit_outcome hs) h
      | testerPresent => exact hout (testerPresent_outcome hs) h

/-- **What changes the flash:** the erase of an unlocked server, or a block. -/
theorem Handled.flash_cases (h : Handled d request response d') :
    d'.flash = d.flash ∨
      (request.getD 0 0 = Service.routineControl.toByte ∧ d.unlocked = true) ∨
      (d.WritesBlock request ∧ d'.flash = d.writeFlash d.blockOffset (request.drop 2)) := by
  cases h with
  | erased service unlocked => exact .inr (.inl ⟨service, unlocked⟩)
  | wroteBlock writes => exact .inr (.inr ⟨writes, rfl⟩)
  | _ => exact .inl rfl

/-- The service that answers a request. -/
theorem handle_eq {service : Service} (hlen : 1 ≤ request.length)
    (hs : request.getD 0 0 = service.toByte) :
    ∃ b bs, request = b :: bs ∧ Service.ofByte b = some service := by
  cases request with
  | nil => simp at hlen
  | cons b bs => exact ⟨b, bs, rfl, by rw [← service.ofByte_toByte, ← hs]; rfl⟩

/-- A RequestDownload that only fails the range check has an effect. -/
theorem AsksDownload.refused (asks : d.AsksDownload request) (range : d.OutOfRange request) :
    d.handle request now = some (negative (request.getD 0 0) .requestOutOfRange,
      { d with downloadAddress := requestedAddress request,
               downloadSize := requestedSize request }) := by
  obtain ⟨b, bs, rfl, hb⟩ := handle_eq (by have := asks.length; omega) asks.service
  have hformat : ¬ (addressBytes (b :: bs) = 0 ∨ sizeBytes (b :: bs) = 0 ∨
      (b :: bs).length < 3 + addressBytes (b :: bs) + sizeBytes (b :: bs)) := by
    rintro (h | h | h)
    · exact asks.address h
    · exact asks.size h
    · have := asks.fields
      omega
  rw [handle, hb]
  simp only [requestDownload]
  rw [if_neg (Nat.not_lt.2 asks.length), if_neg (not_not.2 asks.session),
    if_neg (by rw [asks.unlocked]; decide)]
  exact congrArg some ((if_neg hformat).trans (if_pos range))

/-- A block that passes every check is written. -/
theorem WritesBlock.written (now : ℕ) (writes : d.WritesBlock request) :
    ∃ response d', d.handle request now = some (response, d') ∧
      d'.flash = d.writeFlash d.blockOffset (request.drop 2) := by
  obtain ⟨b, bs, rfl, hb⟩ := handle_eq (by have := writes.length; omega) writes.service
  rw [handle, hb]
  simp only [transferData]
  rw [if_neg (by rw [writes.active]; decide), if_neg (Nat.not_lt.2 writes.length),
    if_neg (not_not.2 writes.block)]
  have hfits := Nat.not_lt.2 writes.fits
  by_cases hpending : d.config.pendingResponsesPerBlock ≠ 0
  · exact ⟨_, _, congrArg some ((if_neg hfits).trans (if_pos hpending)), rfl⟩
  · exact ⟨_, _, congrArg some ((if_neg hfits).trans (if_neg hpending)), rfl⟩

end Diagnostics

end Sim
end Canforge
