/-
# Rejected requests change nothing

A negative answer other than `0x78` should leave the state alone.  Every service
checks before it assigns except RequestDownload, which assigns the address and the
size it reads before it checks their range.  `error_atomic_iff` says that this is
the only exception: the state is kept unless a RequestDownload fails at its range and
asks for another address or size than the stored ones.
-/

import Canforge.Sim.Runs

namespace Canforge
namespace Sim

open Canforge.Core IsoTp Lib Uds

namespace Diagnostics

/-- The state a rejected request is to keep: session, security, flash, identifiers,
trouble codes and download. -/
structure Same (d d' : Diagnostics) : Prop where
  session : d'.session = d.session
  unlocked : d'.unlocked = d.unlocked
  securityLevel : d'.securityLevel = d.securityLevel
  lastSeed : d'.lastSeed = d.lastSeed
  flash : d'.flash = d.flash
  dataByIdentifier : d'.config.dataByIdentifier = d.config.dataByIdentifier
  dtcs : d'.dtcs = d.dtcs
  downloadActive : d'.downloadActive = d.downloadActive
  downloadAddress : d'.downloadAddress = d.downloadAddress
  downloadSize : d'.downloadSize = d.downloadSize
  downloadWritten : d'.downloadWritten = d.downloadWritten
  expectedBlock : d'.expectedBlock = d.expectedBlock
  downloadComplete : d'.downloadComplete = d.downloadComplete

/-- A negative answer with a code other than `0x78`. -/
def IsError (response : List Byte) : Prop :=
  ∃ service code, response = [kNegativeResponse, service, code] ∧
    code ≠ Nrc.requestCorrectlyReceivedResponsePending.toByte

/-- A RequestDownload that fails at its range and asks for something else than the
stored range. -/
structure RefusedElsewhere (d : Diagnostics) (request : List Byte) : Prop where
  asks : d.AsksDownload request
  range : d.OutOfRange request
  elsewhere : requestedAddress request ≠ d.downloadAddress ∨
    requestedSize request ≠ d.downloadSize

variable {d d' : Diagnostics} {request response : List Byte} {now : ℕ}

theorem Positive.not_isError {service : Service} (h : Positive service request response) :
    ¬ IsError response := fun ⟨_, _, heq, _⟩ => h.ne_negative _ heq

theorem not_isError_pending {service : Byte} :
    ¬ IsError (negative service .requestCorrectlyReceivedResponsePending) := by
  rintro ⟨_, _, heq, hne⟩
  simp only [negative, List.cons.injEq, and_true, true_and] at heq
  exact hne heq.2.symm

/-- An outcome with an error leaves the state alone, or it is a refused download. -/
theorem Handled.same_or_refused (h : Handled d request response d') (he : IsError response) :
    Same d d' ∨ (d.AsksDownload request ∧ d.OutOfRange request ∧
      d' = { d with downloadAddress := requestedAddress request,
                    downloadSize := requestedSize request }) := by
  cases h with
  | empty => obtain ⟨_, _, heq, _⟩ := he; cases heq
  | rejected nrc final testerPresent =>
    exact .inl ⟨rfl, rfl, rfl, rfl, rfl, rfl, rfl, rfl, rfl, rfl, rfl, rfl, rfl⟩
  | refusedDownload asks range => exact .inr ⟨asks, range, rfl⟩
  | erased service unlocked deferredResponse deferredService deferral =>
    rcases deferral with ⟨h, _⟩ | ⟨rfl, _⟩
    · exact absurd he h.not_isError
    · exact absurd he not_isError_pending
  | wroteBlock writes expectedBlock deferredResponse deferredService deferral =>
    rcases deferral with ⟨h, _⟩ | ⟨rfl, _⟩
    · exact absurd he h.not_isError
    · exact absurd he not_isError_pending
  | answered other positive => exact absurd he positive.not_isError
  | enteredSession positive => exact absurd he positive.not_isError
  | reset positive => exact absurd he positive.not_isError
  | wroteData positive => exact absurd he positive.not_isError
  | sentSeed positive => exact absurd he positive.not_isError
  | acceptedKey positive => exact absurd he positive.not_isError
  | clearedDtcs positive => exact absurd he positive.not_isError
  | acceptedDownload positive => exact absurd he positive.not_isError
  | exited positive => exact absurd he positive.not_isError

/-- **Error atomicity, exactly.**  In whatever state and whatever the request, an error
keeps the state if and only if the request is not a RequestDownload that fails at its
range and asks for something else than the stored range. -/
theorem error_atomic_iff (h : d.handle request now = some (response, d')) :
    (IsError response → Same d d') ↔ ¬ d.RefusedElsewhere request := by
  constructor
  · intro hsame hr
    cases h.symm.trans (hr.asks.refused hr.range)
    have hs := hsame ⟨_, _, rfl, by decide⟩
    rcases hr.elsewhere with hne | hne
    · exact hne hs.downloadAddress
    · exact hne hs.downloadSize
  · intro hno he
    rcases (handle_handled h).same_or_refused he with hsame | ⟨asks, range, rfl⟩
    · exact hsame
    · have haddress : requestedAddress request = d.downloadAddress := by
        by_cases heq : requestedAddress request = d.downloadAddress
        · exact heq
        · exact absurd ⟨asks, range, .inl heq⟩ hno
      have hsize : requestedSize request = d.downloadSize := by
        by_cases heq : requestedSize request = d.downloadSize
        · exact heq
        · exact absurd ⟨asks, range, .inr heq⟩ hno
      exact ⟨rfl, rfl, rfl, rfl, rfl, rfl, rfl, rfl, haddress, hsize, rfl, rfl, rfl⟩

/-- A download is not available in the default session, and nothing changes. -/
theorem error_atomic_default_session :
    Same (UdsServer.create UdsServer.fourBytes).toDiagnostics
      (UdsServer.create UdsServer.fourBytes).toDiagnostics :=
  have h : (UdsServer.create UdsServer.fourBytes).handle [0x34, 0x00, 0x11, 0x08, 0x04] 0 =
    some ([0x7F, 0x34, 0x7F], (UdsServer.create UdsServer.fourBytes).toDiagnostics) := rfl
  (error_atomic_iff h).2 (fun hr => nomatch hr.asks.session) ⟨_, _, rfl, by decide⟩

/-- **The defect.**  In a download from `0x08000000` a RequestDownload for four bytes
at `0x07FFFFFC` is answered with requestOutOfRange, and yet sets the address. -/
theorem refused_download_moves_address : ∃ s : UdsServer, ∃ d',
    UdsServer.Reachable UdsServer.fourBytes s ∧
      s.handle [0x34, 0x00, 0x44, 0x07, 0xFF, 0xFF, 0xFC, 0, 0, 0, 4] 0 =
        some ([0x7F, 0x34, 0x31], d') ∧
      s.downloadActive = true ∧ s.downloadAddress = 0x08000000 ∧
      d'.downloadAddress = 0x07FFFFFC := by
  have hrun : ((run UdsServer.step (fun _ _ => True) (UdsServer.create UdsServer.fourBytes)
      UdsServer.startDownload).bind fun s =>
        (s.handle [0x34, 0x00, 0x44, 0x07, 0xFF, 0xFF, 0xFC, 0, 0, 0, 4] 0).map fun out =>
          (out.1, s.downloadActive, s.downloadAddress, out.2.downloadAddress)) =
      some ([0x7F, 0x34, 0x31], true, 0x08000000, 0x07FFFFFC) := by decide +kernel
  obtain ⟨s, hs, hst⟩ := Option.bind_eq_some_iff.1 hrun
  obtain ⟨⟨response, d'⟩, hd, heq⟩ := Option.map_eq_some_iff.1 hst
  simp only [Prod.mk.injEq] at heq
  obtain ⟨rfl, hrest⟩ := heq
  exact ⟨s, d', .of_run .refl hs, hd, hrest⟩

end Diagnostics

end Sim
end Canforge
