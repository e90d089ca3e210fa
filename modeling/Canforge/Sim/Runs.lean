/-
# Runs of the server

What can happen to a `UdsServer`: a frame arrives, it is polled, a fault sets a
trouble code, or, past the transport, a whole request of any length is handled at
any time, which is what `on_frame` does behind the last frame of one.  `step_cases`
divides the steps into those that handle a request, which is `incoming`, and those that
leave the diagnostic state as it was but for the deferred answer and the trouble
codes.
-/

import Canforge.Lib.Transition
import Canforge.Sim.Handle

namespace Canforge
namespace Sim

open Canforge.Core IsoTp Lib Uds

/-- What can happen to a server. -/
inductive ServerEvent
  | frame (frame : FdFrame) (now : ℕ)
  | poll (now : ℕ)
  | addDtc (dtc : Dtc)
  | request (request : List Byte) (now : ℕ)

namespace UdsServer

/-- One event; `none` is a read behind the end of the flash. -/
def step (s : UdsServer) : ServerEvent → Option UdsServer
  | .frame frame now => s.onFrame frame now
  | .poll now => some (s.poll now).1
  | .addDtc dtc => some (s.addDtc dtc)
  | .request request now => s.respond request now

/-- The request an event makes the server handle, and the time. -/
def incoming (s : UdsServer) : ServerEvent → Option (List Byte × ℕ)
  | .frame frame now =>
    if s.sending then none
    else if (s.receiver.onFrame frame now).hasMessage then
      some ((s.receiver.onFrame frame now).message, now)
    else none
  | .poll _ => none
  | .addDtc _ => none
  | .request request now => some (request, now)

/-- The request of an event, if it has one, meets `P`. -/
def Asked (s : UdsServer) (e : ServerEvent) (P : List Byte → Prop) : Prop :=
  ∀ request now, s.incoming e = some (request, now) → P request

instance (s : UdsServer) (e : ServerEvent) (P : List Byte → Prop) [DecidablePred P] :
    Decidable (s.Asked e P) :=
  match h : s.incoming e with
  | none => .isTrue fun _ _ h' => nomatch h.symm.trans h'
  | some (request, now) =>
    decidable_of_iff (P request) ⟨fun hp _ _ h' => by cases h.symm.trans h'; exact hp,
      fun hp => hp request now h⟩

/-- A run of any events. -/
abbrev Reachable (config : UdsServerConfig) (s : UdsServer) : Prop :=
  Reach step (fun _ _ => True) (create config) s

variable {s t : UdsServer} {e : ServerEvent} {request response : List Byte} {now : ℕ}

@[simp] theorem send_toDiagnostics : (s.send response now).toDiagnostics = s.toDiagnostics := by
  unfold send
  cases Sender.begin _ _ _ <;> rfl

@[simp] theorem send_receiver : (s.send response now).receiver = s.receiver := by
  unfold send
  cases Sender.begin _ _ _ <;> rfl

@[simp] theorem send_handled : (s.send response now).handled = s.handled := by
  unfold send
  cases Sender.begin _ _ _ <;> rfl

theorem releaseDeferred_toDiagnostics (s : UdsServer) (now : ℕ) : ∃ deferredResponse,
    (s.releaseDeferred now).toDiagnostics = { s.toDiagnostics with deferredResponse } := by
  unfold releaseDeferred
  split_ifs
  · exact ⟨[], by simp only [send_toDiagnostics]⟩
  · exact ⟨s.deferredResponse, rfl⟩

theorem poll_toDiagnostics (s : UdsServer) (now : ℕ) : ∃ deferredResponse pendingLeft,
    (s.poll now).1.toDiagnostics = { s.toDiagnostics with deferredResponse, pendingLeft } := by
  obtain ⟨deferredResponse, hd⟩ := s.releaseDeferred_toDiagnostics now
  have hpending : s.pendingLeft = (s.releaseDeferred now).pendingLeft := by rw [hd]
  unfold poll
  simp only
  split_ifs
  · exact ⟨deferredResponse, s.pendingLeft, hd⟩
  · exact ⟨deferredResponse, s.pendingLeft, hd⟩
  · exact ⟨deferredResponse, s.pendingLeft - 1, by simp only [send_toDiagnostics, hd]⟩
  · exact ⟨deferredResponse, s.pendingLeft, hd⟩

theorem respond_handle (h : s.respond request now = some t) :
    ∃ response, s.toDiagnostics.handle request now = some (response, t.toDiagnostics) := by
  obtain ⟨⟨response, d⟩, hd, rfl⟩ := Option.map_eq_some_iff.1 h
  refine ⟨response, hd.trans ?_⟩
  simp only
  split_ifs
  · rfl
  · rw [send_toDiagnostics]

/-- **What an event does to the diagnostic state.** -/
theorem step_cases (h : s.step e = some t) :
    (∃ request now response, s.incoming e = some (request, now) ∧
      s.toDiagnostics.handle request now = some (response, t.toDiagnostics)) ∨
    (s.incoming e = none ∧ ∃ deferredResponse pendingLeft dtcs,
      t.toDiagnostics = { s.toDiagnostics with deferredResponse, pendingLeft, dtcs }) := by
  cases e with
  | frame frame now =>
    rw [step, onFrame] at h
    rw [incoming]
    by_cases hsending : s.sending = true
    · rw [if_pos hsending] at h ⊢
      cases h
      exact .inr ⟨rfl, s.deferredResponse, s.pendingLeft, s.dtcs, rfl⟩
    rw [if_neg hsending] at h ⊢
    by_cases hmessage : (s.receiver.onFrame frame now).hasMessage = true
    · simp only [if_pos hmessage] at h ⊢
      obtain ⟨response, hd⟩ := respond_handle h
      exact .inl ⟨_, now, response, rfl, hd⟩
    · simp only [if_neg hmessage] at h ⊢
      cases h
      exact .inr ⟨trivial, s.deferredResponse, s.pendingLeft, s.dtcs, rfl⟩
  | poll now =>
    cases h
    obtain ⟨deferredResponse, pendingLeft, hd⟩ := s.poll_toDiagnostics now
    exact .inr ⟨rfl, deferredResponse, pendingLeft, s.dtcs, hd⟩
  | addDtc dtc =>
    cases h
    exact .inr ⟨rfl, s.deferredResponse, s.pendingLeft, _, rfl⟩
  | request request now =>
    obtain ⟨response, hd⟩ := respond_handle h
    exact .inl ⟨request, now, response, rfl, hd⟩

/-- A server with four bytes of flash at `0x08000000`. -/
def fourBytes : UdsServerConfig where
  transport := ecuConfig
  flashSize := 4
  dataByIdentifier := fun _ => none
  dtcs := []

/-- The requests that unlock a server at time 0 and start a download of four bytes. -/
def startDownload : List ServerEvent :=
  [.request [0x10, 0x02] 0, .request [0x27, 0x01] 0,
    .request ([0x27, 0x02] ++ pushBe (toyKeyFromSeed 0xC0FFEE 0xA5C3F00D) 4) 0,
    .request [0x34, 0x00, 0x44, 0x08, 0, 0, 0, 0, 0, 0, 4] 0]

end UdsServer

end Sim
end Canforge
