/-
# How the server answers

What `on_frame` and `poll` do in a server whose transport is valid: a request is
answered at once with its final answer, or with a `0x78` and a final answer that is
deferred (`Diagnostics.handle_answer`), and the answer is sent, or the `0x78`s and
then the answer (`UdsServer.poll_due`, `UdsServer.poll_busy`).
-/

import Canforge.Sim.Exchange
import Canforge.Sim.Progress

namespace Canforge
namespace Sim

open Canforge.Core IsoTp Lib Uds

variable {request response : List Byte} {now : ℕ}

theorem negative_eq (service : Byte) (nrc : Nrc) :
    negative service nrc = negativeResponse service nrc.toByte := rfl

/-- A positive answer that is not suppressed is a final one. -/
theorem finalAnswer_cons {service : Service} (hs : request.getD 0 0 = service.toByte)
    (body : List Byte) :
    FinalAnswer (request.getD 0 0) ((request.getD 0 0 + kPositiveResponseOffset) :: body) := by
  rw [hs]
  refine .positive body ?_ ?_ <;> cases service <;> decide

namespace Diagnostics

variable {d d' : Diagnostics}

theorem Positive.finalAnswer {service : Service} (h : Positive service request response)
    (hs : suppresses request = false) : FinalAnswer (request.getD 0 0) response := by
  obtain ⟨hservice, body, rfl⟩ := h
  rw [positive, if_neg (by rw [hs]; decide)]
  exact finalAnswer_cons hservice body

theorem rejected_finalAnswer (nrc : Nrc) (final : nrc ≠ .requestCorrectlyReceivedResponsePending) :
    FinalAnswer (request.getD 0 0) (negative (request.getD 0 0) nrc) := by
  refine .negative _ fun h => final ?_
  cases nrc <;> first | rfl | exact absurd h (by decide)

theorem Deferral.answer {service : Service} {deferredResponse : List Byte} {deferredService : Byte}
    (hservice : request.getD 0 0 = service.toByte) (hs : suppresses request = false)
    (h : Deferral service d request response deferredResponse deferredService) :
    (FinalAnswer (request.getD 0 0) response ∧ deferredResponse = d.deferredResponse) ∨
      (response = pendingResponse (request.getD 0 0) ∧ deferredService = request.getD 0 0 ∧
        FinalAnswer (request.getD 0 0) deferredResponse) := by
  rcases h with ⟨hpositive, hsame, _⟩ | ⟨rfl, hsame, body, rfl⟩
  · exact .inl ⟨hpositive.finalAnswer hs, hsame⟩
  · exact .inr ⟨rfl, hsame, finalAnswer_cons hservice body⟩

/-- **Every request that asks for an answer is answered:** finally, or with a `0x78`
and a final answer that is deferred. -/
theorem handle_answer (hne : request ≠ []) (hs : suppresses request = false)
    (h : d.handle request now = some (response, d')) :
    (FinalAnswer (request.getD 0 0) response ∧ d'.deferredResponse = d.deferredResponse) ∨
      (response = pendingResponse (request.getD 0 0) ∧ d'.deferredService = request.getD 0 0 ∧
        FinalAnswer (request.getD 0 0) d'.deferredResponse) := by
  cases handle_handled h with
  | empty nothing => exact absurd nothing hne
  | rejected nrc final => exact .inl ⟨rejected_finalAnswer nrc final, rfl⟩
  | answered other positive => exact .inl ⟨positive.finalAnswer hs, rfl⟩
  | enteredSession positive => exact .inl ⟨positive.finalAnswer hs, rfl⟩
  | reset positive => exact .inl ⟨positive.finalAnswer hs, rfl⟩
  | wroteData positive => exact .inl ⟨positive.finalAnswer hs, rfl⟩
  | sentSeed positive => exact .inl ⟨positive.finalAnswer hs, rfl⟩
  | acceptedKey positive => exact .inl ⟨positive.finalAnswer hs, rfl⟩
  | clearedDtcs positive => exact .inl ⟨positive.finalAnswer hs, rfl⟩
  | erased service unlocked deferredResponse deferredService deferral =>
    exact deferral.answer service hs
  | refusedDownload => exact .inl ⟨rejected_finalAnswer _ (by decide), rfl⟩
  | acceptedDownload positive => exact .inl ⟨positive.finalAnswer hs, rfl⟩
  | wroteBlock writes expectedBlock deferredResponse deferredService deferral =>
    exact deferral.answer writes.service hs
  | exited positive => exact .inl ⟨positive.finalAnswer hs, rfl⟩

end Diagnostics

namespace UdsServer

variable {s t : UdsServer} {frame : FdFrame}

/-- Neither an answer on its way nor a deferred one. -/
structure Listening (s : UdsServer) : Prop where
  sending : s.sending = false
  deferredResponse : s.deferredResponse = []

theorem send_ok (hv : s.config.transport.validate = .ok ()) (h₃₂ : response.length < 2 ^ 32)
    (now : ℕ) : ∃ sender, ({ config := s.config.transport } : Sender).begin response now =
      .ok sender ∧ s.send response now = { s with sender, sending := true } := by
  obtain ⟨sender, hsender⟩ := Sender.begin_ok hv h₃₂ now
  exact ⟨sender, hsender, by rw [send, hsender]⟩

/-! ### Frames -/

theorem onFrame_sending (hs : s.sending = true) :
    s.onFrame frame now = some { s with sender := s.sender.onFrame frame now } := if_pos hs

/-- A frame that completes no request. -/
theorem onFrame_progress (hs : s.sending = false)
    (hr : (s.receiver.onFrame frame now).result = .inProgress) :
    s.onFrame frame now = some { s with receiver := s.receiver.onFrame frame now } ∧
      s.answers frame now = [] := by
  have hm : ¬ (s.receiver.onFrame frame now).hasMessage = true := by
    rw [Receiver.hasMessage, hr]; decide
  have hs : ¬ s.sending = true := by rw [hs]; decide
  refine ⟨?_, ?_⟩
  · rw [onFrame, if_neg hs]
    simp only [if_neg hm]
  · rw [answers, incoming, if_neg hs, if_neg hm]

/-- A frame that completes a request. -/
theorem onFrame_complete (hs : s.sending = false)
    (hr : (s.receiver.onFrame frame now).result = .ok)
    (hp : (s.receiver.onFrame frame now).payload = request) :
    s.onFrame frame now =
        { s with receiver := (s.receiver.onFrame frame now).reset }.respond request now ∧
      s.incoming (.frame frame now) = some (request, now) := by
  have hm : (s.receiver.onFrame frame now).hasMessage = true := by
    rw [Receiver.hasMessage, hr]; decide
  have hs : ¬ s.sending = true := by rw [hs]; decide
  subst hp
  refine ⟨?_, ?_⟩
  · rw [onFrame, if_neg hs]
    simp only [if_pos hm, Receiver.message]
  · rw [incoming, if_neg hs, if_pos hm, Receiver.message]

/-- **The keepalive reaches a listening server.** -/
theorem onFrame_keepalive (hs : s.Listening) (hr : (s.receiver.onFrame frame now).result = .ok)
    (hp : (s.receiver.onFrame frame now).payload = Client.keepalivePayload) :
    ∃ handled testerPresent, s.onFrame frame now =
        some { s with receiver := (s.receiver.onFrame frame now).reset, handled, testerPresent } ∧
      s.answers frame now = [] := by
  obtain ⟨heq, hincoming⟩ := onFrame_complete hs.sending hr hp
  refine ⟨_, _, heq.trans rfl, ?_⟩
  rw [answers, hincoming]
  rfl

/-- **A request reaches a listening server:** it starts to send the final answer, or
a `0x78` with the final answer deferred. -/
theorem onFrame_request (hs : s.Listening) (hv : s.config.transport.validate = .ok ())
    (hr : (s.receiver.onFrame frame now).result = .ok)
    (hp : (s.receiver.onFrame frame now).payload = request) (hne : request ≠ [])
    (hsup : suppresses request = false)
    (hfits : ∀ a ∈ s.answers frame now, a.2.length < 2 ^ 32)
    (h : s.onFrame frame now = some t) :
    ∃ answer, FinalAnswer (request.getD 0 0) answer ∧ s.answers frame now = [(request, answer)] ∧
      t.sending = true ∧ t.receiver = (s.receiver.onFrame frame now).reset ∧
      t.config.transport = s.config.transport ∧
      ((({ config := s.config.transport } : Sender).begin answer now = .ok t.sender ∧
          t.deferredResponse = []) ∨
        (({ config := s.config.transport } : Sender).begin
            (pendingResponse (request.getD 0 0)) now = .ok t.sender ∧
          t.deferredResponse = answer ∧ t.deferredService = request.getD 0 0)) := by
  obtain ⟨heq, hincoming⟩ := onFrame_complete hs.sending hr hp
  rw [heq] at h
  obtain ⟨⟨response, d⟩, hd, rfl⟩ := Option.map_eq_some_iff.1 h
  have hd : s.toDiagnostics.handle request now = some (response, d) := hd
  have htransport : d.config.transport = s.config.transport := handle_transport hd
  have hanswers (hresponse : response ≠ []) :
      s.answers frame now = [(request, finalAnswer response d)] := by
    rw [answers, hincoming]
    simp only [hd, if_neg hresponse]
  rcases Diagnostics.handle_answer hne hsup hd with ⟨hfinal, hdeferred⟩ |
    ⟨rfl, hservice, hfinal⟩
  · have hresponse : response ≠ [] := List.ne_nil_of_length_pos hfinal.length_pos
    have hanswers := hanswers hresponse
    rw [finalAnswer, if_neg hfinal.not_pending] at hanswers
    have hlen : response.length < 2 ^ 32 :=
      hfits (request, response) (by rw [hanswers]; exact List.mem_singleton_self _)
    simp only [if_neg hresponse]
    obtain ⟨sender, hsender, hsend⟩ := @send_ok response
      { s with toDiagnostics := d, receiver := (s.receiver.onFrame frame now).reset,
               handled := s.handled + 1 } (by rw [htransport]; exact hv) hlen now
    rw [hsend]
    exact ⟨response, hfinal, hanswers, rfl, rfl, htransport,
      .inl ⟨by rw [← htransport]; exact hsender, hdeferred.trans hs.deferredResponse⟩⟩
  · have hresponse : pendingResponse (request.getD 0 0) ≠ [] := List.cons_ne_nil _ _
    have hanswers := hanswers hresponse
    rw [finalAnswer, if_pos (pendingResponse_isPending _)] at hanswers
    simp only [if_neg hresponse]
    obtain ⟨sender, hsender, hsend⟩ := @send_ok (pendingResponse (request.getD 0 0))
      { s with toDiagnostics := d, receiver := (s.receiver.onFrame frame now).reset,
               handled := s.handled + 1 } (by rw [htransport]; exact hv)
      (show 3 < 2 ^ 32 by decide) now
    rw [hsend]
    exact ⟨d.deferredResponse, hfinal, hanswers, rfl, rfl, htransport,
      .inr ⟨by rw [← htransport]; exact hsender, rfl, hservice⟩⟩

/-! ### Polls -/

/-- A poll in the middle of an answer. -/
theorem poll_sending (hs : s.sending = true) (hr : (s.sender.poll now).1.result = .inProgress) :
    s.poll now = ({ s with sender := (s.sender.poll now).1 }, (s.sender.poll now).2) := by
  have hsame : s.releaseDeferred now = s := if_neg fun h => by rw [hs] at h; cases h.2.2
  have hd : ¬ (s.sender.poll now).1.done = true := by rw [Sender.done, hr]; decide
  rw [poll, hsame]
  simp only [if_pos hs, if_neg hd]

/-- **The poll that ends an answer** resets the receiver. -/
theorem poll_sent (hs : s.sending = true) (hr : (s.sender.poll now).1.result = .ok) :
    s.poll now = ({ s with sender := (s.sender.poll now).1, sending := false,
                           receiver := s.receiver.reset }, (s.sender.poll now).2) := by
  have hsame : s.releaseDeferred now = s := if_neg fun h => by rw [hs] at h; cases h.2.2
  have hd : (s.sender.poll now).1.done = true := by rw [Sender.done, hr]; decide
  rw [poll, hsame]
  simp only [if_pos hs, if_pos hd]

/-- A poll of a server that listens. -/
theorem poll_listening (hs : s.Listening) :
    s.poll now = ({ s with receiver := (s.receiver.poll now).1 }, (s.receiver.poll now).2) := by
  have hsame : s.releaseDeferred now = s := if_neg fun h => h.1 hs.deferredResponse
  rw [poll, hsame]
  simp only [if_neg (show ¬ s.sending = true by rw [hs.sending]; decide),
    if_neg (show ¬ (0 < s.pendingLeft ∧ s.deferredResponse ≠ []) from fun h =>
      h.2 hs.deferredResponse)]

/-- **The poll that releases a deferred answer** sends it as if it had been computed then. -/
theorem poll_due (hs : s.sending = false) (hd : s.deferredResponse ≠ [])
    (hdue : s.deferredUntilNs ≤ now) (hv : s.config.transport.validate = .ok ())
    (h₃₂ : s.deferredResponse.length < 2 ^ 32) :
    ∃ sender, ({ config := s.config.transport } : Sender).begin s.deferredResponse now =
        .ok sender ∧
      s.poll now = { s with sender, sending := true, deferredResponse := [] }.poll now := by
  obtain ⟨sender, hsender, hsend⟩ := send_ok hv h₃₂ now
  have hrelease : s.releaseDeferred now =
      { s with sender, sending := true, deferredResponse := [] } := by
    rw [releaseDeferred, if_pos ⟨hd, hdue, hs⟩, hsend]
  have hsame :
      ({ s with sender, sending := true, deferredResponse := [] } : UdsServer).releaseDeferred now =
        { s with sender, sending := true, deferredResponse := [] } := if_neg fun h => h.1 rfl
  refine ⟨sender, hsender, ?_⟩
  rw [poll, hrelease, poll, hsame]

/-- The poll that starts another `0x78`. -/
theorem poll_busy (hs : s.sending = false) (hd : s.deferredResponse ≠ [])
    (hearly : now < s.deferredUntilNs) (hp : 0 < s.pendingLeft)
    (hv : s.config.transport.validate = .ok ()) :
    ∃ sender pendingLeft, ({ config := s.config.transport } : Sender).begin
        (pendingResponse s.deferredService) now = .ok sender ∧
      s.poll now = ({ s with sender, sending := true, pendingLeft }, []) := by
  have hsame : s.releaseDeferred now = s := if_neg fun h => absurd h.2.1 (Nat.not_le.2 hearly)
  obtain ⟨sender, hsender, hsend⟩ := @send_ok (pendingResponse s.deferredService)
    { s with pendingLeft := s.pendingLeft - 1 } hv (show 3 < 2 ^ 32 by decide) now
  refine ⟨sender, s.pendingLeft - 1, hsender, ?_⟩
  rw [poll, hsame]
  simp only [if_neg (show ¬ s.sending = true by rw [hs]; decide), if_pos (And.intro hp hd)]
  rw [negative_eq]
  exact congrArg (fun s => (s, [])) hsend

/-- A poll while the answer is deferred and no `0x78` is left. -/
theorem poll_deferred (hs : s.sending = false) (hearly : now < s.deferredUntilNs)
    (hp : ¬ 0 < s.pendingLeft) :
    s.poll now = ({ s with receiver := (s.receiver.poll now).1 }, (s.receiver.poll now).2) := by
  have hsame : s.releaseDeferred now = s := if_neg fun h => absurd h.2.1 (Nat.not_le.2 hearly)
  rw [poll, hsame]
  simp only [if_neg (show ¬ s.sending = true by rw [hs]; decide),
    if_neg (show ¬ (0 < s.pendingLeft ∧ s.deferredResponse ≠ []) from fun h => hp h.1)]

end UdsServer

end Sim
end Canforge
