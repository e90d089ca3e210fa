/-
# What a request does to the session

The server changes its session with a DiagnosticSessionControl and with an ECUReset.
The answer to the first says so, and so the session behind the answer
(`sessionBehind`) is the one the server has entered (`Diagnostics.handle_session`); the
answer to the second does not, and a request that asks for no answer gets none.

`Exchange.Timely` says that no timeout fires.  `Exchange.Attended` adds that the
requests that ask for no answer get none and leave the session of the server as it is,
and that the resets do.
-/

import Canforge.Sim.Answering
import Canforge.Uds.Session

namespace Canforge
namespace Sim

open Canforge.Core IsoTp Lib Uds

variable {request response : List Byte} {now : ℕ}

/-- A request that asks for no answer gets none and changes no session, and a reset
changes none either. -/
def Plain (d : Diagnostics) (request response : List Byte) (d' : Diagnostics) : Prop :=
  (suppresses request = true → response = [] ∧ d'.session = d.session) ∧
    (request.getD 0 0 = Service.ecuReset.toByte → d'.session = d.session)

instance (d d' : Diagnostics) (request response : List Byte) :
    Decidable (Plain d request response d') :=
  inferInstanceAs (Decidable ((_ → _ ∧ _) ∧ (_ → _)))

namespace Exchange

/-- No timeout fires: neither N_Bs nor N_Cr of either end, nor P2 or P2\*, nor the limit
of the client on `0x78`s. -/
def Timely (x : Exchange) : ExchangeEvent → Prop
  | .request _ _ => True
  | .pollClient now => x.client.OnTime now ∧ ¬ x.client.OutOfPatience
  | .pollServer now => x.server.InTime now
  | .deliverToServer _ => True
  | .deliverToClient _ => True
  | .addDtc _ => True

/-- The request that the next frame to the server completes, if any, is `Plain`. -/
def NextPlain (x : Exchange) (now : ℕ) : Prop :=
  ∀ f ∈ x.toServer.head?.toList, ∀ q ∈ (x.server.incoming (.frame f now)).toList,
    ∀ a ∈ (x.server.handle q.1 q.2).toList, Plain x.server.toDiagnostics q.1 a.1 a.2

instance (x : Exchange) (now : ℕ) : Decidable (x.NextPlain now) :=
  inferInstanceAs (Decidable (∀ f ∈ _, ∀ q ∈ _, ∀ a ∈ _, _))

/-- No timeout fires, and every request is `Plain`. -/
def Attended (x : Exchange) : ExchangeEvent → Prop
  | .request _ _ => True
  | .pollClient now => x.client.OnTime now ∧ ¬ x.client.OutOfPatience
  | .pollServer now => x.server.InTime now
  | .deliverToServer now => x.NextPlain now
  | .deliverToClient _ => True
  | .addDtc _ => True

instance (x : Exchange) : (e : ExchangeEvent) → Decidable (Timely x e)
  | .request _ _ => .isTrue trivial
  | .pollClient _ => inferInstanceAs (Decidable (_ ∧ _))
  | .pollServer now => inferInstanceAs (Decidable (x.server.InTime now))
  | .deliverToServer _ => .isTrue trivial
  | .deliverToClient _ => .isTrue trivial
  | .addDtc _ => .isTrue trivial

instance (x : Exchange) : (e : ExchangeEvent) → Decidable (Attended x e)
  | .request _ _ => .isTrue trivial
  | .pollClient _ => inferInstanceAs (Decidable (_ ∧ _))
  | .pollServer now => inferInstanceAs (Decidable (x.server.InTime now))
  | .deliverToServer now => inferInstanceAs (Decidable (x.NextPlain now))
  | .deliverToClient _ => .isTrue trivial
  | .addDtc _ => .isTrue trivial

end Exchange

namespace Diagnostics

variable {d d' : Diagnostics}

/-- An answer that tells the session of the server, in a Single Frame. -/
structure Tells (d : Diagnostics) (request answer : List Byte) (d' : Diagnostics) : Prop where
  session : d'.session.toByte = sessionBehind d.session.toByte request answer
  short : answer.length ≤ 6
  final : ¬ IsPending answer

theorem Tells.negative {nrc : Nrc} (final : nrc ≠ .requestCorrectlyReceivedResponsePending) :
    Tells d request (negative (request.getD 0 0) nrc) d where
  session := (if_neg fun h => h.2.1 rfl).symm
  short := show 3 ≤ 6 by decide
  final := (rejected_finalAnswer nrc final).not_pending

theorem diagnosticSessionControl_tells
    (hservice : request.getD 0 0 = Service.diagnosticSessionControl.toByte)
    (hs : suppresses request = false) :
    Tells d request (d.diagnosticSessionControl request).1
      (d.diagnosticSessionControl request).2 := by
  rw [diagnosticSessionControl]
  by_cases hlen : request.length < 2
  · simp only [if_pos hlen]
    exact .negative (by decide)
  · simp only [if_neg hlen]
    cases hsub : SessionType.ofByte (subFunction request) with
    | none => exact .negative (by decide)
    | some session =>
      have hbyte := SessionType.toByte_of_ofByte hsub
      have hmask : subFunction request &&& 0x7F = subFunction request := by
        rw [← hbyte]
        cases session <;> decide
      simp only [positive, if_neg (show ¬ suppresses request = true by rw [hs]; decide), hservice]
      refine ⟨?_, show 6 ≤ 6 from le_rfl, fun h => absurd h.1 (show ¬ 0x50#8 = 0x7F#8 by decide)⟩
      exact (hbyte.trans hmask.symm).trans
        (if_pos ⟨hservice, show ¬ 0x50#8 = 0x7F#8 by decide, show 2 ≤ 6 by decide⟩).symm

/-- A session control is answered by its own case of the `switch`. -/
theorem handle_diagnosticSessionControl (hne : request ≠ [])
    (hservice : request.getD 0 0 = Service.diagnosticSessionControl.toByte) :
    d.handle request now = some (d.diagnosticSessionControl request) := by
  obtain ⟨b, bs, rfl, hb⟩ := handle_eq (List.length_pos_of_ne_nil hne) hservice
  rw [handle, hb]

/-- **The other services but the reset leave the session as it is.** -/
theorem handle_session_of_ne (h : d.handle request now = some (response, d'))
    (hcontrol : request.getD 0 0 ≠ Service.diagnosticSessionControl.toByte)
    (hreset : request.getD 0 0 = Service.ecuReset.toByte → d'.session = d.session) :
    d'.session = d.session := by
  cases handle_handled h with
  | enteredSession positive => exact absurd positive.service hcontrol
  | reset positive => exact hreset positive.service
  | _ => rfl

/-- **The final answer tells the session of the server** to a client in the session before. -/
theorem handle_session (hne : request ≠ []) (hs : suppresses request = false)
    (hplain : Plain d request response d') (h : d.handle request now = some (response, d')) :
    d'.session.toByte =
        sessionBehind d.session.toByte request (UdsServer.finalAnswer response d') ∧
      (request.getD 0 0 = Service.diagnosticSessionControl.toByte →
        (UdsServer.finalAnswer response d').length ≤ 6) := by
  by_cases hservice : request.getD 0 0 = Service.diagnosticSessionControl.toByte
  · have htells := @diagnosticSessionControl_tells _ d hservice hs
    rw [handle_diagnosticSessionControl hne hservice] at h
    rw [Option.some.inj h] at htells
    rw [UdsServer.finalAnswer, if_neg htells.final]
    exact ⟨htells.session, fun _ => htells.short⟩
  · rw [sessionBehind, if_neg fun h => hservice h.1,
      handle_session_of_ne h hservice hplain.2]
    exact ⟨rfl, fun h => absurd h hservice⟩

/-- **A request without an answer defers none.** -/
theorem handle_silent (h : d.handle request now = some ([], d')) :
    d'.deferredResponse = d.deferredResponse := by
  cases handle_handled h with
  | erased service unlocked deferredResponse deferredService deferral =>
    rcases deferral with ⟨_, hsame, _⟩ | ⟨hnil, _⟩
    · exact hsame
    · cases hnil
  | wroteBlock writes expectedBlock deferredResponse deferredService deferral =>
    rcases deferral with ⟨_, hsame, _⟩ | ⟨hnil, _⟩
    · exact hsame
    · cases hnil
  | _ => rfl

theorem routineControl_deferred {out : List Byte × Diagnostics}
    (h : d.routineControl request now = some out) :
    out.2.deferredResponse = d.deferredResponse ∨ out.2.deferredResponse.length ≤ 5 := by
  unfold routineControl at h
  simp only at h
  split_ifs at h
  · exact .inl (Option.some.inj h ▸ rfl)
  · exact .inl (Option.some.inj h ▸ rfl)
  · exact .inr (Option.some.inj h ▸ le_rfl)
  · exact .inl (Option.some.inj h ▸ rfl)
  · obtain ⟨sum, _, rfl⟩ := Option.map_eq_some_iff.1 h
    exact .inl rfl
  · exact .inl (Option.some.inj h ▸ rfl)

theorem transferData_deferred (d : Diagnostics) (request : List Byte) (now : ℕ) :
    (d.transferData request now).2.deferredResponse = d.deferredResponse ∨
      (d.transferData request now).2.deferredResponse.length ≤ 5 := by
  unfold transferData
  simp only
  split_ifs <;> first
    | exact .inl rfl
    | exact .inr (show 2 ≤ 5 by decide)

/-- **A deferred answer is short.** -/
theorem handle_deferred (h : d.handle request now = some (response, d')) :
    d'.deferredResponse = d.deferredResponse ∨ d'.deferredResponse.length ≤ 5 := by
  cases request with
  | nil =>
    cases h
    exact .inl rfl
  | cons b bs =>
    have hlen : 1 ≤ (b :: bs).length := Nat.succ_le_succ (Nat.zero_le _)
    cases handle_handled h with
    | erased service =>
      obtain ⟨_, _, heq, hb⟩ := handle_eq hlen service
      cases heq
      rw [handle, hb] at h
      exact routineControl_deferred h
    | wroteBlock writes =>
      obtain ⟨_, _, heq, hb⟩ := handle_eq hlen writes.service
      cases heq
      rw [handle, hb] at h
      have hshort := d.transferData_deferred (b :: bs) now
      rwa [Option.some.inj h] at hshort
    | _ => exact .inl rfl

end Diagnostics

namespace UdsServer

variable {s t : UdsServer} {frame : FdFrame}

theorem send_cases (s : UdsServer) (response : List Byte) (now : ℕ) :
    (∃ sender, ({ config := s.config.transport } : Sender).begin response now = .ok sender ∧
        s.send response now = { s with sender, sending := true }) ∨
      ((s.config.transport.validate = .ok () → 2 ^ 32 ≤ response.length) ∧
        s.send response now = { s with sender := { config := s.config.transport } }) := by
  cases hbegin : ({ config := s.config.transport } : Sender).begin response now with
  | ok sender => exact .inl ⟨sender, rfl, by rw [send, hbegin]⟩
  | error error =>
    refine .inr ⟨fun hv => ?_, by rw [send, hbegin]⟩
    by_contra hlong
    obtain ⟨sender, hsender⟩ := Sender.begin_ok hv (Nat.lt_of_not_le hlong) now
    cases hbegin.symm.trans hsender

/-- **A request for no answer reaches a listening server**, which goes on listening. -/
theorem onFrame_silent (hs : s.Listening) (hr : (s.receiver.onFrame frame now).result = .ok)
    (hp : (s.receiver.onFrame frame now).payload = request) (hsup : suppresses request = true)
    (hplain : ∀ q ∈ (s.incoming (.frame frame now)).toList,
      ∀ a ∈ (s.handle q.1 q.2).toList, Plain s.toDiagnostics q.1 a.1 a.2)
    (h : s.onFrame frame now = some t) :
    t.Listening ∧ t.session = s.session ∧ t.config.transport = s.config.transport ∧
      t.receiver = (s.receiver.onFrame frame now).reset := by
  obtain ⟨heq, hincoming⟩ := onFrame_complete hs.sending hr hp
  rw [heq] at h
  obtain ⟨⟨response, d⟩, hd, rfl⟩ := Option.map_eq_some_iff.1 h
  have hd : s.toDiagnostics.handle request now = some (response, d) := hd
  obtain ⟨rfl, hsession⟩ := (hplain (request, now)
    (by rw [hincoming]; exact List.mem_singleton_self _)
    (response, d) (by rw [hd]; exact List.mem_singleton_self _)).1 hsup
  have htransport : d.config.transport = s.config.transport := handle_transport hd
  exact ⟨⟨hs.sending, (Diagnostics.handle_silent hd).trans hs.deferredResponse⟩, hsession,
    htransport, rfl⟩

/-- **A request reaches a listening server:** it starts to send the final answer or a
`0x78` with the final answer deferred, which tell its session, or it can send nothing. -/
theorem onFrame_told (hs : s.Listening) (hr : (s.receiver.onFrame frame now).result = .ok)
    (hp : (s.receiver.onFrame frame now).payload = request) (hne : request ≠ [])
    (hsup : suppresses request = false)
    (hplain : ∀ q ∈ (s.incoming (.frame frame now)).toList,
      ∀ a ∈ (s.handle q.1 q.2).toList, Plain s.toDiagnostics q.1 a.1 a.2)
    (h : s.onFrame frame now = some t) :
    t.config.transport = s.config.transport ∧
      t.receiver = (s.receiver.onFrame frame now).reset ∧
      ((t.sending = false ∧ (t.deferredResponse = [] ∨ t.config.transport.validate ≠ .ok ())) ∨
        ∃ answer, FinalAnswer (request.getD 0 0) answer ∧ answer.length < 2 ^ 32 ∧
          t.session.toByte = sessionBehind s.session.toByte request answer ∧
          (request.getD 0 0 = Service.diagnosticSessionControl.toByte → answer.length ≤ 6) ∧
          s.config.transport.validate = .ok () ∧ t.sending = true ∧
          ((({ config := s.config.transport } : Sender).begin answer now = .ok t.sender ∧
              t.deferredResponse = []) ∨
            (({ config := s.config.transport } : Sender).begin
                (pendingResponse (request.getD 0 0)) now = .ok t.sender ∧
              t.deferredResponse = answer ∧ t.deferredService = request.getD 0 0))) := by
  obtain ⟨heq, hincoming⟩ := onFrame_complete hs.sending hr hp
  rw [heq] at h
  obtain ⟨⟨response, d⟩, hd, rfl⟩ := Option.map_eq_some_iff.1 h
  have hd : s.toDiagnostics.handle request now = some (response, d) := hd
  have hplain := hplain (request, now) (by rw [hincoming]; exact List.mem_singleton_self _)
    (response, d) (by rw [hd]; exact List.mem_singleton_self _)
  have htransport : d.config.transport = s.config.transport := handle_transport hd
  obtain ⟨hsession, hshort⟩ := Diagnostics.handle_session hne hsup hplain hd
  have hresponse : response ≠ [] := by
    rcases Diagnostics.handle_answer hne hsup hd with ⟨hfinal, _⟩ | ⟨rfl, _⟩
    · exact List.ne_nil_of_length_pos hfinal.length_pos
    · exact List.cons_ne_nil _ _
  simp only [if_neg hresponse]
  rcases send_cases { s with toDiagnostics := d, receiver := (s.receiver.onFrame frame now).reset,
                             handled := s.handled + 1 } response now with
    ⟨sender, hsender, hsend⟩ | ⟨hlong, hsend⟩
  · rw [hsend]
    have hbegin : ({ config := s.config.transport } : Sender).begin response now = .ok sender := by
      rw [← htransport]; exact hsender
    obtain ⟨_, hvalid, hlen, _⟩ := Sender.begin_spec hbegin
    refine ⟨htransport, rfl, .inr ⟨UdsServer.finalAnswer response d, ?_⟩⟩
    rcases Diagnostics.handle_answer hne hsup hd with ⟨hfinal, hdeferred⟩ |
      ⟨rfl, hservice, hfinal⟩
    · rw [finalAnswer, if_neg hfinal.not_pending] at hsession hshort ⊢
      exact ⟨hfinal, hlen, hsession, hshort, hvalid, rfl,
        .inl ⟨hbegin, hdeferred.trans hs.deferredResponse⟩⟩
    · rw [finalAnswer, if_pos (pendingResponse_isPending _)] at hsession hshort ⊢
      have hbound : d.deferredResponse.length < 2 ^ 32 := by
        rcases Diagnostics.handle_deferred hd with hsame | hle
        · rw [hsame, hs.deferredResponse]
          decide
        · omega
      exact ⟨hfinal, hbound, hsession, hshort, hvalid, rfl, .inr ⟨hbegin, rfl, hservice⟩⟩
  · rw [hsend]
    refine ⟨htransport, rfl, .inl ⟨hs.sending, ?_⟩⟩
    by_cases hv : d.config.transport.validate = .ok ()
    · rcases Diagnostics.handle_answer hne hsup hd with ⟨_, hdeferred⟩ | ⟨rfl, _⟩
      · exact .inl (hdeferred.trans hs.deferredResponse)
      · exact absurd (hlong hv) (show ¬ 2 ^ 32 ≤ 3 by decide)
    · exact .inr hv

end UdsServer

end Sim
end Canforge
