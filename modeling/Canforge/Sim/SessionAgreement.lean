/-
# Client and server agree on the session

A run of a client and a server that are joined by mirrored addresses, with any requests
and any transports.  As long as no timeout fires, the requests that ask for no answer
get none and change no session, and no reset does, the exchange stays in one of its
phases (`Exchange.sessionPhase`), and a client that is not busy is in the session of the
server (`Exchange.sessions_agree`).

Without these conditions it is not (`Exchange.sessions_differ`).
-/

import Canforge.Sim.EndToEnd
import Canforge.Sim.SessionPhases

namespace Canforge
namespace Sim

open Canforge.Core IsoTp Lib Uds

namespace Exchange

variable {client : ClientConfig} {server : UdsServerConfig} {c d : Config} {x y : Exchange}
  {e : ExchangeEvent} {now : ℕ}

theorem request_busy {payload : List Byte} {client' : Client} (hb : x.client.busy = true)
    (hr : x.client.request payload now = .ok client') : False :=
  absurd (hb.symm.trans (Client.request_cases hr).1) (by decide)

/-- **One attended event keeps the exchange in its phases.** -/
theorem step_sessionPhase (hm : c.address.Mirrored d.address) (h : SessionPhase c d x)
    (hok : Attended x e) (hstep : x.step e = some y) : SessionPhase c d y := by
  cases e with
  | request payload now =>
    cases hr : x.client.request payload now with
    | error error =>
      rw [step, hr] at hstep
      obtain rfl := Option.some.inj hstep
      exact h
    | ok client =>
      rw [step, hr] at hstep
      obtain rfl := Option.some.inj hstep
      cases h with
      | attentive h => exact .attentive (h.request hr)
      | replying P F h => exact (request_busy (decide_eq_true (.inr h.state)) hr).elim
      | rejecting h => exact (request_busy (decide_eq_true (.inr h.state)) hr).elim
      | aborting h => exact .aborting (h.request hr)
      | deafened h => exact .deafened (h.request hr)
      | abandoned h => exact (request_busy h.busy hr).elim
  | pollClient now =>
    obtain rfl := Option.some.inj hstep
    obtain ⟨hin, hpatient⟩ := hok
    cases h with
    | attentive h => exact .attentive (h.pollClient hin)
    | replying P F h => exact (h.pollClient hin hpatient).elim (.replying P F) .attentive
    | rejecting h => exact h.pollClient hin
    | aborting h => exact .aborting (h.pollClient hin)
    | deafened h => exact .deafened (h.pollClient now)
    | abandoned h => exact .abandoned (h.pollClient hin hpatient)
  | pollServer now =>
    obtain rfl := Option.some.inj hstep
    cases h with
    | attentive h => exact .attentive (h.pollServer hok)
    | replying P F h => exact .replying P F (h.pollServer hok)
    | rejecting h => exact .rejecting (h.pollServer hok)
    | aborting h => exact h.pollServer hok
    | deafened h => exact .deafened (h.pollServer now)
    | abandoned h => exact .abandoned (h.pollServer hok)
  | deliverToServer now =>
    cases hq : x.toServer with
    | nil =>
      rw [step, hq] at hstep
      cases hstep
    | cons f fs =>
      cases h with
      | attentive h => exact h.deliverToServer hm hok hq hstep
      | replying P F h => exact .replying P F (h.deliverToServer hq hstep)
      | rejecting h => cases hq.symm.trans h.forth
      | aborting h => exact h.deliverToServer hm hq hstep
      | deafened h => exact .deafened (h.deliverToServer hq hstep)
      | abandoned h => cases hq.symm.trans h.forth
  | deliverToClient now =>
    cases hq : x.toClient with
    | nil =>
      rw [step, hq] at hstep
      cases hstep
    | cons f fs =>
      rw [step, hq] at hstep
      obtain rfl := Option.some.inj hstep
      cases h with
      | attentive h => exact .attentive (h.deliverToClient hm hq)
      | replying P F h => exact h.deliverToClient hq
      | rejecting h => cases hq.symm.trans h.back
      | aborting h => cases hq.symm.trans h.back
      | deafened h => exact .deafened (h.deliverToClient hm hq)
      | abandoned h => cases hq.symm.trans h.back
  | addDtc dtc =>
    obtain rfl := Option.some.inj hstep
    cases h with
    | attentive h =>
      exact .attentive { h with
        listening := ⟨h.listening.sending, h.listening.deferredResponse⟩ }
    | replying P F h =>
      obtain ⟨m, r₀, rest, htoClient, hfresh, hroom, hsource, hreceiver⟩ := h.messages
      exact .replying P F { h with
        messages := ⟨m, r₀, rest, htoClient, hfresh, hroom, hsource.addDtc dtc, hreceiver⟩ }
    | rejecting h => exact .rejecting { h with }
    | aborting h => exact .aborting { h with }
    | deafened h =>
      exact .deafened { h with
        listening := ⟨h.listening.sending, h.listening.deferredResponse⟩ }
    | abandoned h => exact .abandoned { h with mute := ⟨h.mute.fresh, h.mute.silent⟩ }

/-- **Every state of an attended run is one of the phases.** -/
theorem sessionPhase (hm : client.transport.address.Mirrored server.transport.address)
    (h : Reach step Attended (start client server) x) :
    SessionPhase client.transport server.transport x := by
  refine h.invariant (.attentive ?_) fun x e y hx hok hstep => step_sessionPhase hm hx hok hstep
  exact {
    client := rfl
    receiver := rfl
    server := rfl
    agreed := rfl
    listening := ⟨rfl, rfl⟩
    outgoing := .rest rfl (.nil ⟨rfl, rfl, rfl⟩) }

/-- **A client that is not busy is in the session of the server**, in every run in which no
timeout fires, the requests that ask for no answer get none and change no session, and
the resets change none either. -/
theorem sessions_agree (hm : client.transport.address.Mirrored server.transport.address)
    (h : Reach step Attended (start client server) x) (hidle : x.client.busy = false) :
    x.client.session = x.server.session.toByte := by
  have hbusy {state : RequestState} (hs : x.client.state = state)
      (hb : state = .sending ∨ state = .awaitingResponse) : x.client.busy = true :=
    decide_eq_true (by rw [hs]; exact hb)
  cases sessionPhase hm h with
  | attentive h => exact h.agreed
  | replying P F h => exact absurd ((hbusy h.state (.inr rfl)).symm.trans hidle) (by decide)
  | rejecting h => exact absurd ((hbusy h.state (.inr rfl)).symm.trans hidle) (by decide)
  | aborting h => exact h.agreed
  | deafened h => exact h.agreed
  | abandoned h => exact absurd (h.busy.symm.trans hidle) (by decide)

/-- A session, a TesterPresent for no answer that is still in flight when the next
session is asked for, and that session. -/
theorem sessions_agree_programming : ∃ x,
    Reach step Attended (start { transport := testerConfig } slowServer) x ∧
      x.client.session = 0x02 ∧ x.server.session = .programming := by
  obtain ⟨x, hreach, hidle, hsession⟩ : ∃ x,
      Reach step Attended (start { transport := testerConfig } slowServer) x ∧
        x.client.busy = false ∧ x.server.session = .programming :=
    Reach.exists_of_run (exchangeAtOnce [0x10, 0x03] ++
      [.request [0x3E, 0x80] 0, .pollClient 0, .request [0x10, 0x02] 0, .pollClient 0,
        .deliverToServer 0, .deliverToServer 0, .pollServer 0, .deliverToClient 0, .pollClient 0])
      (by decide +kernel)
  have h := sessions_agree ⟨rfl, rfl, rfl, rfl, rfl⟩ hreach hidle
  exact ⟨x, hreach, by rw [h, hsession]; rfl, hsession⟩

/-- Nothing is going on. -/
def Quiescent (x : Exchange) : Prop :=
  x.client.busy = false ∧ x.server.sending = false ∧ x.server.deferredResponse = [] ∧
    x.toServer = [] ∧ x.toClient = []

instance (x : Exchange) : Decidable x.Quiescent :=
  inferInstanceAs (Decidable (_ ∧ _ ∧ _ ∧ _ ∧ _))

/-- **Sessions that differ.**  In runs without a timeout, and with nothing going on at the
end: a reset takes the server out of a session and the client stays in it; a session that
is asked for without an answer is entered by the server alone; and the refusal of a
request for no answer is taken for the answer to the next request, whose own answer
nobody reads. -/
theorem sessions_differ :
    (∃ x, Reach step Timely (start { transport := testerConfig } slowServer) x ∧
      x.Quiescent ∧ x.client.session = 0x03 ∧ x.server.session = .default) ∧
    (∃ x, Reach step Timely (start { transport := testerConfig } slowServer) x ∧
      x.Quiescent ∧ x.client.session = 0x01 ∧ x.server.session = .extendedDiagnostic) ∧
    (∃ x, Reach step Timely (start { transport := testerConfig } slowServer) x ∧
      x.Quiescent ∧ x.client.session = 0x01 ∧ x.server.session = .programming) := by
  refine ⟨?_, ?_, ?_⟩
  · exact Reach.exists_of_run (exchangeAtOnce [0x10, 0x03] ++ exchangeAtOnce [0x11, 0x01])
      (by decide +kernel)
  · exact Reach.exists_of_run [.request [0x10, 0x83] 0, .pollClient 0, .deliverToServer 0]
      (by decide +kernel)
  · exact Reach.exists_of_run
      [.request [0x27, 0x81] 0, .pollClient 0, .deliverToServer 0, .request [0x10, 0x02] 0,
        .pollClient 0, .pollServer 0, .deliverToClient 0, .pollClient 0, .deliverToServer 0,
        .pollServer 0, .deliverToClient 0] (by decide +kernel)

end Exchange

end Sim
end Canforge
