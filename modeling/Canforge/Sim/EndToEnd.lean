/-
# Requests are answered end to end

A run of a client and a server whose transports are valid and mirrored.  As long
as its events are orderly, the exchange stays in one of its phases
(`Exchange.phase`), and `Exchange.answered_end_to_end` reads off what a caller
sees: no request fails, a complete one reports the final answer to it, and an answer
that has arrived ends the request with the next poll.

Regular events alone are not enough.  A receiver with a message ignores every frame
until it is reset, so a final answer that reaches the client behind a `0x78` it has
not read is lost, and the client waits for it until P2\* runs out
(`Exchange.regular_is_not_enough`).
-/

import Canforge.Sim.Phases

namespace Canforge
namespace Sim

open Canforge.Core IsoTp Lib Uds

namespace Exchange

variable {client : ClientConfig} {server : UdsServerConfig} {c d : Config} {x y : Exchange}
  {e : ExchangeEvent} {now : ℕ}

/-- **One orderly event keeps the exchange in its phases.** -/
theorem step_phase (hj : Joined c d) (h : Phase c d x) (hok : Orderly x e)
    (hstep : x.step e = some y) : Phase c d y := by
  cases e with
  | request payload now =>
    cases hr : x.client.request payload now with
    | error error =>
      rw [step, hr] at hstep
      cases hstep
      exact h
    | ok client =>
      rw [step, hr] at hstep
      cases hstep
      obtain ⟨hs, hfits⟩ := hok
      have hidle (hb : x.client.busy = true) (hv : x.client.config.transport = c)
          (hw : x.server.config.transport = d) : False := by
        have := (Client.request_accepted (hv ▸ hj.client) hfits.2 hs hr).1
        exact absurd (hb.symm.trans this) (by decide)
      cases h with
      | resting h => exact .asking payload (h.request hj hs (h.server ▸ hfits) hr)
      | asking P h =>
        refine (hidle (decide_eq_true ?_) h.client h.server).elim
        exact h.state.imp And.left And.left
      | answering P F h => exact (hidle (decide_eq_true (.inr h.state)) h.client h.server).elim
  | pollClient now =>
    cases hstep
    obtain ⟨hin, hpatient⟩ := hok
    cases h with
    | resting h => exact .resting (h.pollClient now)
    | asking P h => exact .asking P (h.pollClient hin)
    | answering P F h => exact (h.pollClient hin hpatient).elim (.answering P F) .resting
  | pollServer now =>
    cases hstep
    cases h with
    | resting h => exact .resting (h.pollServer now)
    | asking P h => exact .asking P (h.pollServer hok)
    | answering P F h => exact .answering P F (h.pollServer hj hok)
  | deliverToServer now =>
    cases h with
    | resting h => exact .resting (h.deliverToServer hj hstep)
    | asking P h =>
      rcases h.deliverToServer hj (h.client ▸ hok) hstep with hy | ⟨F, hy⟩
      · exact .asking P hy
      · exact .answering P F hy
    | answering P F h => exact .answering P F (h.deliverToServer hj hstep)
  | deliverToClient now =>
    cases hq : x.toClient with
    | nil =>
      rw [step, hq] at hstep
      cases hstep
    | cons f fs =>
      rw [step, hq] at hstep
      cases hstep
      cases h with
      | resting h => cases hq.symm.trans h.quiet
      | asking P h => exact .asking P (h.deliverToClient hj hq)
      | answering P F h => exact .answering P F (h.deliverToClient hj hok hq)
  | addDtc dtc =>
    cases hstep
    cases h with
    | resting h =>
      exact .resting { h with
        listening := ⟨h.listening.sending, h.listening.deferredResponse⟩ }
    | asking P h =>
      exact .asking P { h with
        listening := ⟨h.listening.sending, h.listening.deferredResponse⟩ }
    | answering P F h =>
      obtain ⟨m, r₀, rest, htoClient, hfresh, hsource, hreceiver⟩ := h.messages
      exact .answering P F { h with
        messages := ⟨m, r₀, rest, htoClient, hfresh, hsource.addDtc dtc, hreceiver⟩ }

/-- **Every state of an orderly run is one of the phases.** -/
theorem phase (hj : Joined client.transport server.transport)
    (h : Reach step Orderly (start client server) x) :
    Phase client.transport server.transport x := by
  refine h.invariant (.resting ?_) fun x e y hx hok hstep => step_phase hj hx hok hstep
  exact ⟨⟨rfl, rfl, rfl⟩, .inl rfl, rfl, ⟨0, rfl⟩, rfl, ⟨rfl, rfl⟩, ⟨rfl, rfl, rfl⟩⟩

/-- **Every answer arrives.**  In a run of orderly events no request
fails; a complete request reports the final answer that the server computed for
exactly this request, and all requests have been answered, in order; and when the
client has sent its request, the server has nothing to send or deferred and nothing
is in flight, one more poll leaves the client not busy. -/
theorem answered_end_to_end (hm : client.transport.address.Mirrored server.transport.address)
    (hc : client.transport.validate = .ok ()) (hs : server.transport.validate = .ok ())
    (h : Reach step Orderly (start client server) x) :
    x.client.state ≠ .failed ∧
      (x.client.state = .complete → x.asked = x.answered.map Prod.fst ∧
        ∃ F, x.answered.getLast? = some (x.client.pendingRequest, F) ∧ ¬ IsPending F ∧
          x.client.response.Reports F) ∧
      (x.client.state ≠ .sending → x.server.sending = false → x.server.deferredResponse = [] →
        x.toServer = [] → x.toClient = [] → ∀ now, (x.client.poll now).1.busy = false) := by
  cases phase ⟨hm, hc, hs⟩ h with
  | resting h =>
    refine ⟨?_, ?_, fun _ _ _ _ _ now => (h.pollClient now).not_busy⟩
    · rcases h.state with hs | ⟨hs, _⟩ <;> rw [hs] <;> decide
    · intro hcomplete
      rcases h.state with hs | ⟨_, hreported⟩
      · exact absurd (hs.symm.trans hcomplete) (by decide)
      · exact ⟨h.logs, hreported⟩
  | asking P h =>
    refine ⟨?_, ?_, fun hsent hsending hdeferred hforth hback now => ?_⟩
    · rcases h.state with ⟨hs, _⟩ | ⟨hs, _⟩ <;> rw [hs] <;> decide
    · intro hcomplete
      rcases h.state with ⟨hs, _⟩ | ⟨hs, _⟩ <;> exact absurd (hs.symm.trans hcomplete) (by decide)
    · obtain ⟨k, rest, htoServer, _, htransfer⟩ := h.messages
      obtain ⟨_, rfl⟩ := List.append_eq_nil_iff.1 (htoServer.symm.trans hforth)
      rcases h.state with ⟨hs, _⟩ | ⟨_, hr⟩
      · exact absurd hs hsent
      · exact absurd (((htransfer.of_sent hr).2 rfl).symm.trans h.unread) (by decide)
  | answering P F h =>
    refine ⟨by rw [h.state]; decide, fun hcomplete => ?_,
      fun _ hsending hdeferred _ hback now => ?_⟩
    · exact absurd (h.state.symm.trans hcomplete) (by decide)
    · obtain ⟨m, r₀, rest, htoClient, _, hsource, hreceiver⟩ := h.messages
      obtain ⟨_, rfl⟩ := List.append_eq_nil_iff.1 (htoClient.symm.trans hback)
      have hr := hsource.arrived h.nonempty ⟨hsending, hdeferred⟩
      obtain ⟨hholds, _⟩ := hsource.received hr
      rcases hreceiver with rfl | ⟨_, rfl⟩
      · obtain ⟨client, k, heq, hstate, _⟩ := Client.poll_final h.state hholds.state hholds.result
          hholds.payload (h.requested.service ▸ h.final) now
        rw [heq]
        exact decide_eq_false (by rw [hstate]; decide)
      · cases (show TransferResult.inProgress = .ok from hr)

/-- A server that takes a nanosecond to erase its four bytes. -/
def slowServer : UdsServerConfig := { UdsServer.fourBytes with eraseDurationNs := 1 }

/-- A request at time 0 and its answer, each in a Single Frame. -/
def exchangeAtOnce (payload : List Byte) : List ExchangeEvent :=
  [.request payload 0, .pollClient 0, .deliverToServer 0, .pollServer 0, .deliverToClient 0,
    .pollClient 0]

/-- The client unlocks the server. -/
def unlock : List ExchangeEvent :=
  exchangeAtOnce [0x10, 0x02] ++ exchangeAtOnce [0x27, 0x01] ++
    exchangeAtOnce ([0x27, 0x02] ++ pushBe (toyKeyFromSeed 0xC0FFEE 0xA5C3F00D) 4)

/-- The client reads the `0x78` of an erase before the final answer arrives. -/
theorem answered_end_to_end_slow_erase : ∃ x,
    Reach step Orderly (start { transport := testerConfig } slowServer) x ∧
      x.client.state = .complete ∧ x.client.response.pendingCount = 1 ∧
      x.asked = x.answered.map Prod.fst ∧
      x.answered.getLast? = some ([0x31, 0x01, 0xFF, 0x00], [0x71, 0x01, 0xFF, 0x00, 0x00]) := by
  obtain ⟨x, hreach, hstate, hcount, hlast⟩ : ∃ x,
      Reach step Orderly (start { transport := testerConfig } slowServer) x ∧
        x.client.state = .complete ∧ x.client.response.pendingCount = 1 ∧
        x.answered.getLast? = some ([0x31, 0x01, 0xFF, 0x00], [0x71, 0x01, 0xFF, 0x00, 0x00]) :=
    Reach.exists_of_run (unlock ++
      [.request [0x31, 0x01, 0xFF, 0x00] 0, .pollClient 0, .deliverToServer 0, .pollServer 0,
        .deliverToClient 0, .pollClient 0, .pollServer 1, .deliverToClient 1, .pollClient 1])
      (by decide +kernel)
  have h := answered_end_to_end ⟨rfl, rfl, rfl, rfl, rfl⟩ (by decide) (by decide) hreach
  exact ⟨x, hreach, hstate, hcount, (h.2.1 hstate).1, hlast⟩

/-- The server has nothing to send or deferred and nothing is in flight, and yet the
next poll of the client, in time, leaves it busy. -/
def Stuck (x : Exchange) (now : ℕ) : Prop :=
  x.server.sending = false ∧ x.server.deferredResponse = [] ∧ x.toServer = [] ∧ x.toClient = [] ∧
    Regular x (.pollClient now) ∧ (x.client.poll now).1.busy = true

instance (x : Exchange) (now : ℕ) : Decidable (x.Stuck now) :=
  inferInstanceAs (Decidable (_ ∧ _ ∧ _ ∧ _ ∧ _ ∧ _))

/-- **Regular runs are not enough.**  A final answer that reaches the client behind
an unread `0x78` is lost, and the request fails at the end of P2\*; a server with an
invalid transport answers nothing; a client that has just begun to send is not done
with the next poll; with an invalid transport its requests fail; and so does one which
the server would accept and ISO-TP cannot describe. -/
theorem regular_is_not_enough :
    (∃ x, Reach step Regular (start { transport := testerConfig } slowServer) x ∧
      x.client.state = .awaitingResponse ∧ x.Stuck 1 ∧
      x.answered.getLast? = some ([0x31, 0x01, 0xFF, 0x00], [0x71, 0x01, 0xFF, 0x00, 0x00]) ∧
      ((x.client.poll 1).1.poll (x.client.poll 1).1.deadlineNs).1.state = .failed) ∧
    (∃ x, Reach step Regular (start { transport := testerConfig }
        { slowServer with transport := { ecuConfig with nBsNs := 0 } }) x ∧
      x.client.state = .awaitingResponse ∧ x.Stuck 0 ∧ x.asked = [[0x3E, 0x00]]) ∧
    (∃ x, Reach step Regular (start { transport := testerConfig } slowServer) x ∧
      x.client.state = .sending ∧ x.Stuck 0) ∧
    (∃ x, Reach step Regular
        (start { transport := { testerConfig with nBsNs := 0 } } slowServer) x ∧
      x.client.state = .failed) ∧
    (∃ x, Reach step Regular (start { transport := testerConfig }
        { slowServer with transport := { ecuConfig with maxReceiveLength := 2 ^ 32 } }) x ∧
      x.client.state = .failed) := by
  refine ⟨?_, ?_, ?_, ?_, ?_⟩
  · exact Reach.exists_of_run (unlock ++
      [.request [0x31, 0x01, 0xFF, 0x00] 0, .pollClient 0, .deliverToServer 0, .pollServer 0,
        .deliverToClient 0, .pollServer 1, .deliverToClient 1]) (by decide +kernel)
  · exact Reach.exists_of_run [.request [0x3E, 0x00] 0, .pollClient 0, .deliverToServer 0]
      (by decide +kernel)
  · exact Reach.exists_of_run [.request [0x3E, 0x00] 0] (by decide +kernel)
  · exact Reach.exists_of_run [.request [0x3E, 0x00] 0] (by decide +kernel)
  · have hlength : (0x22#8 :: List.replicate (2 ^ 32 - 1) 0).length = 2 ^ 32 := by
      rw [List.length_cons, List.length_replicate, Nat.sub_add_cancel (by decide)]
    obtain ⟨client, hr, hfailed⟩ := @Client.request_too_long (.create { transport := testerConfig })
      _ rfl (by decide) hlength.ge 0
    exact ⟨_, @Reach.tail _ _ _ _ _ _ _ (.request (0x22#8 :: List.replicate (2 ^ 32 - 1) 0) 0) .refl
      ⟨rfl, hlength.le⟩ (by rw [step, start, hr]), hfailed⟩

end Exchange

end Sim
end Canforge
