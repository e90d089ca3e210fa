/-
# The phases of an exchange

Between its requests an exchange is `Resting`; then it is `Asking` until the
server has the whole request, and `Answering` until the client has read the final
answer.  Frames of the bus that belong to neither stand before those of the message:
the keepalives of the last pause before the request, and the `0x78`s before the
final answer.  While a `0x78` lies unread in the client, the receiver the final
answer is for is the one the client will have reset (`Answering.messages`).

Every orderly event keeps the exchange in one of the phases
(`Exchange.step_phase`), one lemma for each phase and event.
-/

import Canforge.Sim.Delivery

namespace Canforge
namespace Sim

open Canforge.Core IsoTp Lib Uds

/-- The configurations of the two ends, which no event changes. -/
structure Wired (c d : Config) (x : Exchange) : Prop where
  client : x.client.config.transport = c
  receiver : x.client.receiver.config = c
  server : x.server.config.transport = d

/-- The client has read the final answer to its last request, which the server computed
for it, and reports it. -/
def Reported (x : Exchange) : Prop :=
  ∃ F, x.answered.getLast? = some (x.client.pendingRequest, F) ∧ ¬ IsPending F ∧
    x.client.response.Reports F

/-- No request is on its way. -/
structure Resting (c d : Config) (x : Exchange) : Prop extends Wired c d x where
  state : x.client.state = .idle ∨ (x.client.state = .complete ∧ Reported x)
  logs : x.asked = x.answered.map Prod.fst
  keepalives : ∃ k, x.toServer = List.replicate k (keepaliveFrame c)
  quiet : x.toClient = []
  listening : x.server.Listening
  fresh : Fresh d x.server.receiver

/-- The request `P` is on its way, behind the keepalives of the last pause. -/
structure Asking (c d : Config) (P : List Byte) (x : Exchange) : Prop extends Wired c d x where
  requested : x.client.Requested P
  nonempty : P ≠ []
  fits : Fits d P
  unsuppressed : suppresses P = false
  logs : x.asked = x.answered.map Prod.fst ++ [P]
  state : (x.client.state = .sending ∧ x.client.sender.result = .inProgress) ∨
    (x.client.state = .awaitingResponse ∧ x.client.sender.result = .ok)
  idle : Fresh c x.client.receiver
  listening : x.server.Listening
  unread : x.server.receiver.result = .inProgress
  messages : ∃ k rest, x.toServer = List.replicate k (keepaliveFrame c) ++ rest ∧
    (k ≠ 0 → Fresh d x.server.receiver) ∧
    Transfer c d P x.client.sender x.server.receiver rest x.toClient

/-- The final answer `F` to the request `P` is on its way, behind the `0x78`s. -/
structure Answering (c d : Config) (P F : List Byte) (x : Exchange) : Prop
    extends Wired c d x where
  requested : x.client.Requested P
  state : x.client.state = .awaitingResponse
  final : FinalAnswer (P.getD 0 0) F
  fits : Fits c F
  logs : x.asked = x.answered.map Prod.fst
  last : x.answered.getLast? = some (P, F)
  fresh : Fresh d x.server.receiver
  messages : ∃ m r₀ rest, x.toClient = List.replicate m (pendingFrame d (P.getD 0 0)) ++ rest ∧
    (m ≠ 0 → Fresh c r₀) ∧ Source c d (P.getD 0 0) F x.server r₀ rest x.toServer ∧
    (x.client.receiver = r₀ ∨
      (Holds c (pendingResponse (P.getD 0 0)) x.client.receiver ∧ r₀ = x.client.receiver.reset))

/-- The phases. -/
inductive Phase (c d : Config) (x : Exchange) : Prop
  | resting (h : Resting c d x)
  | asking (P : List Byte) (h : Asking c d P x)
  | answering (P F : List Byte) (h : Answering c d P F x)

variable {c d : Config} {P F : List Byte} {x y : Exchange} {f : FdFrame} {fs : List FdFrame}
  {payload : List Byte} {client : Client} {now : ℕ}

/-- The keepalive reaches a server with nothing else to do. -/
theorem keepalive_received (hj : Joined c d) (hl : x.server.Listening)
    (hf : Fresh d x.server.receiver) (now : ℕ) :
    ∃ server, x.server.onFrame (keepaliveFrame c) now = some server ∧
      x.server.answers (keepaliveFrame c) now = [] ∧ server.Listening ∧
      server.config = x.server.config ∧ Fresh d server.receiver := by
  have hholds := hf.single hj.mirrored (show 1 ≤ Client.keepalivePayload.length by decide)
    (keepalivePayload_short c.address) now
  obtain ⟨handled, testerPresent, heq, hanswers⟩ :=
    UdsServer.onFrame_keepalive hl hholds.result hholds.payload
  exact ⟨_, heq, hanswers, ⟨hl.sending, hl.deferredResponse⟩, rfl, hholds.reset⟩

/-- A delivery of the frame `f` to the server. -/
theorem deliverToServer_cons (hq : x.toServer = f :: fs)
    (h : x.step (.deliverToServer now) = some y) : ∃ server, x.server.onFrame f now = some server ∧
      y = { x with server, toServer := fs, answered := x.answered ++ x.server.answers f now } := by
  rw [Exchange.step, hq] at h
  obtain ⟨server, hserver, rfl⟩ := Option.map_eq_some_iff.1 h
  exact ⟨server, hserver, rfl⟩

namespace Resting

/-- **A request is accepted.** -/
theorem request (hj : Joined c d) (h : Resting c d x) (hs : suppresses payload = false)
    (hfits : Fits d payload) (hr : x.client.request payload now = .ok client) :
    Asking c d payload { x with client, asked := x.asked ++ [payload] } := by
  obtain ⟨_, hne, hrequested, hconfig, hstate, hreceiver, hbegin⟩ :=
    Client.request_accepted (h.client ▸ hj.client) hfits.2 hs hr
  rw [h.client] at hbegin
  obtain ⟨_, _, _, hc, hP, hresult, hst⟩ := Sender.begin_spec hbegin
  obtain ⟨k, hk⟩ := h.keepalives
  have hfresh : Fresh c client.receiver := hreceiver ▸ ⟨h.receiver, rfl, rfl⟩
  exact {
    client := by rw [← h.client, ← hconfig]
    receiver := hfresh.config
    server := h.server
    requested := hrequested
    nonempty := hne
    fits := hfits
    unsuppressed := hs
    logs := by rw [← h.logs]
    state := .inl ⟨hstate, hresult⟩
    idle := hfresh
    listening := h.listening
    unread := h.fresh.result
    messages := ⟨k, [], by rw [List.append_nil]; exact hk, fun _ => h.fresh,
      h.quiet ▸ .start hc hP hresult hst h.fresh⟩ }

theorem not_busy (h : Resting c d x) : x.client.busy = false := by
  refine decide_eq_false fun hb => ?_
  rcases h.state with hs | ⟨hs, _⟩ <;> rw [hs] at hb <;> rcases hb with hb | hb <;> cases hb

theorem pollClient (h : Resting c d x) (now : ℕ) : Resting c d { x with
    client := (x.client.poll now).1, toServer := x.toServer ++ (x.client.poll now).2 } := by
  obtain ⟨k, hk⟩ := h.keepalives
  rw [Client.poll_rest h.not_busy]
  rcases x.client.keepalive_cases [] now with heq | ⟨_, keepalives, lastActivityNs, heq⟩
  · rw [heq]
    exact { h with keepalives := ⟨k, by rw [List.append_nil]; exact hk⟩ }
  · rw [heq]
    refine ⟨⟨h.client, h.receiver, h.server⟩, h.state, h.logs, ⟨k + 1, ?_⟩, h.quiet,
      h.listening, h.fresh⟩
    rw [hk, h.client, List.nil_append, List.replicate_succ']

theorem pollServer (h : Resting c d x) (now : ℕ) : Resting c d { x with
    server := (x.server.poll now).1, toClient := x.toClient ++ (x.server.poll now).2 } := by
  rw [UdsServer.poll_listening h.listening, h.fresh.poll now]
  exact { h with quiet := by rw [List.append_nil]; exact h.quiet }

theorem deliverToServer (hj : Joined c d) (h : Resting c d x)
    (hstep : x.step (.deliverToServer now) = some y) : Resting c d y := by
  obtain ⟨k, hk⟩ := h.keepalives
  cases k with
  | zero =>
    rw [Exchange.step, hk] at hstep
    cases hstep
  | succ k =>
    rw [List.replicate_succ] at hk
    obtain ⟨server, hserver, rfl⟩ := deliverToServer_cons hk hstep
    obtain ⟨server', hserver', hanswers, hl, hconfig, hfresh⟩ :=
      keepalive_received hj h.listening h.fresh now
    obtain rfl := Option.some.inj (hserver.symm.trans hserver')
    rw [hanswers, List.append_nil]
    exact ⟨⟨h.client, h.receiver, by rw [hconfig]; exact h.server⟩, h.state, h.logs, ⟨k, rfl⟩,
      h.quiet, hl, hfresh⟩

end Resting

namespace Asking

theorem pollClient (h : Asking c d P x) (hin : x.client.InTime now) : Asking c d P { x with
    client := (x.client.poll now).1, toServer := x.toServer ++ (x.client.poll now).2 } := by
  obtain ⟨k, rest, htoServer, hfresh, htransfer⟩ := h.messages
  rcases h.state with ⟨hs, hr⟩ | ⟨hs, hr⟩
  · obtain ⟨hdeadline, hp2⟩ := hin.1 hs
    have htransfer := htransfer.pollSender hdeadline
    have hmessages : ∃ k' rest', x.toServer ++ (x.client.sender.poll now).2 =
        List.replicate k' (keepaliveFrame c) ++ rest' ∧ (k' ≠ 0 → Fresh d x.server.receiver) ∧
        Transfer c d P (x.client.sender.poll now).1 x.server.receiver rest' x.toClient :=
      ⟨k, _, by rw [htoServer, List.append_assoc], hfresh, htransfer⟩
    rcases htransfer.results.1 with hr' | hr'
    · rw [Client.poll_sending hs hr']
      exact { h with
        requested := ⟨h.requested.request, h.requested.service, h.requested.expect⟩
        state := .inl ⟨hs, hr'⟩
        messages := hmessages }
    · rw [Client.poll_sent hs h.requested.expect hr' h.idle.state h.idle.result hp2]
      exact { h with
        requested := ⟨h.requested.request, h.requested.service, h.requested.expect⟩
        state := .inr ⟨rfl, hr'⟩
        messages := hmessages }
  · obtain ⟨_, hp2⟩ := hin.2 hs
    have hpoll := h.idle.poll now
    rw [Client.poll_awaiting hs (by rw [hpoll]; exact h.idle.result) hp2, hpoll]
    exact { h with messages := ⟨k, rest, by rw [List.append_nil]; exact htoServer, hfresh,
      htransfer⟩ }

theorem pollServer (h : Asking c d P x) (hin : x.server.InTime now) : Asking c d P { x with
    server := (x.server.poll now).1, toClient := x.toClient ++ (x.server.poll now).2 } := by
  obtain ⟨k, rest, htoServer, hfresh, htransfer⟩ := h.messages
  have htransfer := htransfer.pollReceiver (hin.2 h.listening.sending)
  rw [UdsServer.poll_listening h.listening]
  exact { h with
    listening := ⟨h.listening.sending, h.listening.deferredResponse⟩
    unread := htransfer.results.2.resolve_right fun hr =>
      absurd ((Receiver.poll_ok hr).symm.trans h.unread) (by decide)
    messages := ⟨k, rest, htoServer, fun hk => by rw [(hfresh hk).poll now]; exact hfresh hk,
      htransfer⟩ }

/-- **A frame reaches the server:** a keepalive, a frame of the request, or the last one. -/
theorem deliverToServer (hj : Joined c d) (h : Asking c d P x)
    (hfits : x.NextAnswer now (Fits c))
    (hstep : x.step (.deliverToServer now) = some y) :
    Asking c d P y ∨ ∃ F, Answering c d P F y := by
  obtain ⟨k, rest, htoServer, hfresh, htransfer⟩ := h.messages
  cases k with
  | succ k =>
    rw [List.replicate_succ, List.cons_append] at htoServer
    obtain ⟨server, hserver, rfl⟩ := deliverToServer_cons htoServer hstep
    have hf := hfresh (Nat.succ_ne_zero k)
    obtain ⟨server', hserver', hanswers, hl, hconfig, hfresh'⟩ :=
      keepalive_received hj h.listening hf now
    obtain rfl := Option.some.inj (hserver.symm.trans hserver')
    rw [hanswers, List.append_nil]
    exact .inl { h with
      server := by rw [hconfig]; exact h.server
      listening := hl
      unread := hfresh'.result
      messages := ⟨k, rest, rfl, fun _ => hfresh', htransfer.of_fresh hf hfresh'⟩ }
  | zero =>
    rw [List.replicate_zero, List.nil_append] at htoServer
    cases rest with
    | nil =>
      rw [Exchange.step, htoServer] at hstep
      cases hstep
    | cons f fs =>
      obtain ⟨server, hserver, rfl⟩ := deliverToServer_cons htoServer hstep
      have hfits := hfits f (by rw [htoServer]; exact List.mem_singleton_self f)
      have hnext := htransfer.deliver now hj.mirrored (List.length_pos_of_ne_nil h.nonempty)
        (fun _ => h.fits.1) h.fits.2
      rcases hnext.results.2 with hr | hr
      · obtain ⟨heq, hanswers⟩ := UdsServer.onFrame_progress h.listening.sending hr
        obtain rfl := Option.some.inj (hserver.symm.trans heq)
        rw [hanswers, List.append_nil]
        exact .inl { h with
          listening := ⟨h.listening.sending, h.listening.deferredResponse⟩
          unread := hr
          messages := ⟨0, fs, rfl, fun h => absurd rfl h, hnext⟩ }
      · obtain ⟨hsent, hholds, hfs, htoClient⟩ := hnext.of_received hr
        obtain ⟨F, hfinal, hanswers, hsending, hreceiver, htransport, hcase⟩ :=
          UdsServer.onFrame_request h.listening (h.server ▸ hj.server) hr hholds.payload
            h.nonempty h.unsuppressed (fun a ha => (hfits a ha).2) hserver
        have hstate : x.client.state = .awaitingResponse := by
          rcases h.state with ⟨_, hs⟩ | ⟨hs, _⟩
          · exact absurd (hs.symm.trans hsent) (by decide)
          · exact hs
        have hsource : Source c d (P.getD 0 0) F server x.client.receiver [] fs := by
          rw [h.server] at hcase
          subst hfs
          rcases hcase with ⟨hb, hd⟩ | ⟨hb, hd, hservice⟩
          · exact .begin_final hb hsending hd h.idle
          · exact .begin_busy hb hsending hd hservice h.idle
        have hF : Fits c F := hfits (P, F) (by rw [hanswers]; exact List.mem_singleton_self _)
        rw [hanswers]
        exact .inr ⟨F, {
          client := h.client
          receiver := h.receiver
          server := htransport.trans h.server
          requested := h.requested
          state := hstate
          final := hfinal
          fits := hF
          logs := by rw [h.logs, List.map_append, List.map_singleton]
          last := List.getLast?_concat
          fresh := hreceiver ▸ hholds.reset
          messages := ⟨0, x.client.receiver, [], htoClient, fun h => absurd rfl h, hsource,
            .inl rfl⟩ }⟩

/-- **A flow control reaches the client.** -/
theorem deliverToClient (hj : Joined c d) (h : Asking c d P x) (hq : x.toClient = f :: fs) :
    Asking c d P { x with client := x.client.onFrame f now, toClient := fs } := by
  obtain ⟨k, rest, htoServer, hfresh, htransfer⟩ := h.messages
  rw [hq] at htransfer
  rcases h.state with ⟨hs, hr⟩ | ⟨hs, hr⟩
  · have htransfer := htransfer.deliverFlowControl now hj.mirrored
    rw [Client.onFrame, if_pos hs]
    exact { h with
      requested := ⟨h.requested.request, h.requested.service, h.requested.expect⟩
      state := .inl ⟨hs, htransfer.results.1.resolve_right fun hr' =>
        absurd ((Sender.onFrame_ok hr').symm.trans hr) (by decide)⟩
      messages := ⟨k, rest, htoServer, hfresh, htransfer⟩ }
  · exact absurd (htransfer.of_sent hr).1 (List.cons_ne_nil f fs)

end Asking

namespace Answering

theorem nonempty (h : Answering c d P F x) : F ≠ [] := List.ne_nil_of_length_pos h.final.length_pos

/-- **A poll of the client:** it reads a `0x78` or the final answer, or has nothing to read. -/
theorem pollClient (h : Answering c d P F x) (hin : x.client.InTime now)
    (hpatient : ¬ x.client.OutOfPatience) :
    let y := { x with
      client := (x.client.poll now).1, toServer := x.toServer ++ (x.client.poll now).2 }
    Answering c d P F y ∨ Resting c d y := by
  obtain ⟨hdeadline, hp2⟩ := hin.2 h.state
  obtain ⟨m, r₀, rest, htoClient, hfresh, hsource, rfl | ⟨hholds, rfl⟩⟩ := h.messages
  · have hnext := hsource.pollReceiver hdeadline
    rcases hnext.result with hr | hr
    · rw [Client.poll_awaiting h.state hr hp2]
      refine .inl { h with
        receiver := hnext.receiver_config
        requested := ⟨h.requested.request, h.requested.service, h.requested.expect⟩
        messages := ⟨m, _, rest, htoClient, fun hm => ?_, hnext, .inl rfl⟩ }
      rw [(hfresh hm).poll now]
      exact hfresh hm
    · obtain ⟨hholds, hlistening, rfl, htoServer⟩ := hsource.received (Receiver.poll_ok hr)
      have hm : m = 0 := by
        by_contra hm
        exact absurd ((hfresh hm).result.symm.trans hholds.result) (by decide)
      subst hm
      obtain ⟨client, k, heq, hstate, hconfig, hreceiver, hrequest, hreports⟩ :=
        Client.poll_final h.state hholds.state hholds.result hholds.payload
          (h.requested.service ▸ h.final) now
      rw [heq]
      exact .inr {
        client := by rw [hconfig]; exact h.client
        receiver := by rw [hreceiver]; exact h.receiver
        server := h.server
        state := .inr ⟨hstate, F, by rw [hrequest, h.requested.request]; exact h.last,
          h.final.not_pending, hreports⟩
        logs := h.logs
        keepalives := ⟨k, by rw [htoServer, h.client]; rfl⟩
        quiet := htoClient
        listening := hlistening
        fresh := h.fresh }
  · rw [Client.poll_pending h.state hholds.state hholds.result hholds.payload hpatient]
    exact .inl { h with
      requested := ⟨h.requested.request, h.requested.service, h.requested.expect⟩
      messages := ⟨m, _, rest, htoClient, hfresh, by rw [List.append_nil]; exact hsource,
        .inl rfl⟩ }

theorem pollServer (hj : Joined c d) (h : Answering c d P F x) (hin : x.server.InTime now) :
    Answering c d P F { x with
      server := (x.server.poll now).1, toClient := x.toClient ++ (x.server.poll now).2 } := by
  obtain ⟨m, r₀, rest, htoClient, hfresh, hsource, hreceiver⟩ := h.messages
  obtain ⟨n, rest', heq, hn, hnext, htransport, hserver⟩ :=
    hsource.poll hj h.nonempty h.fits.2 h.server h.fresh hin
  refine { h with
    server := htransport
    fresh := hserver
    messages := ⟨m + n, r₀, rest', ?_, fun hmn => ?_, hnext, hreceiver⟩ }
  · rw [htoClient, List.append_assoc, heq, ← List.append_assoc, List.replicate_append_replicate]
  · rcases Nat.eq_zero_or_pos m with rfl | hm
    · exact hn (by omega)
    · exact hfresh (by omega)

theorem deliverToServer (hj : Joined c d) (h : Answering c d P F x)
    (hstep : x.step (.deliverToServer now) = some y) : Answering c d P F y := by
  obtain ⟨m, r₀, rest, htoClient, hfresh, hsource, hreceiver⟩ := h.messages
  cases hq : x.toServer with
  | nil =>
    rw [Exchange.step, hq] at hstep
    cases hstep
  | cons f fs =>
    obtain ⟨server, hserver, rfl⟩ := deliverToServer_cons hq hstep
    rw [hq] at hsource
    obtain ⟨heq, hanswers, hnext⟩ := hsource.deliverToServer now hj
    obtain rfl := Option.some.inj (hserver.symm.trans heq)
    rw [hanswers, List.append_nil]
    exact { h with messages := ⟨m, r₀, rest, htoClient, hfresh, hnext, hreceiver⟩ }

/-- **A frame reaches the client**, which has no unread message: a `0x78` or a frame of
the final answer. -/
theorem deliverToClient (hj : Joined c d) (h : Answering c d P F x) (hread : ¬ x.client.Unread)
    (hq : x.toClient = f :: fs) :
    Answering c d P F { x with client := x.client.onFrame f now, toClient := fs } := by
  obtain ⟨m, r₀, rest, htoClient, hfresh, hsource, rfl | ⟨hholds, rfl⟩⟩ := h.messages
  · rw [Client.onFrame, if_neg (by rw [h.state]; decide), if_pos h.state]
    cases m with
    | zero =>
      rw [List.replicate_zero, List.nil_append, hq] at htoClient
      subst htoClient
      have hnext := hsource.deliverToClient now hj h.final.length_pos (fun _ => h.fits.1) h.fits.2
      exact { h with
        receiver := hnext.receiver_config
        requested := ⟨h.requested.request, h.requested.service, h.requested.expect⟩
        messages := ⟨0, _, fs, rfl, fun h => absurd rfl h, hnext, .inl rfl⟩ }
    | succ m =>
      rw [List.replicate_succ, List.cons_append, hq] at htoClient
      obtain ⟨rfl, rfl⟩ := List.cons.inj htoClient
      have hf := hfresh (Nat.succ_ne_zero m)
      have hholds := hf.single hj.mirrored.symm (show 1 ≤ (pendingResponse (P.getD 0 0)).length from
        Nat.succ_le_succ (Nat.zero_le _)) (pendingResponse_short d.address _) now
      exact { h with
        receiver := hholds.config
        requested := ⟨h.requested.request, h.requested.service, h.requested.expect⟩
        messages := ⟨m, _, rest, rfl, fun _ => hholds.reset, hsource.of_fresh hf hholds.reset,
          .inr ⟨hholds, rfl⟩⟩ }
  · exact absurd ⟨h.state, decide_eq_true hholds.result⟩ hread

end Answering

end Sim
end Canforge
