/-
# The phases of a run with any requests

A client may ask for no answer, ask for more than the server takes, or refuse an answer.
The exchange is then `Attentive` until the server has a request the client waits for,
`Replying` until the client has read the final answer, which tells the session of the
server, and it can end up in a state it does not leave: the server has refused a request
and its receiver is never reset (`Deafened`), or a client waits for an answer that is
not to come (`Abandoned`).  Between the refusal of an answer by the client and the end of
its sending by the server the client may go on (`Rejecting`, `Aborting`).

Every event of an attended run keeps the exchange in one of the phases, one lemma for
each phase and event.
-/

import Canforge.IsoTp.Reception
import Canforge.Sim.Outgoing
import Canforge.Sim.Phases
import Canforge.Sim.Sessions

namespace Canforge
namespace Sim

open Canforge.Core IsoTp Lib Uds

/-- The client believes in the session the server is in. -/
def Agreed (x : Exchange) : Prop := x.client.session = x.server.session.toByte

/-- The server listens, and the sessions are the same. -/
structure Attentive (c d : Config) (x : Exchange) : Prop extends Wired c d x where
  agreed : Agreed x
  listening : x.server.Listening
  outgoing : Outgoing c d x.client x.server.receiver x.toServer x.toClient

/-- The final answer `F` to the request `P` is on its way, behind the `0x78`s. -/
structure Replying (c d : Config) (P F : List Byte) (x : Exchange) : Prop
    extends Wired c d x where
  joined : Joined c d
  service : x.client.requestedService = P.getD 0 0
  state : x.client.state = .awaitingResponse
  final : FinalAnswer (P.getD 0 0) F
  bounded : F.length < 2 ^ 32
  told : x.server.session.toByte = sessionBehind x.client.session P F
  short : P.getD 0 0 = Service.diagnosticSessionControl.toByte → F.length ≤ 6
  fresh : Fresh d x.server.receiver
  messages : ∃ m r₀ rest, x.toClient = List.replicate m (pendingFrame d (P.getD 0 0)) ++ rest ∧
    (m ≠ 0 → Fresh c r₀) ∧ (HasRoom d c F ∨ Fresh c r₀) ∧
    Source c d (P.getD 0 0) F x.server r₀ rest x.toServer ∧
    (x.client.receiver = r₀ ∨
      (Holds c (pendingResponse (P.getD 0 0)) x.client.receiver ∧ r₀ = x.client.receiver.reset))

/-- The client is about to refuse the answer the server sends. -/
structure Rejecting (c d : Config) (x : Exchange) : Prop extends Wired c d x where
  agreed : Agreed x
  state : x.client.state = .awaitingResponse
  refusing : Refusing c x.client.receiver
  sending : x.server.sending = true
  deferred : x.server.deferredResponse = []
  waiting : Waiting x.server.sender
  sender : x.server.sender.config = d
  fresh : Fresh d x.server.receiver
  forth : x.toServer = []
  back : x.toClient = []

/-- The client has refused the answer; the overflow is in flight or has ended the sender. -/
structure Aborting (c d : Config) (x : Exchange) : Prop extends Wired c d x where
  agreed : Agreed x
  sending : x.server.sending = true
  deferred : x.server.deferredResponse = []
  fresh : Fresh d x.server.receiver
  back : x.toClient = []
  messages : ∃ q, Outgoing c d x.client x.server.receiver q [] ∧
    ((Waiting x.server.sender ∧ x.server.sender.config = d ∧
        x.toServer = makeFlowControl c .overflow :: q) ∨
      (x.server.sender.result ≠ .inProgress ∧ x.toServer = q))

/-- The server has refused a request, and hears nothing. -/
structure Deafened (c d : Config) (x : Exchange) : Prop where
  agreed : Agreed x
  listening : x.server.Listening
  deaf : Deaf d x.server.receiver
  receiver : Receiver.Consistent c x.client.receiver
  unread : x.client.receiver.result ≠ .ok
  back : ∀ f ∈ x.toClient, f = makeFlowControl d .overflow

/-- A server that hears nothing and has nothing to say, or cannot say it. -/
structure Mute (d : Config) (s : UdsServer) : Prop where
  fresh : Fresh d s.receiver
  silent : (s.sending = true ∧ s.deferredResponse = [] ∧
      (s.sender.result ≠ .inProgress ∨ Waiting s.sender)) ∨
    (s.sending = false ∧ (s.deferredResponse = [] ∨ s.config.transport.validate ≠ .ok ()))

/-- The client waits for what is not to come. -/
structure Abandoned (c d : Config) (x : Exchange) : Prop where
  stranded : Stranded c x.client
  mute : Mute d x.server
  forth : x.toServer = []
  back : x.toClient = []

/-- The phases. -/
inductive SessionPhase (c d : Config) (x : Exchange) : Prop
  | attentive (h : Attentive c d x)
  | replying (P F : List Byte) (h : Replying c d P F x)
  | rejecting (h : Rejecting c d x)
  | aborting (h : Aborting c d x)
  | deafened (h : Deafened c d x)
  | abandoned (h : Abandoned c d x)

variable {c d : Config} {P F payload : List Byte} {x y : Exchange} {f : FdFrame}
  {fs : List FdFrame} {client : Client} {s : UdsServer} {now : ℕ}

/-! ### A server with nothing to say -/

/-- The poll behind the end of an answer, whatever ended it. -/
theorem UdsServer.poll_ended (hs : s.sending = true) (hr : s.sender.result ≠ .inProgress) :
    s.poll now = ({ s with sending := false, receiver := s.receiver.reset }, []) := by
  have hsame : s.releaseDeferred now = s := if_neg fun h => by rw [hs] at h; cases h.2.2
  have hd : s.sender.done = true := decide_eq_true hr
  rw [poll, hsame]
  simp only [if_pos hs, Sender.poll_of_ne hr, if_pos hd]

theorem UdsServer.send_invalid (s : UdsServer) (hv : s.config.transport.validate ≠ .ok ())
    (response : List Byte) (now : ℕ) : s.send response now =
      { s with sender := { config := s.config.transport } } := by
  rcases s.send_cases response now with ⟨sender, hbegin, _⟩ | ⟨_, hsend⟩
  · exact absurd (Sender.begin_spec hbegin).2.1 hv
  · exact hsend

/-- A server that cannot send releases a deferred answer for nothing. -/
theorem UdsServer.poll_invalid (hs : s.sending = false)
    (hv : s.config.transport.validate ≠ .ok ()) (hr : s.receiver.state = .idle) :
    ∃ sender deferredResponse pendingLeft,
      s.poll now = ({ s with sender, deferredResponse, pendingLeft }, []) := by
  obtain ⟨sender, deferredResponse, heq⟩ : ∃ sender deferredResponse,
      s.releaseDeferred now = { s with sender, deferredResponse } := by
    unfold releaseDeferred
    split_ifs
    · exact ⟨_, [], by rw [s.send_invalid hv]⟩
    · exact ⟨s.sender, s.deferredResponse, rfl⟩
  have hs : ¬ s.sending = true := by rw [hs]; decide
  rw [poll, heq]
  simp only [if_neg hs, Receiver.poll_idle hr]
  split_ifs
  · have hsend := send_invalid { s with sender, deferredResponse, pendingLeft := s.pendingLeft - 1 }
      hv (negative s.deferredService .requestCorrectlyReceivedResponsePending) now
    exact ⟨_, deferredResponse, s.pendingLeft - 1, congrArg (fun s => (s, [])) hsend⟩
  · exact ⟨sender, deferredResponse, s.pendingLeft, rfl⟩

namespace Mute

/-- **A mute server stays mute.** -/
theorem poll (hin : s.InTime now) (h : Mute d s) : Mute d (s.poll now).1 ∧ (s.poll now).2 = [] := by
  rcases h.silent with ⟨hs, hd, hr | hw⟩ | ⟨hs, hd | hv⟩
  · rw [UdsServer.poll_ended hs hr]
    exact ⟨⟨h.fresh.reset, .inr ⟨rfl, .inl hd⟩⟩, rfl⟩
  · have hpoll := hw.poll (hin.1 hs)
    rw [UdsServer.poll_sending hs (by rw [hpoll]; exact hw.result), hpoll]
    exact ⟨⟨h.fresh, .inl ⟨hs, hd, .inr hw⟩⟩, rfl⟩
  · rw [UdsServer.poll_listening ⟨hs, hd⟩, h.fresh.poll now]
    exact ⟨⟨h.fresh, .inr ⟨hs, .inl hd⟩⟩, rfl⟩
  · obtain ⟨_, _, _, heq⟩ := UdsServer.poll_invalid hs hv h.fresh.state
    rw [heq]
    exact ⟨⟨h.fresh, .inr ⟨hs, .inr hv⟩⟩, rfl⟩

end Mute

namespace Attentive

/-- **A request.** -/
theorem request (h : Attentive c d x) (hr : x.client.request payload now = .ok client) :
    Attentive c d { x with client, asked := x.asked ++ [payload] } := by
  obtain ⟨_, _, hconfig, hsession, hreceiver, _⟩ := Client.request_cases hr
  exact {
    client := (congrArg ClientConfig.transport hconfig).trans h.client
    receiver := hreceiver ▸ h.receiver
    server := h.server
    agreed := hsession.trans h.agreed
    listening := h.listening
    outgoing := h.outgoing.request h.client h.receiver hr }

theorem pollClient (h : Attentive c d x) (hin : x.client.OnTime now) : Attentive c d { x with
    client := (x.client.poll now).1, toServer := x.toServer ++ (x.client.poll now).2 } := by
  obtain ⟨houtgoing, hsession, hconfig, hreceiver⟩ :=
    h.outgoing.pollClient h.client h.receiver hin
  exact {
    client := (congrArg ClientConfig.transport hconfig).trans h.client
    receiver := hreceiver
    server := h.server
    agreed := hsession.trans h.agreed
    listening := h.listening
    outgoing := houtgoing }

theorem pollServer (h : Attentive c d x) (hin : x.server.InTime now) : Attentive c d { x with
    server := (x.server.poll now).1, toClient := x.toClient ++ (x.server.poll now).2 } := by
  have houtgoing := h.outgoing.pollReceiver (hin.2 h.listening.sending)
  rw [UdsServer.poll_listening h.listening]
  exact { h with
    listening := ⟨h.listening.sending, h.listening.deferredResponse⟩
    outgoing := houtgoing }

/-- **A frame reaches the server:** it completes nothing, a request for no answer or the
one the client waits for, or the server is about to refuse a request. -/
theorem deliverToServer (hm : c.address.Mirrored d.address) (h : Attentive c d x)
    (hplain : x.NextPlain now) (hq : x.toServer = f :: fs)
    (hstep : x.step (.deliverToServer now) = some y) : SessionPhase c d y := by
  obtain ⟨server, hserver, rfl⟩ := deliverToServer_cons hq hstep
  have hplain := hplain f (by rw [hq]; exact List.mem_singleton_self f)
  have houtgoing := h.outgoing
  rw [hq] at houtgoing
  rcases houtgoing.deliver now hm with ⟨hr, hnext⟩ | ⟨hr, hsup, hnext⟩ |
    ⟨P, hholds, hask, hstate, hsup, rfl, hback⟩ | ⟨hrefusing, hidle, hback⟩
  · obtain ⟨heq, _⟩ := UdsServer.onFrame_progress h.listening.sending hr
    obtain rfl := Option.some.inj (hserver.symm.trans heq)
    exact .attentive { h with
      listening := ⟨h.listening.sending, h.listening.deferredResponse⟩
      outgoing := hnext }
  · obtain ⟨hlistening, hsession, htransport, hreceiver⟩ :=
      UdsServer.onFrame_silent h.listening hr rfl hsup hplain hserver
    exact .attentive { h with
      server := htransport.trans h.server
      agreed := h.agreed.trans (congrArg SessionType.toByte hsession.symm)
      listening := hlistening
      outgoing := by rw [hreceiver]; exact hnext }
  · obtain ⟨htransport, hreceiver, hcase⟩ := UdsServer.onFrame_told h.listening hholds.result
      hholds.payload hask.nonempty hsup hplain hserver
    have hfresh : Fresh d server.receiver := hreceiver ▸ hholds.reset
    rcases hcase with hmute | ⟨F, hfinal, hbounded, htold, hshort, hvalid, hsending, hcase⟩
    · exact .abandoned {
        stranded := .inr ⟨hstate, .inl hask.idle⟩
        mute := ⟨hfresh, .inr hmute⟩
        forth := rfl
        back := hback }
    · rw [h.server] at hcase hvalid
      have hsource : Source c d (P.getD 0 0) F server x.client.receiver [] [] := by
        rcases hcase with ⟨hb, hd⟩ | ⟨hb, hd, hservice⟩
        · exact .begin_final hb hsending hd hask.idle
        · exact .begin_busy hb hsending hd hservice hask.idle
      exact .replying P F {
        client := h.client
        receiver := h.receiver
        server := htransport.trans h.server
        joined := ⟨hm, hask.valid, hvalid⟩
        service := hask.service
        state := hstate
        final := hfinal
        bounded := hbounded
        told := by rw [h.agreed]; exact htold
        short := hshort
        fresh := hfresh
        messages := ⟨0, x.client.receiver, [], hback, fun h => absurd rfl h, .inr hask.idle,
          hsource, .inl rfl⟩ }
  · obtain ⟨heq, _⟩ := UdsServer.onFrame_progress h.listening.sending hrefusing.result
    obtain rfl := Option.some.inj (hserver.symm.trans heq)
    exact .deafened {
      agreed := h.agreed
      listening := ⟨h.listening.sending, h.listening.deferredResponse⟩
      deaf := hrefusing.deaf
      receiver := ⟨hidle.config, iff_of_false (by rw [hidle.state]; decide) fun h =>
        h hidle.result⟩
      unread := by rw [hidle.result]; decide
      back := fun f hf => by rw [hback] at hf; exact absurd hf List.not_mem_nil }

/-- **A flow control reaches the client.** -/
theorem deliverToClient (hm : c.address.Mirrored d.address) (h : Attentive c d x)
    (hq : x.toClient = f :: fs) :
    Attentive c d { x with client := x.client.onFrame f now, toClient := fs } := by
  have houtgoing := h.outgoing
  rw [hq] at houtgoing
  obtain ⟨houtgoing, hsession, hconfig, hreceiver⟩ := houtgoing.deliverToClient now hm
  exact {
    client := (congrArg ClientConfig.transport hconfig).trans h.client
    receiver := (congrArg Receiver.config hreceiver).trans h.receiver
    server := h.server
    agreed := hsession.trans h.agreed
    listening := h.listening
    outgoing := houtgoing }

end Attentive

namespace Replying

/-- **A poll of the client:** it reads a `0x78` or the final answer, or has nothing to read. -/
theorem pollClient (h : Replying c d P F x) (hin : x.client.OnTime now)
    (hpatient : ¬ x.client.OutOfPatience) :
    let y := { x with
      client := (x.client.poll now).1, toServer := x.toServer ++ (x.client.poll now).2 }
    Replying c d P F y ∨ Attentive c d y := by
  obtain ⟨hdeadline, hp2⟩ := hin.2 h.state
  obtain ⟨m, r₀, rest, htoClient, hfresh, hroom, hsource, rfl | ⟨hholds, rfl⟩⟩ := h.messages
  · have hnext := hsource.pollReceiver hdeadline
    rcases hnext.result with hr | hr
    · rw [Client.poll_awaiting h.state hr (hp2 hr)]
      refine .inl { h with
        receiver := hnext.receiver_config
        messages := ⟨m, _, rest, htoClient, fun hm => ?_, hroom.imp_right fun hf => ?_, hnext,
          .inl rfl⟩ }
      · rw [(hfresh hm).poll now]
        exact hfresh hm
      · rw [hf.poll now]
        exact hf
    · obtain ⟨hholds, hlistening, rfl, htoServer⟩ := hsource.received (Receiver.poll_ok hr)
      have hm : m = 0 := by
        by_contra hm
        exact absurd ((hfresh hm).result.symm.trans hholds.result) (by decide)
      subst hm
      have hsession := Client.poll_final_session h.state hholds.state hholds.result
        hholds.payload (h.service ▸ h.final) h.service now
      obtain ⟨client, k, heq, hstate, hconfig, hreceiver, _⟩ :=
        Client.poll_final h.state hholds.state hholds.result hholds.payload
          (h.service ▸ h.final) now
      rw [heq] at hsession ⊢
      rw [htoServer, h.client, List.nil_append]
      exact .inr {
        client := by rw [hconfig]; exact h.client
        receiver := by rw [hreceiver]; exact h.receiver
        server := h.server
        agreed := hsession.trans h.told.symm
        listening := hlistening
        outgoing := by
          rw [htoClient]
          exact .rest (decide_eq_false (by rw [hstate]; decide))
            ((Backlog.nil h.fresh).keepalives k) }
  · rw [Client.poll_pending h.state hholds.state hholds.result hholds.payload hpatient]
    exact .inl { h with
      messages := ⟨m, _, rest, htoClient, hfresh, hroom, by rw [List.append_nil]; exact hsource,
        .inl rfl⟩ }

theorem pollServer (h : Replying c d P F x) (hin : x.server.InTime now) :
    Replying c d P F { x with
      server := (x.server.poll now).1, toClient := x.toClient ++ (x.server.poll now).2 } := by
  obtain ⟨m, r₀, rest, htoClient, hfresh, hroom, hsource, hreceiver⟩ := h.messages
  have hF : F ≠ [] := List.ne_nil_of_length_pos h.final.length_pos
  obtain ⟨n, rest', heq, hn, hnext, htransport, hserver⟩ :=
    hsource.poll h.joined hF h.bounded h.server h.fresh hin
  obtain ⟨_, _, hd⟩ := x.server.poll_toDiagnostics now
  refine { h with
    server := htransport
    told := by rw [← h.told, hd]
    fresh := hserver
    messages := ⟨m + n, r₀, rest', ?_, fun hmn => ?_, hroom, hnext, hreceiver⟩ }
  · rw [htoClient, List.append_assoc, heq, ← List.append_assoc, List.replicate_append_replicate]
  · rcases Nat.eq_zero_or_pos m with rfl | hm
    · exact hn (by omega)
    · exact hfresh (by omega)

theorem deliverToServer (h : Replying c d P F x) (hq : x.toServer = f :: fs)
    (hstep : x.step (.deliverToServer now) = some y) : Replying c d P F y := by
  obtain ⟨m, r₀, rest, htoClient, hfresh, hroom, hsource, hreceiver⟩ := h.messages
  obtain ⟨server, hserver, rfl⟩ := deliverToServer_cons hq hstep
  rw [hq] at hsource
  obtain ⟨heq, _, hnext⟩ := hsource.deliverToServer now h.joined
  obtain rfl := Option.some.inj (hserver.symm.trans heq)
  exact { h with messages := ⟨m, r₀, rest, htoClient, hfresh, hroom, hnext, hreceiver⟩ }

/-- A server that has sent a frame of its answer has nothing deferred, and is done or sends. -/
theorem source_final {service : Byte} {r₀ : Receiver} {rest : List FdFrame} {s : UdsServer}
    {toServer : List FdFrame} (h : Source c d service F s r₀ (f :: rest) toServer) :
    Transfer d c F s.sender r₀ (f :: rest) toServer ∧
      (s.sending = true ↔ s.sender.result = .inProgress) ∧ s.deferredResponse = [] := by
  cases h with
  | final transfer sending deferred => exact ⟨transfer, sending, deferred⟩

/-- **A frame reaches the client:** a `0x78`, a frame of the final answer, or the first
frame of one that the client is about to refuse.  Behind an unread `0x78` it is lost. -/
theorem deliverToClient (h : Replying c d P F x) (hq : x.toClient = f :: fs) :
    SessionPhase c d { x with client := x.client.onFrame f now, toClient := fs } := by
  have hj := h.joined
  obtain ⟨m, r₀, rest, htoClient, hfresh, hroom, hsource, hreceiver⟩ := h.messages
  rw [Client.onFrame, if_neg (by rw [h.state]; decide), if_pos h.state]
  cases m with
  | succ m =>
    rw [List.replicate_succ, List.cons_append, hq] at htoClient
    obtain ⟨rfl, rfl⟩ := List.cons.inj htoClient
    have hf := hfresh (Nat.succ_ne_zero m)
    rcases hreceiver with rfl | ⟨hholds, rfl⟩
    · have hholds := hf.single hj.mirrored.symm
        (show 1 ≤ (pendingResponse (P.getD 0 0)).length from Nat.succ_le_succ (Nat.zero_le _))
        (pendingResponse_short d.address _) now
      exact .replying P F { h with
        receiver := hholds.config
        messages := ⟨m, _, rest, rfl, fun _ => hholds.reset, .inr hholds.reset,
          hsource.of_fresh hf hholds.reset, .inr ⟨hholds, rfl⟩⟩ }
    · rw [Receiver.onFrame_finished hholds.state]
      exact .replying P F { h with
        messages := ⟨m, _, rest, rfl, fun _ => hf, hroom, hsource, .inr ⟨hholds, rfl⟩⟩ }
  | zero =>
    rw [List.replicate_zero, List.nil_append, hq] at htoClient
    subst htoClient
    obtain ⟨htransfer, hsending, hdeferred⟩ := source_final hsource
    rcases hreceiver with rfl | ⟨hholds, rfl⟩
    · by_cases hlong : HasRoom d c F
      · have hnext := hsource.deliverToClient now hj h.final.length_pos hlong h.bounded
        exact .replying P F { h with
          receiver := hnext.receiver_config
          messages := ⟨0, _, fs, rfl, fun h => absurd rfl h, .inl hlong, hnext, .inl rfl⟩ }
      · obtain ⟨hlen, hmax⟩ := Classical.not_imp.1 hlong
        obtain ⟨rfl, hforth, hwaiting, hsender, hrefusing⟩ := htransfer.refuse now
          hj.mirrored.symm hlen (Nat.lt_of_not_le hmax) h.bounded (hroom.resolve_left hlong)
        have hh := d.address.headerSize_le
        have hcontrol : P.getD 0 0 ≠ Service.diagnosticSessionControl.toByte := fun hservice => by
          have := h.short hservice
          omega
        exact .rejecting {
          client := h.client
          receiver := hrefusing.config
          server := h.server
          agreed := (h.told.trans (if_neg fun hand => hcontrol hand.1)).symm
          state := h.state
          refusing := hrefusing
          sending := hsending.2 hwaiting.result
          deferred := hdeferred
          waiting := hwaiting
          sender := hsender
          fresh := h.fresh
          forth := hforth
          back := rfl }
    · obtain ⟨rfl, hforth, hdone⟩ := htransfer.lose hholds.reset
      rw [Receiver.onFrame_finished hholds.state]
      refine .abandoned {
        stranded := .inr ⟨h.state, .inr ⟨_, hholds⟩⟩
        mute := ⟨h.fresh, ?_⟩
        forth := hforth
        back := rfl }
      by_cases hs : x.server.sending = true
      · exact .inl ⟨hs, hdeferred, hdone.imp_left fun hok => by rw [hok]; decide⟩
      · exact .inr ⟨eq_false_of_ne_true hs, .inl hdeferred⟩

end Replying

namespace Rejecting

/-- **A poll of the client**, which refuses the answer once its overflow is due. -/
theorem pollClient (h : Rejecting c d x) (hin : x.client.OnTime now) :
    SessionPhase c d { x with
      client := (x.client.poll now).1, toServer := x.toServer ++ (x.client.poll now).2 } := by
  rcases h.refusing.poll now with heq | heq
  · have hr : (x.client.receiver.poll now).1.result = .inProgress := by
      rw [heq]
      exact h.refusing.result
    rw [Client.poll_awaiting h.state hr ((hin.2 h.state).2 hr), heq]
    exact .rejecting { h with forth := by rw [h.forth, List.append_nil] }
  · obtain ⟨failure, hpoll⟩ := Client.poll_refused h.state (by rw [heq]; rfl)
    rw [hpoll, heq, h.forth]
    exact .aborting {
      client := h.client
      receiver := h.receiver
      server := h.server
      agreed := h.agreed
      sending := h.sending
      deferred := h.deferred
      fresh := h.fresh
      back := h.back
      messages := ⟨[], .rest rfl (.nil h.fresh), .inl ⟨h.waiting, h.sender, rfl⟩⟩ }

theorem pollServer (h : Rejecting c d x) (hin : x.server.InTime now) : Rejecting c d { x with
    server := (x.server.poll now).1, toClient := x.toClient ++ (x.server.poll now).2 } := by
  have hpoll := h.waiting.poll (hin.1 h.sending)
  rw [UdsServer.poll_sending h.sending (by rw [hpoll]; exact h.waiting.result), hpoll]
  exact { h with back := by rw [h.back, List.append_nil] }

end Rejecting

namespace Aborting

theorem request (h : Aborting c d x) (hr : x.client.request payload now = .ok client) :
    Aborting c d { x with client, asked := x.asked ++ [payload] } := by
  obtain ⟨_, _, hconfig, hsession, hreceiver, _⟩ := Client.request_cases hr
  obtain ⟨q, houtgoing, hcase⟩ := h.messages
  exact { h with
    client := (congrArg ClientConfig.transport hconfig).trans h.client
    receiver := hreceiver ▸ h.receiver
    agreed := hsession.trans h.agreed
    messages := ⟨q, houtgoing.request h.client h.receiver hr, hcase⟩ }

theorem pollClient (h : Aborting c d x) (hin : x.client.OnTime now) : Aborting c d { x with
    client := (x.client.poll now).1, toServer := x.toServer ++ (x.client.poll now).2 } := by
  obtain ⟨q, houtgoing, hcase⟩ := h.messages
  obtain ⟨houtgoing, hsession, hconfig, hreceiver⟩ :=
    houtgoing.pollClient h.client h.receiver hin
  refine { h with
    client := (congrArg ClientConfig.transport hconfig).trans h.client
    receiver := hreceiver
    agreed := hsession.trans h.agreed
    messages := ⟨_, houtgoing, ?_⟩ }
  rcases hcase with ⟨hwaiting, hsender, hq⟩ | ⟨hdone, hq⟩
  · exact .inl ⟨hwaiting, hsender, by rw [hq]; rfl⟩
  · exact .inr ⟨hdone, by rw [hq]⟩

/-- **A poll of the server** behind the overflow makes it listen again. -/
theorem pollServer (h : Aborting c d x) (hin : x.server.InTime now) :
    SessionPhase c d { x with
      server := (x.server.poll now).1, toClient := x.toClient ++ (x.server.poll now).2 } := by
  obtain ⟨q, houtgoing, ⟨hwaiting, hsender, hq⟩ | ⟨hdone, hq⟩⟩ := h.messages
  · have hpoll := hwaiting.poll (hin.1 h.sending)
    rw [UdsServer.poll_sending h.sending (by rw [hpoll]; exact hwaiting.result), hpoll]
    exact .aborting { h with
      back := by rw [h.back, List.append_nil]
      messages := ⟨q, houtgoing, .inl ⟨hwaiting, hsender, hq⟩⟩ }
  · rw [UdsServer.poll_ended h.sending hdone, h.back, List.append_nil]
    exact .attentive {
      client := h.client
      receiver := h.receiver
      server := h.server
      agreed := h.agreed
      listening := ⟨rfl, h.deferred⟩
      outgoing := by rw [hq]; exact houtgoing.of_fresh h.fresh h.fresh.reset }

/-- **A frame reaches the server:** the overflow, or one that is lost. -/
theorem deliverToServer (hm : c.address.Mirrored d.address) (h : Aborting c d x)
    (hq : x.toServer = f :: fs) (hstep : x.step (.deliverToServer now) = some y) :
    SessionPhase c d y := by
  obtain ⟨server, hserver, rfl⟩ := deliverToServer_cons hq hstep
  rw [UdsServer.onFrame_sending h.sending] at hserver
  obtain rfl := Option.some.inj hserver
  obtain ⟨q, houtgoing, ⟨hwaiting, hsender, hforth⟩ | ⟨hdone, hforth⟩⟩ := h.messages
  · obtain ⟨rfl, rfl⟩ := List.cons.inj (hq.symm.trans hforth)
    rw [Sender.onFrame_overflow hwaiting (hsender ▸ hm)]
    exact .aborting { h with
      messages := ⟨fs, houtgoing, .inr ⟨show ¬ TransferResult.bufferOverflow = .inProgress by
        decide, rfl⟩⟩ }
  · rw [Sender.onFrame_of_ne hdone]
    rw [← hforth, hq] at houtgoing
    rcases houtgoing.drop h.fresh with hnext | ⟨rfl, hstranded⟩
    · exact .aborting { h with messages := ⟨fs, hnext, .inr ⟨hdone, rfl⟩⟩ }
    · exact .abandoned {
        stranded := hstranded
        mute := ⟨h.fresh, .inl ⟨h.sending, h.deferred, .inl hdone⟩⟩
        forth := rfl
        back := h.back }

end Aborting

namespace Deafened

theorem request (h : Deafened c d x) (hr : x.client.request payload now = .ok client) :
    Deafened c d { x with client, asked := x.asked ++ [payload] } := by
  obtain ⟨_, _, _, hsession, hreceiver, _⟩ := Client.request_cases hr
  exact { h with
    agreed := hsession.trans h.agreed
    receiver := hreceiver ▸ h.receiver.reset
    unread := by simp only [hreceiver]; simp [Receiver.reset] }

theorem pollClient (h : Deafened c d x) (now : ℕ) : Deafened c d { x with
    client := (x.client.poll now).1, toServer := x.toServer ++ (x.client.poll now).2 } := by
  obtain ⟨hsession, hreceiver⟩ := Client.poll_unread now h.unread
  refine { h with
    agreed := hsession.trans h.agreed
    receiver := ?_
    unread := ?_ }
  · rcases hreceiver with heq | heq
    · exact heq ▸ h.receiver
    · exact heq ▸ h.receiver.poll now
  · rcases hreceiver with heq | heq
    · exact heq ▸ h.unread
    · exact fun hok => h.unread (Receiver.poll_ok (heq ▸ hok))

theorem pollServer (h : Deafened c d x) (now : ℕ) : Deafened c d { x with
    server := (x.server.poll now).1, toClient := x.toClient ++ (x.server.poll now).2 } := by
  obtain ⟨hdeaf, hout⟩ := h.deaf.poll now
  rw [UdsServer.poll_listening h.listening]
  exact { h with
    listening := ⟨h.listening.sending, h.listening.deferredResponse⟩
    deaf := hdeaf
    back := fun f hf => (List.mem_append.1 hf).elim (h.back f) (hout f) }

theorem deliverToServer (h : Deafened c d x) (hq : x.toServer = f :: fs)
    (hstep : x.step (.deliverToServer now) = some y) : Deafened c d y := by
  obtain ⟨server, hserver, rfl⟩ := deliverToServer_cons hq hstep
  have hdeaf := h.deaf.onFrame f now
  have hm : ¬ (x.server.receiver.onFrame f now).hasMessage = true := fun hm =>
    hdeaf.result (of_decide_eq_true hm)
  rw [UdsServer.onFrame, if_neg (by rw [h.listening.sending]; decide)] at hserver
  simp only [if_neg hm] at hserver
  obtain rfl := Option.some.inj hserver
  exact { h with
    listening := ⟨h.listening.sending, h.listening.deferredResponse⟩
    deaf := hdeaf }

/-- **An overflow reaches the client**, which reads no message. -/
theorem deliverToClient (hm : c.address.Mirrored d.address) (h : Deafened c d x)
    (hq : x.toClient = f :: fs) :
    Deafened c d { x with client := x.client.onFrame f now, toClient := fs } := by
  have hback : ∀ g ∈ fs, g = makeFlowControl d .overflow := fun g hg =>
    h.back g (by rw [hq]; exact List.mem_cons_of_mem f hg)
  have hf := h.back f (by rw [hq]; exact List.mem_cons_self)
  rw [Client.onFrame]
  split_ifs
  · exact { h with back := hback }
  · refine { h with
      receiver := h.receiver.onFrame f now
      unread := ?_
      back := hback }
    rw [hf]
    exact Receiver.onFrame_flowControl h.unread (h.receiver.config.symm ▸ hm.symm)
  · exact { h with back := hback }

end Deafened

namespace Abandoned

theorem busy (h : Abandoned c d x) : x.client.busy = true :=
  decide_eq_true (h.stranded.imp And.left And.left)

theorem pollClient (h : Abandoned c d x) (hin : x.client.OnTime now)
    (hpatient : ¬ x.client.OutOfPatience) : Abandoned c d { x with
      client := (x.client.poll now).1, toServer := x.toServer ++ (x.client.poll now).2 } := by
  rcases h.stranded with ⟨hs, hwaiting⟩ | ⟨hs, hfresh | ⟨service, hholds⟩⟩
  · have hpoll := hwaiting.poll (hin.1 hs).1
    rw [Client.poll_sending hs (by rw [hpoll]; exact hwaiting.result), hpoll, List.append_nil]
    exact { h with stranded := .inl ⟨hs, hwaiting⟩ }
  · have hpoll := hfresh.poll now
    have hr : (x.client.receiver.poll now).1.result = .inProgress := by
      rw [hpoll]
      exact hfresh.result
    rw [Client.poll_awaiting hs hr ((hin.2 hs).2 hr), hpoll, List.append_nil]
    exact { h with stranded := .inr ⟨hs, .inl hfresh⟩ }
  · rw [Client.poll_pending hs hholds.state hholds.result hholds.payload hpatient,
      List.append_nil]
    exact { h with stranded := .inr ⟨hs, .inl hholds.reset⟩ }

theorem pollServer (h : Abandoned c d x) (hin : x.server.InTime now) : Abandoned c d { x with
    server := (x.server.poll now).1, toClient := x.toClient ++ (x.server.poll now).2 } := by
  obtain ⟨hmute, hout⟩ := h.mute.poll hin
  exact { h with
    mute := hmute
    back := by rw [hout, List.append_nil]; exact h.back }

end Abandoned

end Sim
end Canforge
