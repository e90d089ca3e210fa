/-
# What a client has sent

On their way to the server are the messages of requests that ask for no answer, whose
senders are done (`Backlog`: such a request is over for the client once it is sent, and
a keepalive at once), and behind them at most one request the client is busy with
(`Ask`).  Together they are `Outgoing`, and every event at one of the two ends keeps it:
a request, a poll of the client, a poll of the receiver of the server, a flow control at
the client.  A frame at the receiver completes nothing, a request for no answer, or the
request the client waits for, which is then the last of them
(`Outgoing.deliver`).  A server that is not listening loses frames; once it loses one of
the request, the client is `Stranded`.
-/

import Canforge.IsoTp.Refusal
import Canforge.Sim.Delivery
import Canforge.Uds.Session

namespace Canforge
namespace Sim

open Canforge.Core IsoTp Lib Uds

/-- The server can take a message of which there is more than one frame. -/
def HasRoom (c d : Config) (P : List Byte) : Prop :=
  7 - c.address.headerSize < P.length → P.length ≤ d.maxReceiveLength

/-- Messages that ask for no answer, from senders that are done with them. -/
inductive Backlog (c d : Config) : Receiver → List FdFrame → Prop
  | nil {r : Receiver} (fresh : Fresh d r) : Backlog c d r []
  | message {P : List Byte} {s : Sender} {r : Receiver} {rest more : List FdFrame}
      (suppressed : suppresses P = true) (bounded : P.length < 2 ^ 32) (room : HasRoom c d P)
      (transfer : Transfer c d P s r rest []) (sent : s.result = .ok)
      (unread : r.result = .inProgress) (behind : Backlog c d r.reset more) :
      Backlog c d r (rest ++ more)

variable {c d : Config} {P : List Byte} {s : Sender} {r r' r₀ : Receiver} {f : FdFrame}
  {q q' rest toClient : List FdFrame} {client client' : Client} {now : ℕ}

theorem ne_nil_of_suppresses (h : suppresses P = true) : P ≠ [] := by
  rintro rfl
  cases h

/-- A message that is the last of its kind. -/
theorem Backlog.last (suppressed : suppresses P = true) (bounded : P.length < 2 ^ 32)
    (room : HasRoom c d P) (transfer : Transfer c d P s r rest []) (sent : s.result = .ok)
    (unread : r.result = .inProgress) : Backlog c d r rest := by
  have h := Backlog.message suppressed bounded room transfer sent unread
    (.nil ⟨transfer.receiver_config, rfl, rfl⟩)
  rwa [List.append_nil] at h

namespace Backlog

theorem of_fresh (h : Backlog c d r q) (hr : Fresh d r) (hr' : Fresh d r') :
    Backlog c d r' q := by
  induction h generalizing r' with
  | nil => exact .nil hr'
  | message suppressed bounded room transfer sent unread behind ih =>
    exact .message suppressed bounded room (transfer.of_fresh hr hr') sent hr'.result
      (ih hr.reset hr'.reset)

theorem unread (h : Backlog c d r q) : r.result = .inProgress := by
  cases h with
  | nil fresh => exact fresh.result
  | message suppressed bounded room transfer sent unread behind => exact unread

/-- Behind the backlog the receiver has seen nothing. -/
theorem fresh (h : Backlog c d r []) : Fresh d r := by
  generalize hq : ([] : List FdFrame) = p at h
  cases h with
  | nil fresh => exact fresh
  | message suppressed bounded room transfer sent unread behind =>
    obtain ⟨rfl, _⟩ := List.append_eq_nil_iff.1 hq.symm
    exact absurd (((transfer.of_sent sent).2 rfl).symm.trans unread) (by decide)

theorem append (h : Backlog c d r q) (h' : Backlog c d r₀ q') (h₀ : Fresh d r₀) :
    Backlog c d r (q ++ q') := by
  induction h with
  | nil fresh => exact h'.of_fresh h₀ fresh
  | message suppressed bounded room transfer sent unread behind ih =>
    rw [List.append_assoc]
    exact .message suppressed bounded room transfer sent unread ih

/-- **A poll of the receiver** returns nothing. -/
theorem pollReceiver (hin : r.state = .receiving → now < r.deadlineNs) (h : Backlog c d r q) :
    Backlog c d (r.poll now).1 q ∧ (r.poll now).2 = [] := by
  cases h with
  | nil fresh =>
    rw [fresh.poll now]
    exact ⟨.nil fresh, rfl⟩
  | message suppressed bounded room transfer sent unread behind =>
    have hnext := transfer.pollReceiver hin
    obtain ⟨hout, _⟩ := hnext.of_sent sent
    rw [hout] at hnext
    have hunread : (r.poll now).1.result = .inProgress := hnext.results.2.resolve_right fun hr =>
      absurd ((Receiver.poll_ok hr).symm.trans unread) (by decide)
    exact ⟨.message suppressed bounded room hnext sent hunread
      (behind.of_fresh ⟨transfer.receiver_config, rfl, rfl⟩ ⟨hnext.receiver_config, rfl, rfl⟩),
      (List.append_eq_nil_iff.1 hout).2⟩

/-- **The next frame** completes nothing, or a request for no answer. -/
theorem deliver (now : ℕ) (hm : c.address.Mirrored d.address) (h : Backlog c d r (f :: q)) :
    ((r.onFrame f now).result = .inProgress ∧ Backlog c d (r.onFrame f now) q) ∨
      ((r.onFrame f now).result = .ok ∧ suppresses (r.onFrame f now).payload = true ∧
        Backlog c d (r.onFrame f now).reset q) := by
  generalize hq : f :: q = p at h
  cases h with
  | nil => cases hq
  | @message P s _ rest more suppressed bounded room transfer sent unread behind =>
    cases rest with
    | nil => exact absurd (((transfer.of_sent sent).2 rfl).symm.trans unread) (by decide)
    | cons g rest =>
      obtain ⟨rfl, rfl⟩ := List.cons.inj hq
      have hnext := transfer.deliver now hm (List.length_pos_of_ne_nil
        (ne_nil_of_suppresses suppressed)) room bounded
      have hbehind := behind.of_fresh ⟨transfer.receiver_config, rfl, rfl⟩
        (show Fresh d (r.onFrame f now).reset from ⟨hnext.receiver_config, rfl, rfl⟩)
      rcases hnext.results.2 with hr | hr
      · exact .inl ⟨hr, .message suppressed bounded room hnext sent hr hbehind⟩
      · obtain ⟨_, hholds, rfl, _⟩ := hnext.of_received hr
        exact .inr ⟨hr, hholds.payload ▸ suppressed, hbehind⟩

/-- A frame that is lost before a fresh receiver takes its message with it. -/
theorem drop (hr : Fresh d r) (h : Backlog c d r (f :: q)) : Backlog c d r q := by
  generalize hq : f :: q = p at h
  cases h with
  | nil => cases hq
  | @message P s _ rest more suppressed bounded room transfer sent unread behind =>
    cases rest with
    | nil => exact absurd (((transfer.of_sent sent).2 rfl).symm.trans unread) (by decide)
    | cons g rest =>
      obtain ⟨rfl, rfl⟩ := List.cons.inj hq
      obtain ⟨rfl, _⟩ := transfer.lose hr
      exact behind.of_fresh hr.reset hr

/-- The keepalive joins it. -/
theorem keepalive (h : Backlog c d r q) : Backlog c d r (q ++ [keepaliveFrame c]) := by
  have hfresh : Fresh d { config := d } := ⟨rfl, rfl, rfl⟩
  have hshort := keepalivePayload_short c.address
  have htransfer : Transfer c d Client.keepalivePayload { config := c, result := .ok }
      { config := d } [keepaliveFrame c] [] := .single rfl hshort hfresh
  exact h.append (.last (by decide) (by decide) (fun h => absurd hshort (Nat.not_le.2 h))
    htransfer rfl rfl) hfresh

theorem keepalives (h : Backlog c d r []) (k : ℕ) :
    Backlog c d r (List.replicate k (keepaliveFrame c)) := by
  induction k with
  | zero => exact h
  | succ k ih =>
    rw [List.replicate_succ']
    exact ih.keepalive

end Backlog

/-- The request a client is busy with. -/
structure Ask (c : Config) (P : List Byte) (client : Client) : Prop where
  valid : c.validate = .ok ()
  service : client.requestedService = P.getD 0 0
  expect : client.expectResponse = !suppresses P
  nonempty : P ≠ []
  bounded : P.length < 2 ^ 32
  state : (client.state = .sending ∧ client.sender.result = .inProgress) ∨
    (client.state = .awaitingResponse ∧ client.sender.result = .ok ∧ suppresses P = false)
  idle : Fresh c client.receiver

/-- A client that only a frame can bring on. -/
def Stranded (c : Config) (client : Client) : Prop :=
  (client.state = .sending ∧ Waiting client.sender) ∨
    (client.state = .awaitingResponse ∧ (Fresh c client.receiver ∨
      ∃ service, Holds c (pendingResponse service) client.receiver))

/-- What is on its way from a client to a receiver and, as flow controls, back. -/
inductive Outgoing (c d : Config) (client : Client) (r : Receiver) :
    List FdFrame → List FdFrame → Prop
  | rest {q : List FdFrame} (idle : client.busy = false) (backlog : Backlog c d r q) :
      Outgoing c d client r q []
  | ask {P : List Byte} {q rest toClient : List FdFrame} {r₀ : Receiver} (ask : Ask c P client)
      (transfer : Transfer c d P client.sender r₀ rest toClient)
      (room : HasRoom c d P ∨ Fresh d r₀) (unread : r₀.result = .inProgress)
      (route : (q = [] ∧ r₀ = r) ∨ (Backlog c d r q ∧ Fresh d r₀)) :
      Outgoing c d client r (q ++ rest) toClient

theorem Ask.busy (h : Ask c P client) : client.busy = true :=
  decide_eq_true (h.state.imp And.left And.left)

namespace Outgoing

/-- **A request** begins behind the backlog, or fails at once. -/
theorem request (hc : client.config.transport = c) (hr : client.receiver.config = c)
    (h : Outgoing c d client r q toClient) (hrequest : client.request P now = .ok client') :
    Outgoing c d client' r q toClient := by
  obtain ⟨hbusy, hne, _, _, hreceiver, hcase⟩ := Client.request_cases hrequest
  cases h with
  | ask ask => exact absurd (ask.busy.symm.trans hbusy) (by decide)
  | rest idle backlog =>
    rcases hcase with hfailed | ⟨hstate, hexpect, hservice, hbegin⟩
    · exact .rest (decide_eq_false (by rw [hfailed]; decide)) backlog
    · rw [hc] at hbegin
      obtain ⟨_, hvalid, hlen, hconfig, hpayload, hresult, hst⟩ := Sender.begin_spec hbegin
      have hfresh : Fresh d { config := d } := ⟨rfl, rfl, rfl⟩
      have hask : Ask c P client' :=
        { valid := hvalid
          service := hservice
          expect := hexpect
          nonempty := hne
          bounded := hlen
          state := .inl ⟨hstate, hresult⟩
          idle := hreceiver ▸ ⟨hr, rfl, rfl⟩ }
      have h : Outgoing c d client' r (q ++ []) [] :=
        .ask hask (.start hconfig hpayload hresult hst hfresh) (.inr hfresh) rfl
          (.inr ⟨backlog, hfresh⟩)
      rwa [List.append_nil] at h

/-- **A poll of the client** sends on, ends the request for no answer, waits, or sends
the keepalive. -/
theorem pollClient (hc : client.config.transport = c) (hr : client.receiver.config = c)
    (hin : client.OnTime now) (h : Outgoing c d client r q toClient) :
    Outgoing c d (client.poll now).1 r (q ++ (client.poll now).2) toClient ∧
      (client.poll now).1.session = client.session ∧
      (client.poll now).1.config = client.config ∧ (client.poll now).1.receiver.config = c := by
  cases h with
  | rest idle backlog =>
    rw [Client.poll_rest idle]
    obtain ⟨hsession, hreceiver, hconfig⟩ := client.keepalive_session [] now
    refine ⟨?_, hsession, hconfig, hreceiver ▸ hr⟩
    rcases client.keepalive_cases [] now with heq | ⟨hcomplete, _, _, heq⟩
    · rw [heq, List.append_nil]
      exact .rest idle backlog
    · rw [heq, hc, List.nil_append]
      exact .rest (decide_eq_false (by rw [hcomplete]; decide)) backlog.keepalive
  | @ask P q rest toClient r₀ ask transfer room unread route =>
    rcases ask.state with ⟨hs, hsender⟩ | ⟨hs, hsender, hsup⟩
    · obtain ⟨hdeadline, hp2⟩ := hin.1 hs
      have transfer := transfer.pollSender hdeadline
      rw [List.append_assoc]
      rcases transfer.results.1 with hres | hres
      · rw [Client.poll_sending hs hres]
        have hask : Ask c P { client with sender := (client.sender.poll now).1 } :=
          { ask with state := .inl ⟨hs, hres⟩ }
        exact ⟨.ask hask transfer room unread route, rfl, rfl, hr⟩
      · by_cases hsup : suppresses P = true
        · obtain ⟨response, heq⟩ :=
            Client.poll_suppressed hs (ask.expect.trans (by rw [hsup]; rfl)) hres
          rw [heq]
          obtain ⟨rfl, _⟩ := transfer.of_sent hres
          have hroom : HasRoom c d P := room.elim id fun hfresh hlong =>
            absurd (transfer.short_of_sent hfresh hres) (Nat.not_le.2 hlong)
          have hlast := Backlog.last hsup ask.bounded hroom transfer hres unread
          refine ⟨.rest (decide_eq_false (by simp)) ?_, rfl, rfl, hr⟩
          rcases route with ⟨rfl, rfl⟩ | ⟨backlog, hfresh⟩
          · exact hlast
          · exact backlog.append hlast hfresh
        · have hsup := eq_false_of_ne_true hsup
          have hexpect : client.expectResponse = true := ask.expect.trans (by rw [hsup]; rfl)
          rw [Client.poll_sent hs hexpect hres ask.idle.state ask.idle.result (hp2 hexpect hres)]
          have hask : Ask c P { client with
              sender := (client.sender.poll now).1, state := .awaitingResponse,
              deadlineNs := addNs now client.config.p2Ns } :=
            { ask with state := .inr ⟨rfl, hres, hsup⟩ }
          exact ⟨.ask hask transfer room unread route, rfl, rfl, hr⟩
    · have hpoll := ask.idle.poll now
      have hp2 := (hin.2 hs).2 (by rw [hpoll]; exact ask.idle.result)
      rw [Client.poll_awaiting hs (by rw [hpoll]; exact ask.idle.result) hp2, hpoll,
        List.append_nil]
      exact ⟨.ask { ask with } transfer room unread route, rfl, rfl, hr⟩

/-- **A poll of the receiver** may return a flow control for the request. -/
theorem pollReceiver (hin : r.state = .receiving → now < r.deadlineNs)
    (h : Outgoing c d client r q toClient) :
    Outgoing c d client (r.poll now).1 q (toClient ++ (r.poll now).2) := by
  cases h with
  | rest idle backlog =>
    obtain ⟨hnext, hout⟩ := backlog.pollReceiver hin
    rw [hout]
    exact .rest idle hnext
  | ask ask transfer room unread route =>
    rcases route with ⟨rfl, rfl⟩ | ⟨backlog, hfresh⟩
    · have hnext := transfer.pollReceiver hin
      refine .ask ask hnext (room.imp_right fun hf => ?_) ?_ (.inl ⟨rfl, rfl⟩)
      · rw [hf.poll now]
        exact hf
      · exact hnext.results.2.resolve_right fun hr =>
          absurd ((Receiver.poll_ok hr).symm.trans unread) (by decide)
    · obtain ⟨hnext, hout⟩ := backlog.pollReceiver hin
      rw [hout, List.append_nil]
      exact .ask ask transfer room unread (.inr ⟨hnext, hfresh⟩)

/-- **A frame at the client** is a flow control for the request. -/
theorem deliverToClient (now : ℕ) (hm : c.address.Mirrored d.address)
    (h : Outgoing c d client r q (f :: toClient)) :
    Outgoing c d (client.onFrame f now) r q toClient ∧
      (client.onFrame f now).session = client.session ∧
      (client.onFrame f now).config = client.config ∧
      (client.onFrame f now).receiver = client.receiver := by
  cases h with
  | ask ask transfer room unread route =>
    rcases ask.state with ⟨hs, hsender⟩ | ⟨hs, hsender, _⟩
    · have transfer := transfer.deliverFlowControl now hm
      have hres := transfer.results.1.resolve_right fun hr' =>
        absurd ((Sender.onFrame_ok hr').symm.trans hsender) (by decide)
      rw [Client.onFrame, if_pos hs]
      exact ⟨.ask { ask with state := .inl ⟨hs, hres⟩ } transfer room unread route, rfl, rfl, rfl⟩
    · exact absurd (transfer.of_sent hsender).1 (List.cons_ne_nil _ _)

/-- **A frame at the receiver** completes nothing, a request for no answer, or the
request the client waits for, or it is the first of one that the receiver refuses. -/
theorem deliver (now : ℕ) (hm : c.address.Mirrored d.address)
    (h : Outgoing c d client r (f :: q) toClient) :
    ((r.onFrame f now).result = .inProgress ∧
        Outgoing c d client (r.onFrame f now) q toClient) ∨
      ((r.onFrame f now).result = .ok ∧ suppresses (r.onFrame f now).payload = true ∧
        Outgoing c d client (r.onFrame f now).reset q toClient) ∨
      (∃ P, Holds d P (r.onFrame f now) ∧ Ask c P client ∧ client.state = .awaitingResponse ∧
        suppresses P = false ∧ q = [] ∧ toClient = []) ∨
      (Refusing d (r.onFrame f now) ∧ Fresh c client.receiver ∧ toClient = []) := by
  generalize hq : f :: q = p at h
  cases h with
  | rest idle backlog =>
    subst hq
    rcases backlog.deliver now hm with ⟨hr, hnext⟩ | ⟨hr, hsup, hnext⟩
    · exact .inl ⟨hr, .rest idle hnext⟩
    · exact .inr (.inl ⟨hr, hsup, .rest idle hnext⟩)
  | @ask P q' rest toClient r₀ ask transfer room unread route =>
    cases q' with
    | cons g q' =>
      obtain ⟨rfl, rfl⟩ := List.cons.inj hq
      obtain ⟨backlog, hfresh⟩ := route.resolve_left fun h => List.cons_ne_nil _ _ h.1
      rcases backlog.deliver now hm with ⟨hr, hnext⟩ | ⟨hr, hsup, hnext⟩
      · exact .inl ⟨hr, .ask ask transfer room unread (.inr ⟨hnext, hfresh⟩)⟩
      · exact .inr (.inl ⟨hr, hsup, .ask ask transfer room unread (.inr ⟨hnext, hfresh⟩)⟩)
    | nil =>
      rw [List.nil_append] at hq
      subst hq
      -- the receiver has read the backlog, so the frame is one of the request
      obtain ⟨transfer, room, unread⟩ : Transfer c d P client.sender r (f :: q) toClient ∧
          (HasRoom c d P ∨ Fresh d r) ∧ r.result = .inProgress := by
        rcases route with ⟨_, rfl⟩ | ⟨backlog, hfresh⟩
        · exact ⟨transfer, room, unread⟩
        · have fresh := backlog.fresh
          exact ⟨transfer.of_fresh hfresh fresh, .inr fresh, fresh.result⟩
      by_cases hroom : HasRoom c d P
      · have hnext := transfer.deliver now hm (List.length_pos_of_ne_nil ask.nonempty) hroom
          ask.bounded
        rcases hnext.results.2 with hr | hr
        · exact .inl ⟨hr, .ask ask hnext (.inl hroom) hr (.inl ⟨rfl, rfl⟩)⟩
        · obtain ⟨hsent, hholds, hq, htoClient⟩ := hnext.of_received hr
          rcases ask.state with ⟨_, hsender⟩ | ⟨hs, _, hsup⟩
          · exact absurd (hsender.symm.trans hsent) (by decide)
          · exact .inr (.inr (.inl ⟨P, hholds, ask, hs, hsup, hq, htoClient⟩))
      · obtain ⟨hlong, hmax⟩ := Classical.not_imp.1 hroom
        obtain ⟨_, htoClient, _, _, hrefusing⟩ := transfer.refuse now hm hlong
          (Nat.lt_of_not_le hmax) ask.bounded (room.resolve_left hroom)
        exact .inr (.inr (.inr ⟨hrefusing, ask.idle, htoClient⟩))

/-- **A frame that is lost** before a fresh receiver strands the client with it, or it was
one of the backlog. -/
theorem drop (hr : Fresh d r) (h : Outgoing c d client r (f :: q) []) :
    Outgoing c d client r q [] ∨ (q = [] ∧ Stranded c client) := by
  generalize hq : f :: q = p at h
  generalize hnil : ([] : List FdFrame) = p' at h
  cases h with
  | rest idle backlog =>
    subst hq
    exact .inl (.rest idle (backlog.drop hr))
  | @ask P q' rest toClient r₀ ask transfer room unread route =>
    subst hnil
    cases q' with
    | cons g q' =>
      obtain ⟨rfl, rfl⟩ := List.cons.inj hq
      obtain ⟨backlog, hfresh⟩ := route.resolve_left fun h => List.cons_ne_nil _ _ h.1
      exact .inl (.ask ask transfer room unread (.inr ⟨backlog.drop hr, hfresh⟩))
    | nil =>
      rw [List.nil_append] at hq
      subst hq
      have hfresh : Fresh d r₀ := by
        rcases route with ⟨_, rfl⟩ | ⟨_, hfresh⟩
        · exact hr
        · exact hfresh
      obtain ⟨rfl, _, hdone⟩ := transfer.lose hfresh
      refine .inr ⟨rfl, ?_⟩
      rcases ask.state with ⟨hs, hsender⟩ | ⟨hs, _⟩
      · exact .inl ⟨hs, hdone.resolve_left fun h => absurd (h.symm.trans hsender) (by decide)⟩
      · exact .inr ⟨hs, .inl ask.idle⟩

theorem of_fresh (hr : Fresh d r) (hr' : Fresh d r') (h : Outgoing c d client r q toClient) :
    Outgoing c d client r' q toClient := by
  cases h with
  | rest idle backlog => exact .rest idle (backlog.of_fresh hr hr')
  | ask ask transfer room unread route =>
    rcases route with ⟨rfl, rfl⟩ | ⟨backlog, hfresh⟩
    · exact .ask ask (transfer.of_fresh hr hr') (.inr hr') hr'.result (.inl ⟨rfl, rfl⟩)
    · exact .ask ask transfer room unread (.inr ⟨backlog.of_fresh hr hr', hfresh⟩)

end Outgoing

end Sim
end Canforge
