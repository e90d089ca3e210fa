/-
# The final answer on its way

From the request on, the final answer is deferred behind the `0x78`s the server
sends, or it is in one of the phases of an ISO-TP transfer to the client
(`Source`).  A poll of the server or of the client's receiver and the frames in
flight keep it there (`Source.poll`, `Source.deliverToServer`,
`Source.deliverToClient`, `Source.pollReceiver`), a message in the client's receiver
is the final answer (`Source.received`), and behind a server with nothing left to do it has arrived
(`Source.arrived`).
-/

import Canforge.IsoTp.Link
import Canforge.Sim.Answering

namespace Canforge
namespace Sim

open Canforge.Core IsoTp Lib Uds

/-- Two valid transports with mirrored addresses. -/
structure Joined (c d : Config) : Prop where
  mirrored : c.address.Mirrored d.address
  client : c.validate = .ok ()
  server : d.validate = .ok ()

/-- The frame of a `0x78`. -/
def pendingFrame (d : Config) (service : Byte) : FdFrame :=
  singleFrame d (pendingResponse service)

variable {c d : Config} {P F : List Byte} {service : Byte} {s : UdsServer} {r r₀ : Receiver}
  {rest toServer : List FdFrame} {f : FdFrame} {now : ℕ}

theorem pendingResponse_short (a : Address) (service : Byte) :
    (pendingResponse service).length ≤ 7 - a.headerSize := by
  have := a.headerSize_le
  show 3 ≤ 7 - a.headerSize
  omega

theorem keepalivePayload_short (a : Address) :
    Client.keepalivePayload.length ≤ 7 - a.headerSize := by
  have := a.headerSize_le
  show 2 ≤ 7 - a.headerSize
  omega

/-- **Where the final answer `F` is:** being sent to the receiver `r₀`, or deferred
while a `0x78` is being sent or has been. -/
inductive Source (c d : Config) (service : Byte) (F : List Byte) (s : UdsServer) (r₀ : Receiver) :
    List FdFrame → List FdFrame → Prop
  | final {rest toServer : List FdFrame} (transfer : Transfer d c F s.sender r₀ rest toServer)
      (sending : s.sending = true ↔ s.sender.result = .inProgress)
      (deferred : s.deferredResponse = []) : Source c d service F s r₀ rest toServer
  | busy (sending : s.sending = true) (config : s.sender.config = d)
      (payload : s.sender.payload = pendingResponse service)
      (result : s.sender.result = .inProgress) (state : s.sender.state = .sendingSingle)
      (deferred : s.deferredResponse = F) (deferredService : s.deferredService = service)
      (fresh : Fresh c r₀) : Source c d service F s r₀ [] []
  | waiting (sending : s.sending = false) (deferred : s.deferredResponse = F)
      (deferredService : s.deferredService = service) (fresh : Fresh c r₀) :
      Source c d service F s r₀ [] []

namespace Source

/-- An answer whose sending begins. -/
theorem begin_final (hb : ({ config := d } : Sender).begin F now = .ok s.sender)
    (hs : s.sending = true) (hd : s.deferredResponse = []) (hr : Fresh c r₀) :
    Source c d service F s r₀ [] [] := by
  obtain ⟨_, _, _, hconfig, hpayload, hresult, hstate⟩ := Sender.begin_spec hb
  exact .final (.start hconfig hpayload hresult hstate hr) (iff_of_true hs hresult) hd

/-- A `0x78` whose sending begins. -/
theorem begin_busy (hb : ({ config := d } : Sender).begin (pendingResponse service) now =
    .ok s.sender) (hs : s.sending = true) (hd : s.deferredResponse = F)
    (hservice : s.deferredService = service) (hr : Fresh c r₀) :
    Source c d service F s r₀ [] [] := by
  obtain ⟨_, _, _, hconfig, hpayload, hresult, hstate⟩ := Sender.begin_spec hb
  rw [if_pos (pendingResponse_short d.address service)] at hstate
  exact .busy hs hconfig hpayload hresult hstate hd hservice hr

/-- The receiver may be any fresh one as long as it is fresh. -/
theorem of_fresh {r₁ : Receiver} (h : Source c d service F s r₀ rest toServer)
    (h₀ : Fresh c r₀) (h₁ : Fresh c r₁) : Source c d service F s r₁ rest toServer := by
  cases h with
  | final transfer sending deferred => exact .final (transfer.of_fresh h₀ h₁) sending deferred
  | busy sending config payload result state deferred deferredService fresh =>
    exact .busy sending config payload result state deferred deferredService h₁
  | waiting sending deferred deferredService fresh =>
    exact .waiting sending deferred deferredService h₁

/-- A trouble code does not matter to the answer. -/
theorem addDtc (h : Source c d service F s r₀ rest toServer) (dtc : Dtc) :
    Source c d service F (s.addDtc dtc) r₀ rest toServer := by
  cases h with
  | final transfer sending deferred => exact .final transfer sending deferred
  | busy sending config payload result state deferred deferredService fresh =>
    exact .busy sending config payload result state deferred deferredService fresh
  | waiting sending deferred deferredService fresh =>
    exact .waiting sending deferred deferredService fresh

/-- The poll of a server that sends the final answer. -/
theorem poll_final (s : UdsServer) (hd : s.config.transport = d) (hfresh : Fresh d s.receiver)
    (hs : s.sending = true) (hdef : s.deferredResponse = [])
    (hin : s.sender.state = .waitingFlowControl → now < s.sender.deadlineNs)
    (transfer : Transfer d c F s.sender r₀ rest toServer) :
    Source c d service F (s.poll now).1 r₀ (rest ++ (s.poll now).2) toServer ∧
      (s.poll now).1.config.transport = d ∧ Fresh d (s.poll now).1.receiver := by
  have transfer := transfer.pollSender hin
  rcases transfer.results.1 with hr | hr
  · rw [UdsServer.poll_sending hs hr]
    exact ⟨.final transfer (iff_of_true hs hr) hdef, hd, hfresh⟩
  · rw [UdsServer.poll_sent hs hr]
    exact ⟨.final transfer (iff_of_false (by simp) (by simp [hr])) hdef, hd, hfresh.reset⟩

/-- **A poll of the server**, which moves the final answer on or adds a `0x78`. -/
theorem poll (hj : Joined c d) (hF : F ≠ []) (h₃₂ : F.length < 2 ^ 32)
    (hd : s.config.transport = d) (hfresh : Fresh d s.receiver) (hin : s.InTime now)
    (h : Source c d service F s r₀ rest toServer) :
    ∃ n rest', rest ++ (s.poll now).2 = List.replicate n (pendingFrame d service) ++ rest' ∧
      (n ≠ 0 → Fresh c r₀) ∧ Source c d service F (s.poll now).1 r₀ rest' toServer ∧
      (s.poll now).1.config.transport = d ∧ Fresh d (s.poll now).1.receiver := by
  cases h with
  | final transfer sending deferred =>
    by_cases hs : s.sending = true
    · exact ⟨0, _, rfl, fun h => absurd rfl h,
        poll_final s hd hfresh hs deferred (hin.1 hs) transfer⟩
    · have hs := eq_false_of_ne_true hs
      rw [UdsServer.poll_listening ⟨hs, deferred⟩, hfresh.poll now, List.append_nil]
      exact ⟨0, rest, rfl, fun h => absurd rfl h, .final transfer sending deferred, hd, hfresh⟩
  | busy sending config payload result state deferred deferredService fresh =>
    have hpoll := @Sender.poll_single s.sender now result state
    rw [UdsServer.poll_sent sending (by rw [hpoll]), hpoll, config, payload]
    exact ⟨1, [], rfl, fun _ => fresh, .waiting rfl deferred deferredService fresh, hd,
      hfresh.reset⟩
  | waiting sending deferred deferredService fresh =>
    have hdef : s.deferredResponse ≠ [] := by rw [deferred]; exact hF
    rcases Nat.lt_or_ge now s.deferredUntilNs with hearly | hdue
    · by_cases hp : 0 < s.pendingLeft
      · obtain ⟨sender, pendingLeft, hb, heq⟩ :=
          UdsServer.poll_busy sending hdef hearly hp (hd ▸ hj.server)
        rw [heq]
        rw [hd, deferredService] at hb
        exact ⟨0, [], rfl, fun h => absurd rfl h, .begin_busy hb rfl deferred deferredService fresh,
          hd, hfresh⟩
      · rw [UdsServer.poll_deferred sending hearly hp, hfresh.poll now]
        exact ⟨0, [], rfl, fun h => absurd rfl h, .waiting sending deferred deferredService fresh,
          hd, hfresh⟩
    · obtain ⟨sender, hb, heq⟩ :=
        UdsServer.poll_due sending hdef hdue (hd ▸ hj.server) (deferred ▸ h₃₂)
      rw [hd, deferred] at hb
      obtain ⟨_, _, _, hconfig, hpayload, hresult, hstate⟩ := Sender.begin_spec hb
      have hstart : sender.state ≠ .waitingFlowControl := by
        rw [hstate]
        split_ifs <;> decide
      rw [heq]
      exact ⟨0, _, rfl, fun h => absurd rfl h,
        poll_final { s with sender, sending := true, deferredResponse := [] } hd hfresh rfl rfl
          (fun h => absurd h hstart) (.start hconfig hpayload hresult hstate fresh)⟩

/-- **A frame reaches the server**, which is a flow control for its answer. -/
theorem deliverToServer (now : ℕ) (hj : Joined c d)
    (h : Source c d service F s r₀ rest (f :: toServer)) :
    s.onFrame f now = some { s with sender := s.sender.onFrame f now } ∧
      s.answers f now = [] ∧
      Source c d service F { s with sender := s.sender.onFrame f now } r₀ rest toServer := by
  cases h with
  | final transfer sending deferred =>
    have hr : s.sender.result = .inProgress := by
      rcases transfer.results.1 with hr | hr
      · exact hr
      · exact absurd (transfer.of_sent hr).1 (List.cons_ne_nil _ _)
    have hs := sending.2 hr
    have transfer := transfer.deliverFlowControl now hj.mirrored.symm
    have hr' : (s.sender.onFrame f now).result = .inProgress := by
      rcases transfer.results.1 with hr' | hr'
      · exact hr'
      · exact absurd ((Sender.onFrame_ok hr').symm.trans hr) (by decide)
    refine ⟨UdsServer.onFrame_sending hs, ?_, .final transfer (iff_of_true hs hr') deferred⟩
    rw [UdsServer.answers, UdsServer.incoming, if_pos hs]

/-- **A frame of the answer reaches the client.** -/
theorem deliverToClient (now : ℕ) (hj : Joined c d) (h₁ : 1 ≤ F.length)
    (hroom : 7 - d.address.headerSize < F.length → F.length ≤ c.maxReceiveLength)
    (h₃₂ : F.length < 2 ^ 32) (h : Source c d service F s r₀ (f :: rest) toServer) :
    Source c d service F s (r₀.onFrame f now) rest toServer := by
  cases h with
  | final transfer sending deferred =>
    exact .final (transfer.deliver now hj.mirrored.symm h₁ hroom h₃₂) sending deferred

/-- **A poll of the client's receiver.** -/
theorem pollReceiver (hin : r₀.state = .receiving → now < r₀.deadlineNs)
    (h : Source c d service F s r₀ rest toServer) :
    Source c d service F s (r₀.poll now).1 rest (toServer ++ (r₀.poll now).2) := by
  cases h with
  | final transfer sending deferred => exact .final (transfer.pollReceiver hin) sending deferred
  | busy sending config payload result state deferred deferredService fresh =>
    rw [fresh.poll now]
    exact .busy sending config payload result state deferred deferredService fresh
  | waiting sending deferred deferredService fresh =>
    rw [fresh.poll now]
    exact .waiting sending deferred deferredService fresh

theorem receiver_config (h : Source c d service F s r₀ rest toServer) : r₀.config = c := by
  cases h with
  | final transfer => exact transfer.receiver_config
  | busy sending config payload result state deferred deferredService fresh => exact fresh.config
  | waiting sending deferred deferredService fresh => exact fresh.config

/-- The client's receiver has not failed. -/
theorem result (h : Source c d service F s r₀ rest toServer) :
    r₀.result = .inProgress ∨ r₀.result = .ok := by
  cases h with
  | final transfer => exact transfer.results.2
  | busy sending config payload result state deferred deferredService fresh =>
    exact .inl fresh.result
  | waiting sending deferred deferredService fresh => exact .inl fresh.result

/-- **A message in the client's receiver is the final answer**, and nothing else is left. -/
theorem received (h : Source c d service F s r₀ rest toServer) (hr : r₀.result = .ok) :
    Holds c F r₀ ∧ s.Listening ∧ rest = [] ∧ toServer = [] := by
  cases h with
  | final transfer sending deferred =>
    obtain ⟨hs, hholds, hrest, htoServer⟩ := transfer.of_received hr
    refine ⟨hholds, ⟨?_, deferred⟩, hrest, htoServer⟩
    exact eq_false_of_ne_true fun h => absurd ((sending.1 h).symm.trans hs) (by decide)
  | busy sending config payload result state deferred deferredService fresh =>
    exact absurd (fresh.result.symm.trans hr) (by decide)
  | waiting sending deferred deferredService fresh =>
    exact absurd (fresh.result.symm.trans hr) (by decide)

/-- **Behind a listening server with nothing in flight, the final answer has arrived.** -/
theorem arrived (hF : F ≠ []) (hs : s.Listening) (h : Source c d service F s r₀ [] toServer) :
    r₀.result = .ok := by
  cases h with
  | final transfer sending deferred =>
    rcases transfer.results.1 with hr | hr
    · exact absurd ((sending.2 hr).symm.trans hs.sending) (by decide)
    · exact (transfer.of_sent hr).2 rfl
  | busy sending => exact absurd (sending.symm.trans hs.sending) (by decide)
  | waiting sending deferred => exact absurd (deferred.symm.trans hs.deferredResponse) hF

end Source

end Sim
end Canforge
