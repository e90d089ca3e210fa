/-
# A server that stops answering

`on_frame` re-arms the receiver behind a completed request, and `poll` behind a sent
answer, but nothing does behind a reception that failed: the receiver stays
finished and ignores every further frame.  `handles_next_iff` says that this is the only
way to lose the next request: a server with nothing to send, no deferred answer and no
deadline to wait for (`Quiet`) handles a Single Frame request if and only if no
reception has failed since the receiver was last reset.  `quiet_of_polls` shows how polls
make a server quiet, `wedged_forever` that a quiet server whose reception failed never
handles a request again.
-/

import Canforge.IsoTp.Reception
import Canforge.Sim.Runs

namespace Canforge
namespace Sim

open Canforge.Core IsoTp Lib Uds

namespace UdsServer

variable {config : UdsServerConfig} {s t : UdsServer} {e : ServerEvent} {request : List Byte}
  {frame : FdFrame} {now : ℕ}

/-- What happens to a server on the bus. -/
def FromBus (_ : UdsServer) : ServerEvent → Prop
  | .frame _ _ => True
  | .poll _ => True
  | .addDtc _ => True
  | .request _ _ => False

/-- A server with nothing to send, no deferred answer and no deadline to wait for. -/
structure Quiet (s : UdsServer) : Prop where
  sending : s.sending = false
  deferredResponse : s.deferredResponse = []
  notClearing : s.receiver.state ≠ .sendFlowControl
  notReceiving : s.receiver.state ≠ .receiving

/-- The transport of a server and the receiver between its steps. -/
structure Armed (config : UdsServerConfig) (s : UdsServer) : Prop where
  transport : s.config.transport = config.transport
  receiver : Receiver.Consistent config.transport s.receiver
  read : s.receiver.result ≠ .ok

theorem handle_transport {d d' : Diagnostics} {response : List Byte}
    (h : d.handle request now = some (response, d')) :
    d'.config.transport = d.config.transport := by
  cases Diagnostics.handle_handled h <;> rfl

/-- A handled request counts, and leaves the receiver alone. -/
theorem respond_spec (h : s.respond request now = some t) :
    t.handled = s.handled + 1 ∧ t.receiver = s.receiver ∧
      t.config.transport = s.config.transport := by
  obtain ⟨⟨response, d⟩, hd, rfl⟩ := Option.map_eq_some_iff.1 h
  have htransport := handle_transport hd
  simp only
  split_ifs
  · exact ⟨rfl, rfl, htransport⟩
  · exact ⟨send_handled, send_receiver, by simpa using htransport⟩

/-- A frame is handled as a request if and only if it completes one. -/
theorem onFrame_handled (hs : s.sending = false) (h : s.onFrame frame now = some t) :
    t.handled = s.handled + 1 ↔ (s.receiver.onFrame frame now).hasMessage = true := by
  rw [onFrame, if_neg (by rw [hs]; decide)] at h
  by_cases hm : (s.receiver.onFrame frame now).hasMessage = true
  · simp only [if_pos hm] at h
    exact iff_of_true (respond_spec h).1 hm
  · simp only [if_neg hm] at h
    cases h
    exact iff_of_false (by simp) hm

theorem releaseDeferred_receiver (s : UdsServer) (now : ℕ) :
    (s.releaseDeferred now).receiver = s.receiver := by
  unfold releaseDeferred
  split_ifs
  · exact send_receiver
  · rfl

/-- A poll leaves the receiver alone, resets it behind a sent answer, or polls it. -/
theorem poll_receiver (s : UdsServer) (now : ℕ) : (s.poll now).1.receiver = s.receiver ∨
    (s.poll now).1.receiver = s.receiver.reset ∨
    (s.poll now).1.receiver = (s.receiver.poll now).1 := by
  have hr := s.releaseDeferred_receiver now
  unfold poll
  simp only
  split_ifs
  · exact .inr (.inl (congrArg Receiver.reset hr))
  · exact .inl hr
  · exact .inl (send_receiver.trans hr)
  · exact .inr (.inr (congrArg (fun r => (Receiver.poll r now).1) hr))

theorem step_armed (h : Armed config s) (hok : FromBus s e) (hstep : s.step e = some t) :
    Armed config t := by
  cases e with
  | request request now => exact hok.elim
  | addDtc dtc =>
    cases hstep
    exact ⟨h.transport, h.receiver, h.read⟩
  | frame frame now =>
    rw [step, onFrame] at hstep
    by_cases hs : s.sending = true
    · rw [if_pos hs] at hstep
      cases hstep
      exact ⟨h.transport, h.receiver, h.read⟩
    rw [if_neg hs] at hstep
    have hr := h.receiver.onFrame frame now
    by_cases hm : (s.receiver.onFrame frame now).hasMessage = true
    · simp only [if_pos hm] at hstep
      obtain ⟨_, hreceiver, htransport⟩ := respond_spec hstep
      exact ⟨htransport.trans h.transport, hreceiver ▸ hr.reset,
        by rw [hreceiver]; simp [Receiver.reset]⟩
    · simp only [if_neg hm] at hstep
      cases hstep
      exact ⟨h.transport, hr, fun hok => hm (by simp only at hok; simp [Receiver.hasMessage, hok])⟩
  | poll now =>
    cases hstep
    obtain ⟨_, _, hd⟩ := s.poll_toDiagnostics now
    have htransport : (s.poll now).1.config.transport = config.transport := by
      rw [hd]
      exact h.transport
    rcases s.poll_receiver now with hr | hr | hr
    · exact ⟨htransport, hr ▸ h.receiver, hr ▸ h.read⟩
    · exact ⟨htransport, hr ▸ h.receiver.reset, by rw [hr]; simp [Receiver.reset]⟩
    · exact ⟨htransport, hr ▸ h.receiver.poll now, fun h' => h.read (Receiver.poll_ok (hr ▸ h'))⟩

theorem armed (h : Reach step FromBus (create config) s) : Armed config s := by
  induction h with
  | refl => exact ⟨rfl, ⟨rfl, iff_of_false (by simp [create]) fun h => h rfl⟩, by simp [create]⟩
  | tail _ hok hstep ih => exact step_armed ih hok hstep

/-- **The next request, exactly.**  A server that is quiet after any run on the bus
handles a well-formed Single Frame request if and only if no reception has failed
since its receiver was last reset. -/
theorem handles_next_iff (h : Reach step FromBus (create config) s) (hq : s.Quiet)
    (hf : Receiver.IsSingleFrame config.transport.address frame)
    (hstep : s.onFrame frame now = some t) :
    t.handled = s.handled + 1 ↔ s.receiver.done = false := by
  have ha := armed h
  rw [onFrame_handled hq.sending hstep]
  constructor
  · intro hm
    by_contra hd
    have hd : s.receiver.done = true := eq_true_of_ne_false hd
    have hfin := ha.receiver.finished.2 (of_decide_eq_true hd)
    rw [Receiver.onFrame_finished hfin] at hm
    exact ha.read (of_decide_eq_true hm)
  · intro hd
    have hnot : s.receiver.state ≠ .finished := fun hfin =>
      of_decide_eq_false hd (ha.receiver.finished.1 hfin)
    have hidle : s.receiver.state = .idle := by
      cases hst : s.receiver.state with
      | idle => rfl
      | sendFlowControl => exact absurd hst hq.notClearing
      | receiving => exact absurd hst hq.notReceiving
      | finished => exact absurd hst hnot
    exact Receiver.onFrame_of_isSingleFrame (ha.receiver.config ▸ hf) hidle

/-- A TesterPresent request in a Single Frame. -/
def testerPresentFrame : FdFrame := makeFrame testerConfig [0x02, 0x3E, 0x00]

theorem testerPresentFrame_isSingleFrame :
    Receiver.IsSingleFrame ecuConfig.address testerPresentFrame :=
  ⟨[0x02, 0x3E, 0x00, 0xCC, 0xCC, 0xCC, 0xCC, 0xCC], by decide, by decide, 2, 1, by decide,
    by decide, .inl (by decide)⟩

/-- A fresh server handles it. -/
theorem handles_next_fresh : ∃ t, (create fourBytes).onFrame testerPresentFrame 0 = some t ∧
    t.handled = 0 + 1 := by
  have hrun : ((create fourBytes).onFrame testerPresentFrame 0).isSome := by decide +kernel
  obtain ⟨t, ht⟩ := Option.isSome_iff_exists.1 hrun
  have hq : (create fourBytes).Quiet := ⟨rfl, rfl, by decide, by decide⟩
  exact ⟨t, ht, (handles_next_iff .refl hq testerPresentFrame_isSingleFrame ht).2 rfl⟩

/-- **The defect.**  After a stray flow control the server is quiet and ignores it. -/
theorem stray_flow_control_wedges : ∃ s t, Reach step FromBus (create fourBytes) s ∧ s.Quiet ∧
    s.onFrame testerPresentFrame 0 = some t ∧ s.handled = 0 ∧ t.handled = 0 := by
  have hstray : (create fourBytes).step (.frame (makeFlowControl testerConfig .continueToSend) 0) =
      some { create fourBytes with
        receiver := ({ config := ecuConfig } : Receiver).finish .unexpectedPdu } := by
    rfl
  exact ⟨_, _, Reach.refl.tail (e := .frame _ 0) trivial hstray, ⟨rfl, rfl, by decide, by decide⟩,
    rfl, rfl, rfl⟩

/-! ### Polling a server until it is quiet -/

theorem poll_of_rest (hs : s.sending = false) (hd : s.deferredResponse = []) :
    (s.poll now).1 = { s with receiver := (s.receiver.poll now).1 } := by
  have hsame : s.releaseDeferred now = s := if_neg fun h => h.1 hd
  unfold poll
  rw [hsame]
  simp only
  rw [if_neg (by rw [hs]; decide), if_neg fun h => h.2 hd]

/-- **Two polls, past the pending flow control and past N_Cr, make a server quiet** that has
nothing to send. -/
theorem quiet_of_polls {t₁ t₂ : ℕ} (hs : s.sending = false) (hd : s.deferredResponse = [])
    (h₁ : s.receiver.fcDueNs ≤ t₁) (h₂ : (s.poll t₁).1.receiver.deadlineNs ≤ t₂) :
    ((s.poll t₁).1.poll t₂).1.Quiet := by
  rw [poll_of_rest hs hd] at h₂ ⊢
  obtain ⟨hclear, hreceive⟩ := Receiver.poll_poll h₁ h₂
  have hagain : ({ s with receiver := (s.receiver.poll t₁).1 }.poll t₂).1 = _ :=
    poll_of_rest hs hd
  rw [hagain]
  exact ⟨hs, hd, hclear, hreceive⟩

/-- **A quiet server whose reception failed stays silent**, whatever happens on the bus. -/
theorem wedged_forever (h : Reach step FromBus (create config) s) (hq : s.Quiet)
    (hd : s.receiver.done = true) (ht : Reach step FromBus s t) :
    t.handled = s.handled ∧ t.Quiet ∧ t.receiver = s.receiver := by
  have hfin : s.receiver.state = .finished :=
    (armed h).receiver.finished.2 (of_decide_eq_true hd)
  have hmessage : s.receiver.hasMessage = false := decide_eq_false (armed h).read
  induction ht with
  | refl => exact ⟨rfl, hq, rfl⟩
  | tail _ hok hstep ih =>
    rename_i u v e _
    obtain ⟨hh, hu, hr⟩ := ih
    cases e with
    | request request now => exact hok.elim
    | addDtc dtc =>
      cases hstep
      exact ⟨hh, ⟨hu.sending, hu.deferredResponse, hu.notClearing, hu.notReceiving⟩, hr⟩
    | frame frame now =>
      rw [step, onFrame, if_neg (by rw [hu.sending]; decide), hr,
        Receiver.onFrame_finished hfin] at hstep
      simp only [hmessage] at hstep
      cases hstep
      exact ⟨hh, ⟨hu.sending, hu.deferredResponse, hq.notClearing, hq.notReceiving⟩, rfl⟩
    | poll now =>
      cases hstep
      rw [poll_of_rest hu.sending hu.deferredResponse, hr, Receiver.poll_finished hfin]
      exact ⟨hh, ⟨hu.sending, hu.deferredResponse, hq.notClearing, hq.notReceiving⟩, rfl⟩

end UdsServer

end Sim
end Canforge
