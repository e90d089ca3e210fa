/-
# Refused and unread messages

What becomes of a transfer whose first frame is not taken: a receiver with less room than
the message refuses it with an overflow (`Transfer.refuse`), which ends the sender
(`Sender.onFrame_overflow`), and a frame that nobody reads leaves a sender that is done or
waits (`Transfer.lose`).
-/

import Canforge.IsoTp.Link

namespace Canforge
namespace IsoTp

open Canforge.Core Lib

variable {c cr : Config} {P : List Byte} {s : Sender} {r : Receiver} {f : FdFrame}
  {sr rs : List FdFrame} {now : ℕ}

/-- A receiver that is about to refuse a message. -/
structure Refusing (cr : Config) (r : Receiver) : Prop where
  config : r.config = cr
  state : r.state = .sendFlowControl
  status : r.pendingStatus = .overflow
  result : r.result = .inProgress

/-- A sender that waits for a flow control. -/
structure Waiting (s : Sender) : Prop where
  state : s.state = .waitingFlowControl
  result : s.result = .inProgress

theorem Waiting.poll (h : Waiting s) (hin : s.state = .waitingFlowControl → now < s.deadlineNs) :
    s.poll now = (s, []) := Sender.poll_waiting h.state (hin h.state)

/-- **An overflow ends a waiting sender.** -/
theorem Sender.onFrame_overflow (h : Waiting s) (hm : cr.address.Mirrored s.config.address) :
    s.onFrame (makeFlowControl cr .overflow) now = s.finish .bufferOverflow := by
  have hh := cr.address.headerSize_le
  obtain ⟨hpci, hlow⟩ := pci_flowControl .overflow
  have hbody := body_makeFrame hm (List.cons_ne_nil
    (BitVec.ofNat 8 (0x30 ||| FlowStatus.overflow.toNibble)) [cr.blockSize, cr.stMinRaw])
    (by simp only [List.length_cons, List.length_nil]; omega)
  rw [makeFlowControl_eq, onFrame_of_flowControl h.result h.state hbody hpci (by simp),
    onFlowStatus]
  simp only [List.cons_append, List.getD_cons_zero, hlow, FlowStatus.ofNibble_toNibble]

/-- A receiver refuses, or waits until it may. -/
theorem Refusing.poll (h : Refusing cr r) (now : ℕ) : r.poll now = (r, []) ∨
    r.poll now = (r.finish .bufferOverflow, [makeFlowControl cr .overflow]) := by
  rcases Nat.lt_or_ge now r.fcDueNs with hearly | hdue
  · exact .inl (Receiver.poll_early h.state hearly)
  · right
    rw [Receiver.poll_overflow h.state h.status hdue, h.config]

/-- A receiver that has failed, or is about to refuse a message, completes none. -/
structure Deaf (cr : Config) (r : Receiver) : Prop where
  config : r.config = cr
  result : r.result ≠ .ok
  state : r.state = .finished ∨ (r.state = .sendFlowControl ∧ r.pendingStatus = .overflow)

theorem Refusing.deaf (h : Refusing cr r) : Deaf cr r :=
  ⟨h.config, by rw [h.result]; decide, .inr ⟨h.state, h.status⟩⟩

theorem Deaf.finish (h : Deaf cr r) {res : TransferResult} (hres : res ≠ .ok) :
    Deaf cr (r.finish res) := ⟨h.config, hres, .inl rfl⟩

theorem Deaf.poll (h : Deaf cr r) (now : ℕ) : Deaf cr (r.poll now).1 ∧
    ∀ f ∈ (r.poll now).2, f = makeFlowControl cr .overflow := by
  rcases h.state with hs | ⟨hs, hp⟩
  · rw [Receiver.poll_finished hs]
    exact ⟨h, fun f hf => absurd hf List.not_mem_nil⟩
  · rcases Nat.lt_or_ge now r.fcDueNs with hearly | hdue
    · rw [Receiver.poll_early hs hearly]
      exact ⟨h, fun f hf => absurd hf List.not_mem_nil⟩
    · rw [Receiver.poll_overflow hs hp hdue, h.config]
      exact ⟨h.finish (by decide), fun f hf => List.mem_singleton.1 hf⟩

/-- **A deaf receiver stays deaf.** -/
theorem Deaf.onFrame (h : Deaf cr r) (f : FdFrame) (now : ℕ) : Deaf cr (r.onFrame f now) := by
  rcases h.state with hs | ⟨hs, _⟩
  · rw [Receiver.onFrame_finished hs]
    exact h
  · rw [Receiver.onFrame, if_neg (by rw [hs]; decide)]
    cases r.config.address.body f with
    | none => exact h
    | some body =>
      simp only
      cases Pci.ofNibble (Sender.pciOf body) with
      | none => exact h.finish (by decide)
      | some pci =>
        cases pci with
        | singleFrame =>
          simp only [Receiver.onSingleFrame]
          rw [if_pos (by rw [hs]; decide)]
          exact h.finish (by decide)
        | firstFrame =>
          simp only [Receiver.onFirstFrame]
          rw [if_pos (by rw [hs]; decide)]
          exact h.finish (by decide)
        | consecutiveFrame =>
          simp only [Receiver.onConsecutiveFrame]
          rw [if_pos (by rw [hs]; decide)]
          exact h.finish (by decide)
        | flowControl => exact h.finish (by decide)

/-- A frame that carries a flow control ends a reception. -/
theorem Receiver.onFrame_of_flowControl {body : List Byte} (hst : r.state ≠ .finished)
    (hb : r.config.address.body f = some body) (hp : Sender.pciOf body = 3) :
    r.onFrame f now = r.finish .unexpectedPdu := by
  rw [onFrame, if_neg hst, hb]
  simp only [hp, Pci.ofNibble]

/-- **A flow control completes no message.** -/
theorem Receiver.onFrame_flowControl {status : FlowStatus} (h : r.result ≠ .ok)
    (hm : cr.address.Mirrored r.config.address) :
    (r.onFrame (makeFlowControl cr status) now).result ≠ .ok := by
  have hh := cr.address.headerSize_le
  obtain ⟨hpci, _⟩ := pci_flowControl status
  have hbody := body_makeFrame hm (List.cons_ne_nil
    (BitVec.ofNat 8 (0x30 ||| status.toNibble)) [cr.blockSize, cr.stMinRaw])
    (by simp only [List.length_cons, List.length_nil]; omega)
  by_cases hf : r.state = .finished
  · rwa [onFrame_finished hf]
  · rw [makeFlowControl_eq, onFrame_of_flowControl hf hbody hpci]
    exact fun hok => by cases hok

namespace Transfer

/-- To a receiver that has seen nothing there is at most one frame in flight. -/
theorem of_unseen (h : Transfer c cr P s r sr rs) (hr : Fresh cr r) : rs = [] ∧
    (sr = [] ∨ ∃ f, sr = [f] ∧ (s.result = .ok ∨ Waiting s)) := by
  cases h with
  | start => exact ⟨rfl, .inl rfl⟩
  | single result => exact ⟨rfl, .inr ⟨_, rfl, .inl result⟩⟩
  | first sent result state => exact ⟨rfl, .inr ⟨_, rfl, .inr ⟨state, result⟩⟩⟩
  | clearing k sent result state collected due => cases hr.state.symm.trans due
  | cleared k sent result state collected receiving => cases hr.state.symm.trans receiving
  | streaming k n sent result state more collected receiving =>
    cases hr.state.symm.trans receiving
  | blockSent k n sent result state more collected receiving =>
    cases hr.state.symm.trans receiving
  | lastSent k n result last full collected receiving => cases hr.state.symm.trans receiving
  | delivered result config received => cases hr.result.symm.trans received

/-- **A frame that nobody reads** was the only one. -/
theorem lose (h : Transfer c cr P s r (f :: sr) rs) (hr : Fresh cr r) :
    sr = [] ∧ rs = [] ∧ (s.result = .ok ∨ Waiting s) := by
  obtain ⟨hrs, hnil | ⟨g, hone, hs⟩⟩ := h.of_unseen hr
  · cases hnil
  · exact ⟨(List.cons.inj hone).2, hrs, hs⟩

/-- A sender that is done before the receiver has seen anything sent a Single Frame. -/
theorem short_of_sent (h : Transfer c cr P s r sr rs) (hr : Fresh cr r) (hs : s.result = .ok) :
    P.length ≤ 7 - c.address.headerSize := by
  cases h with
  | start config payload result => cases result.symm.trans hs
  | single result short => exact short
  | first sent result => cases result.symm.trans hs
  | clearing k sent result => cases result.symm.trans hs
  | cleared k sent result => cases result.symm.trans hs
  | streaming k n sent result => cases result.symm.trans hs
  | blockSent k n sent result => cases result.symm.trans hs
  | lastSent k n result last full collected receiving => cases hr.state.symm.trans receiving
  | delivered result config received => cases hr.result.symm.trans received

/-- **A message that is too long is refused.** -/
theorem refuse (now : ℕ) (hm : c.address.Mirrored cr.address)
    (hlong : 7 - c.address.headerSize < P.length) (hmax : cr.maxReceiveLength < P.length)
    (h₃₂ : P.length < 2 ^ 32) (h : Transfer c cr P s r (f :: sr) rs) (hr : Fresh cr r) :
    sr = [] ∧ rs = [] ∧ Waiting s ∧ s.config = c ∧ Refusing cr (r.onFrame f now) := by
  generalize hq : f :: sr = q at h
  cases h with
  | single result short => omega
  | first sent result state =>
    obtain ⟨rfl, rfl⟩ := List.cons.inj hq
    rw [Receiver.onFrame_first (hr.config ▸ hm) hr.state hlong h₃₂, hr.config, if_pos hmax]
    exact ⟨rfl, rfl, ⟨state, result⟩, sent.config, rfl, rfl, rfl, hr.result⟩
  | start => cases hq
  | clearing => cases hq
  | cleared => cases hq
  | streaming k n sent result state more collected receiving =>
    cases hr.state.symm.trans receiving
  | blockSent k n sent result state more collected receiving =>
    cases hr.state.symm.trans receiving
  | lastSent k n result last full collected receiving => cases hr.state.symm.trans receiving
  | delivered => cases hq

end Transfer

end IsoTp
end Canforge
