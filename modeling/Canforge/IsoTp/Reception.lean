/-
# A receiver between receptions

A receiver is finished exactly when it has a result (`Receiver.Consistent`), whatever
frames arrive and whenever it is polled, and an idle one completes a message with
every well-formed Single Frame (`Receiver.onFrame_of_isSingleFrame`).
-/

import Canforge.IsoTp.Transfer

namespace Canforge
namespace IsoTp

open Canforge.Core

namespace Receiver

variable {cr : Config} {r : Receiver} {frame : FdFrame} {body : List Byte} {now : ℕ}

/-- A receiver is finished when and only when it has a result. -/
structure Consistent (cr : Config) (r : Receiver) : Prop where
  config : r.config = cr
  finished : r.state = .finished ↔ r.result ≠ .inProgress

namespace Consistent

theorem ite {p : Prop} [Decidable p] {a b : Receiver} (ht : p → Consistent cr a)
    (he : ¬ p → Consistent cr b) : Consistent cr (if p then a else b) := by
  split_ifs with h
  · exact ht h
  · exact he h

theorem finish (h : Consistent cr r) {res : TransferResult} (hres : res ≠ .inProgress) :
    Consistent cr (r.finish res) := ⟨h.config, iff_of_true rfl hres⟩

theorem reset (h : Consistent cr r) : Consistent cr r.reset :=
  ⟨h.config, iff_of_false (by simp [Receiver.reset]) fun h => h rfl⟩

/-- A receiver that goes on is not finished. -/
theorem result_of_ne (h : Consistent cr r) (hs : r.state ≠ .finished) : r.result = .inProgress := by
  by_cases hres : r.result = .inProgress
  · exact hres
  · exact absurd (h.finished.2 hres) hs

theorem onSingleFrame (h : Consistent cr r) : Consistent cr (r.onSingleFrame body) := by
  have accept (length dataAt : ℕ) : Consistent cr
      (if length = 0 ∨ body.length < dataAt + length then r.finish .invalidPdu
        else { r with payload := (body.drop dataAt).take length, expected := length,
                      result := .ok, state := .finished }) :=
    .ite (fun _ => h.finish (by decide)) fun _ => ⟨h.config, iff_of_true rfl (by simp)⟩
  exact .ite (fun _ => h.finish (by decide)) fun _ =>
    .ite (fun _ => .ite (fun _ => h.finish (by decide)) fun _ => accept _ _) fun _ => accept _ _

theorem onFirstFrame (h : Consistent cr r) : Consistent cr (r.onFirstFrame body now) := by
  refine .ite (fun _ => h.finish (by decide)) fun hidle => ?_
  have hres : r.result = .inProgress := h.result_of_ne (by rw [not_not.1 hidle]; decide)
  have accept (length dataAt : ℕ) : Consistent cr
      (if length ≤ 7 - r.config.address.headerSize then r.finish .invalidPdu
        else if r.config.maxReceiveLength < length then
          { r with expected := length, pendingStatus := .overflow, state := .sendFlowControl,
                   fcDueNs := addNs now r.config.nBrNs }
        else
          { r with expected := length, payload := (body.drop dataAt).take length, sequence := 1,
                   pendingStatus := .continueToSend, state := .sendFlowControl,
                   fcDueNs := addNs now r.config.nBrNs }) :=
    .ite (fun _ => h.finish (by decide)) fun _ => .ite
      (fun _ => ⟨h.config, iff_of_false (by simp) fun hne => hne hres⟩)
      fun _ => ⟨h.config, iff_of_false (by simp) fun hne => hne hres⟩
  exact .ite (fun _ => h.finish (by decide)) fun _ =>
    .ite (fun _ => .ite (fun _ => h.finish (by decide)) fun _ => accept _ _) fun _ => accept _ _

theorem onConsecutiveFrame (h : Consistent cr r) :
    Consistent cr (r.onConsecutiveFrame body now) := by
  refine .ite (fun _ => h.finish (by decide)) fun hst => .ite (fun _ => h.finish (by decide))
    fun _ => ?_
  have hst : r.state = .receiving := not_not.1 hst
  have hres : r.result = .inProgress := h.result_of_ne (by rw [hst]; decide)
  exact .ite (fun _ => ⟨h.config, iff_of_true rfl (by simp)⟩) fun _ => .ite
    (fun _ => ⟨h.config, iff_of_false (by simp) fun hne => hne hres⟩)
    fun _ => ⟨h.config, iff_of_false (by simp [hst]) fun hne => hne hres⟩

/-- **Frames keep a receiver consistent.** -/
theorem onFrame (h : Consistent cr r) (frame : FdFrame) (now : ℕ) :
    Consistent cr (r.onFrame frame now) := by
  refine .ite (fun _ => h) fun _ => ?_
  cases r.config.address.body frame with
  | none => exact h
  | some body =>
    simp only
    cases Pci.ofNibble (Sender.pciOf body) with
    | none => exact h.finish (by decide)
    | some pci =>
      cases pci with
      | singleFrame => exact h.onSingleFrame
      | firstFrame => exact h.onFirstFrame
      | consecutiveFrame => exact h.onConsecutiveFrame
      | flowControl => exact h.finish (by decide)

/-- **Polls keep a receiver consistent.** -/
theorem poll (h : Consistent cr r) (now : ℕ) : Consistent cr (r.poll now).1 := by
  unfold Receiver.poll
  cases hst : r.state with
  | idle => exact h
  | finished => exact h
  | sendFlowControl =>
    have hres : r.result = .inProgress := h.result_of_ne (by rw [hst]; decide)
    simp only
    split_ifs
    · exact h.finish (by decide)
    · exact ⟨h.config, iff_of_false (by simp) fun hne => hne hres⟩
    · exact h
  | receiving =>
    simp only
    split_ifs
    · exact h.finish (by decide)
    · exact h

end Consistent

/-- After a poll past the pending flow control and one past N_Cr no deadline is left. -/
theorem poll_poll {t₁ t₂ : ℕ} (h₁ : r.fcDueNs ≤ t₁) (h₂ : (r.poll t₁).1.deadlineNs ≤ t₂) :
    ((r.poll t₁).1.poll t₂).1.state ≠ .sendFlowControl ∧
      ((r.poll t₁).1.poll t₂).1.state ≠ .receiving := by
  have hlate {q : Receiver} (hq : q.state = .receiving) (h : q.deadlineNs ≤ t₂) :
      (q.poll t₂).1.state ≠ .sendFlowControl ∧ (q.poll t₂).1.state ≠ .receiving := by
    rw [poll_late hq h]
    exact ⟨by simp [finish], by simp [finish]⟩
  cases hst : r.state with
  | idle => rw [poll_idle hst, poll_idle hst, hst]; decide
  | finished => rw [poll_finished hst, poll_finished hst, hst]; decide
  | receiving =>
    rcases Nat.lt_or_ge t₁ r.deadlineNs with hin | hdue
    · rw [poll_receiving hst hin] at h₂ ⊢
      exact hlate hst h₂
    · rw [poll_late hst hdue, poll_finished rfl]
      exact ⟨by simp [finish], by simp [finish]⟩
  | sendFlowControl =>
    by_cases hp : r.pendingStatus = .overflow
    · rw [poll_overflow hst hp h₁, poll_finished rfl]
      exact ⟨by simp [finish], by simp [finish]⟩
    · have hnext : (r.poll t₁).1.state = .receiving := by
        rw [poll, hst]
        simp only [if_pos h₁, if_neg hp]
      exact hlate hnext h₂

/-- The frame carries a whole message, in one of the two encodings of its length. -/
def IsSingleFrame (a : Address) (frame : FdFrame) : Prop :=
  ∃ body, a.body frame = some body ∧ Sender.pciOf body = 0 ∧
    ∃ length dataAt, 1 ≤ length ∧ dataAt + length ≤ body.length ∧
      ((dataAt = 1 ∧ (body.getD 0 0 &&& 0x0F#8).toNat = length) ∨
        (dataAt = 2 ∧ (body.getD 0 0 &&& 0x0F#8).toNat = 0 ∧ (body.getD 1 0).toNat = length))

/-- **An idle receiver takes every well-formed Single Frame.** -/
theorem onFrame_of_isSingleFrame (hf : IsSingleFrame r.config.address frame)
    (hi : r.state = .idle) : (r.onFrame frame now).hasMessage = true := by
  obtain ⟨body, hbody, hpci, length, dataAt, h₁, hfits, hcase⟩ := hf
  rw [onFrame_of_single (by rw [hi]; decide) hbody hpci, onSingleFrame,
    if_neg (by rw [hi]; decide)]
  rcases hcase with ⟨rfl, hlow⟩ | ⟨rfl, hlow, hlen⟩
  · simp only [hlow]
    rw [if_neg (by omega), if_neg (by omega)]
    rfl
  · simp only [hlow, hlen]
    rw [if_pos trivial, if_neg (by omega), if_neg (by omega)]
    rfl

end Receiver

end IsoTp
end Canforge
