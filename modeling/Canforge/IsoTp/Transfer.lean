/-
# One step of a transfer

The frames of a transfer are the Single Frame, or the First Frame and the
Consecutive Frames `consecutiveFrame c P 1, 2, …` (`Canforge.Lib.Segments` with
the rooms of the two kinds of frame).  For a sender that is `SentUpTo` `k` of them
one lemma says what a poll does, and for a receiver one lemma says what each of
the frames does to it.  The runs of `Canforge.IsoTp.Lossless` and
`Canforge.IsoTp.Lossy` are put together from these.
-/

import Canforge.IsoTp.Wire
import Canforge.Lib.Segments

namespace Canforge
namespace IsoTp

open Canforge.Core Lib

/-- Payload bytes of a First Frame. -/
def firstRoom (c : Config) (P : List Byte) : ℕ :=
  8 - c.address.headerSize - (Sender.firstFramePci P.length).length

/-- Payload bytes of a full Consecutive Frame. -/
def room (c : Config) : ℕ := 8 - c.address.headerSize - 1

/-- The Single Frame of a message. -/
def singleFrame (c : Config) (P : List Byte) : FdFrame :=
  makeFrame c (BitVec.ofNat 8 P.length :: P)

/-- The First Frame of a message. -/
def firstFrame (c : Config) (P : List Byte) : FdFrame :=
  makeFrame c (Sender.firstFramePci P.length ++ P.take (firstRoom c P))

/-- The `k`-th Consecutive Frame of a message, from `1`. -/
def consecutiveFrame (c : Config) (P : List Byte) (k : ℕ) : FdFrame :=
  makeFrame c (BitVec.ofNat 8 (0x20 ||| k % 16) :: segmentAt (firstRoom c P) (room c) P k)

variable {c cr : Config} {P : List Byte} {s : Sender} {r : Receiver} {k now : ℕ}

theorem firstFramePci_length (n : ℕ) :
    (Sender.firstFramePci n).length = if n ≤ kClassicMaxLength then 2 else 6 := by
  unfold Sender.firstFramePci; split_ifs <;> rfl

theorem firstRoom_lt (h : 7 - c.address.headerSize < P.length) : firstRoom c P < P.length := by
  have := c.address.headerSize_le
  rw [firstRoom, firstFramePci_length]
  split_ifs <;> omega

/-! ### The sender -/

/-- A sender of `P` that has sent the First Frame and `k` Consecutive Frames. -/
structure SentUpTo (c : Config) (P : List Byte) (k : ℕ) (s : Sender) : Prop where
  config : s.config = c
  payload : s.payload = P
  offset : s.offset = min (firstRoom c P + room c * k) P.length
  sequence : s.sequence = (k + 1) % 16

namespace Sender

/-- **What an accepted `begin` leaves.** -/
theorem begin_spec {s s' : Sender} (h : s.begin P now = .ok s') :
    s.state = .idle ∧ s.config.validate = .ok () ∧ P.length < 2 ^ 32 ∧ s'.config = s.config ∧
      s'.payload = P ∧ s'.result = .inProgress ∧
      s'.state =
        if P.length ≤ 7 - s.config.address.headerSize then .sendingSingle else .sendingFirst := by
  rw [begin] at h
  by_cases hidle : s.state ≠ .idle
  · rw [if_pos hidle] at h
    cases h
  rw [if_neg hidle] at h
  cases hv : s.config.validate with
  | error e => rw [hv] at h; cases h
  | ok u =>
    rw [hv] at h
    by_cases hlong : 0xFFFFFFFF < P.length
    · simp only [if_pos hlong] at h
      cases h
    simp only [if_neg hlong] at h
    cases h
    exact ⟨not_not.1 hidle, rfl, by omega, rfl, rfl, rfl, rfl⟩

/-- A fresh sender with a valid configuration accepts what ISO-TP can describe. -/
theorem begin_ok (hv : c.validate = .ok ()) (h₃₂ : P.length < 2 ^ 32) (now : ℕ) :
    ∃ s', ({ config := c } : Sender).begin P now = .ok s' := by
  have hlong : ¬ 0xFFFFFFFF < P.length := by omega
  rw [begin, if_neg fun h => h rfl]
  simp only [hv, if_neg hlong]
  exact ⟨_, rfl⟩

theorem poll_of_ne (h : s.result ≠ .inProgress) : s.poll now = (s, []) := by
  rw [poll, done, if_pos (decide_eq_true h)]

theorem onFrame_of_ne {f : FdFrame} (h : s.result ≠ .inProgress) : s.onFrame f now = s := by
  rw [onFrame, done, if_pos (decide_eq_true h)]

theorem poll_single (hr : s.result = .inProgress) (hs : s.state = .sendingSingle) :
    s.poll now = ({ s with offset := s.payload.length, result := .ok, state := .finished },
      [singleFrame s.config s.payload]) := by
  simp [poll, done, hr, hs, singleFrame]

/-- **The poll that sends the First Frame.** -/
theorem poll_first (now : ℕ) (hr : s.result = .inProgress) (hs : s.state = .sendingFirst)
    (hc : s.config = c) (hP : s.payload = P) (hlen : 7 - c.address.headerSize < P.length) :
    ∃ s', s.poll now = (s', [firstFrame c P]) ∧ SentUpTo c P 0 s' ∧ s'.result = .inProgress ∧
      s'.state = .waitingFlowControl := by
  have hmin : min (firstRoom c P) P.length = firstRoom c P := min_eq_left (firstRoom_lt hlen).le
  subst hc hP
  simp only [poll, done, hr, hs, ne_eq, not_true_eq_false, decide_false, Bool.false_eq_true,
    if_false, ← firstRoom.eq_1, hmin]
  exact ⟨_, rfl, ⟨rfl, rfl, by simp [hmin], rfl⟩, rfl, rfl⟩

theorem poll_waiting (hs : s.state = .waitingFlowControl) (hnow : now < s.deadlineNs) :
    s.poll now = (s, []) := by
  rw [poll]
  by_cases hd : s.done
  · rw [if_pos hd]
  · rw [if_neg hd, hs]
    exact if_neg (by omega)

theorem poll_late (hr : s.result = .inProgress) (hs : s.state = .waitingFlowControl)
    (hnow : s.deadlineNs ≤ now) : s.poll now = (s.finish .timeoutBs, []) := by
  simp only [poll, done, hr, hs, ne_eq, not_true_eq_false, decide_false, Bool.false_eq_true,
    if_false, if_pos hnow]

theorem poll_early (hr : s.result = .inProgress) (hs : s.state = .sendingConsecutive)
    (hnow : now < s.nextSendNs) : s.poll now = (s, []) := by
  simp only [poll, done, hr, hs, ne_eq, not_true_eq_false, decide_false, Bool.false_eq_true,
    if_false, if_pos hnow]

/-- **The poll that sends a Consecutive Frame**, and the three ways it goes on:
the message is out, the block is complete, or the next frame is due after STmin. -/
theorem poll_consecutive (now : ℕ) (hr : s.result = .inProgress)
    (hs : s.state = .sendingConsecutive)
    (h : SentUpTo c P k s) (hmore : firstRoom c P + room c * k < P.length)
    (hdue : s.nextSendNs ≤ now) :
    ∃ s', s.poll now = (s', [consecutiveFrame c P (k + 1)]) ∧ SentUpTo c P (k + 1) s' ∧
      s'.blockSize = s.blockSize ∧
      ((P.length ≤ firstRoom c P + room c * (k + 1) ∧ s'.result = .ok ∧ s'.state = .finished) ∨
        (firstRoom c P + room c * (k + 1) < P.length ∧ s'.result = .inProgress ∧
          s.blockSize ≠ 0 ∧ s.blockSize.toNat ≤ (s.framesInBlock + 1) % 256 ∧
          s'.state = .waitingFlowControl) ∨
        (firstRoom c P + room c * (k + 1) < P.length ∧ s'.result = .inProgress ∧
          (s.blockSize ≠ 0 → (s.framesInBlock + 1) % 256 < s.blockSize.toNat) ∧
          s'.state = .sendingConsecutive ∧ s'.framesInBlock = (s.framesInBlock + 1) % 256)) := by
  obtain ⟨hc, hP, hoff, hseq⟩ := h
  subst hc hP
  have hk : firstRoom s.config s.payload + room s.config * (k + 1) =
      firstRoom s.config s.payload + room s.config * k + room s.config := by
    rw [Nat.mul_succ, Nat.add_assoc]
  have hoff' : s.offset = firstRoom s.config s.payload + room s.config * k := by
    rw [hoff, min_eq_left hmore.le]
  have htake : min (room s.config) (sizeSub s.payload.length s.offset) =
      min (room s.config) (s.payload.length - s.offset) := by
    rw [sizeSub_eq (by omega)]
  have hout : makeFrame s.config (BitVec.ofNat 8 (0x20 ||| (s.sequence &&& 0x0F)) ::
      (s.payload.drop s.offset).take (min (room s.config) (s.payload.length - s.offset))) =
      consecutiveFrame s.config s.payload (k + 1) := by
    rw [consecutiveFrame, segmentAt, Nat.add_sub_cancel, ← hoff', hseq, and_fifteen, Nat.mod_mod,
      ← List.length_drop, ← List.take_eq_take_min]
  have hseq' : (s.sequence + 1) &&& 0x0F = (k + 1 + 1) % 16 := by
    rw [hseq, and_fifteen]; omega
  simp only [poll, done, hr, hs, ne_eq, not_true_eq_false, decide_false, Bool.false_eq_true,
    if_false, if_neg (show ¬ now < s.nextSendNs by omega), ← room.eq_1, htake, hout]
  split_ifs with h₁ h₂
  · exact ⟨_, rfl, ⟨rfl, rfl, by simp only; omega, hseq'⟩, rfl, .inl ⟨by omega, rfl, rfl⟩⟩
  · exact ⟨_, rfl, ⟨rfl, rfl, by simp only; omega, hseq'⟩, rfl,
      .inr (.inl ⟨by omega, rfl, h₂.1, h₂.2, rfl⟩)⟩
  · refine ⟨_, rfl, ⟨rfl, rfl, by simp only; omega, hseq'⟩, rfl,
      .inr (.inr ⟨by omega, rfl, fun hb => ?_, rfl, rfl⟩)⟩
    by_contra hle
    exact h₂ ⟨hb, by omega⟩

/-- No frame completes a transfer. -/
theorem onFrame_ok {f : FdFrame} (h : (s.onFrame f now).result = .ok) : s.result = .ok := by
  have hflow (body : List Byte) (h : (s.onFlowStatus body now).result = .ok) : s.result = .ok := by
    unfold onFlowStatus at h
    split at h
    · exact h
    · dsimp only at h
      split_ifs at h
      · cases h
      · exact h
    · cases h
    · cases h
  unfold onFrame at h
  by_cases hd : s.done = true
  · rwa [if_pos hd] at h
  rw [if_neg hd] at h
  cases hb : s.config.address.body f with
  | none =>
    rw [hb] at h
    exact h
  | some body =>
    rw [hb] at h
    dsimp only at h
    split_ifs at h
    · cases h
    · cases h
    · cases h
    · exact hflow body h

/-- A frame that carries a flow control, for a sender that waits for one. -/
theorem onFrame_of_flowControl {f : FdFrame} {body : List Byte} (hr : s.result = .inProgress)
    (hs : s.state = .waitingFlowControl) (hb : s.config.address.body f = some body)
    (hp : pciOf body = 3) (h₃ : 3 ≤ body.length) : s.onFrame f now = s.onFlowStatus body now := by
  rw [onFrame, done, hr, hb]
  simp only [hp, Pci.ofNibble, hs, ne_eq, not_true_eq_false, decide_false, Bool.false_eq_true,
    if_false]
  exact if_neg (by omega)

/-- **A flow control that lets a waiting sender go on.** -/
theorem onFrame_continue (hr : s.result = .inProgress) (hs : s.state = .waitingFlowControl)
    (hm : cr.address.Mirrored s.config.address) :
    s.onFrame (makeFlowControl cr .continueToSend) now =
      { s with blockSize := cr.blockSize, stMinNs := stMinToNs cr.stMinRaw, waitCount := 0,
               framesInBlock := 0, state := .sendingConsecutive,
               nextSendNs := addNs now s.config.nCsNs } := by
  have hh := cr.address.headerSize_le
  obtain ⟨hpci, hlow⟩ := pci_flowControl .continueToSend
  have hbody := body_makeFrame hm (List.cons_ne_nil
    (BitVec.ofNat 8 (0x30 ||| FlowStatus.continueToSend.toNibble)) [cr.blockSize, cr.stMinRaw])
    (by simp only [List.length_cons, List.length_nil]; omega)
  rw [makeFlowControl_eq, onFrame_of_flowControl hr hs hbody hpci (by simp), onFlowStatus]
  simp only [List.cons_append, List.getD_cons_zero, List.getD_cons_succ, hlow,
    FlowStatus.ofNibble_toNibble]

end Sender

/-! ### The receiver -/

namespace Receiver

variable {f : FdFrame} {body : List Byte}

theorem poll_idle (h : r.state = .idle) : r.poll now = (r, []) := by rw [poll, h]

theorem poll_finished (h : r.state = .finished) : r.poll now = (r, []) := by rw [poll, h]

theorem poll_receiving (h : r.state = .receiving) (hnow : now < r.deadlineNs) :
    r.poll now = (r, []) := by
  rw [poll, h]
  exact if_neg (by omega)

theorem poll_early (h : r.state = .sendFlowControl) (hnow : now < r.fcDueNs) :
    r.poll now = (r, []) := by
  rw [poll, h]
  exact if_neg (by omega)

theorem poll_late (h : r.state = .receiving) (hnow : r.deadlineNs ≤ now) :
    r.poll now = (r.finish .timeoutCr, []) := by
  rw [poll, h]
  exact if_pos hnow

/-- The poll that refuses a message. -/
theorem poll_overflow (h : r.state = .sendFlowControl) (hp : r.pendingStatus = .overflow)
    (hdue : r.fcDueNs ≤ now) :
    r.poll now = (r.finish .bufferOverflow, [makeFlowControl r.config .overflow]) := by
  rw [poll, h]
  simp only [hp, if_pos hdue, if_true]

/-- The poll that clears the next block. -/
theorem poll_continue (h : r.state = .sendFlowControl) (hp : r.pendingStatus = .continueToSend)
    (hdue : r.fcDueNs ≤ now) :
    r.poll now = ({ r with state := .receiving, framesInBlock := 0,
                           deadlineNs := addNs now r.config.nCrNs },
      [makeFlowControl r.config .continueToSend]) := by
  rw [poll, h]
  simp only [hp, if_pos hdue]
  rfl

/-- No poll completes a message. -/
theorem poll_ok (h : (r.poll now).1.result = .ok) : r.result = .ok := by
  unfold poll at h
  split at h
  · split_ifs at h
    · cases h
    · exact h
    · exact h
  · split_ifs at h
    · cases h
    · exact h
  · exact h
  · exact h

theorem onFrame_finished (h : r.state = .finished) : r.onFrame f now = r := if_pos h

/-- A frame that carries a Single Frame. -/
theorem onFrame_of_single (hst : r.state ≠ .finished) (hb : r.config.address.body f = some body)
    (hp : Sender.pciOf body = 0) : r.onFrame f now = r.onSingleFrame body := by
  rw [onFrame, if_neg hst, hb]
  simp only [hp, Pci.ofNibble]

theorem onFrame_of_first (hst : r.state ≠ .finished) (hb : r.config.address.body f = some body)
    (hp : Sender.pciOf body = 1) : r.onFrame f now = r.onFirstFrame body now := by
  rw [onFrame, if_neg hst, hb]
  simp only [hp, Pci.ofNibble]

theorem onFrame_of_consecutive (hst : r.state ≠ .finished)
    (hb : r.config.address.body f = some body) (hp : Sender.pciOf body = 2) :
    r.onFrame f now = r.onConsecutiveFrame body now := by
  rw [onFrame, if_neg hst, hb]
  simp only [hp, Pci.ofNibble]

variable (hm : c.address.Mirrored r.config.address)
include hm

/-- **A Single Frame delivers its message.** -/
theorem onFrame_single (hi : r.state = .idle) (h₁ : 1 ≤ P.length)
    (h₇ : P.length ≤ 7 - c.address.headerSize) :
    r.onFrame (singleFrame c P) now =
      { r with payload := P, expected := P.length, result := .ok, state := .finished } := by
  have hh := c.address.headerSize_le
  obtain ⟨hpci, hlow⟩ := pci_single P.length (by omega)
  have hbody := body_makeFrame hm (List.cons_ne_nil (BitVec.ofNat 8 P.length) P)
    (by rw [List.length_cons]; omega)
  rw [singleFrame, onFrame_of_single (by rw [hi]; decide) hbody hpci, onSingleFrame]
  simp only [List.cons_append, List.getD_cons_zero, hlow]
  rw [if_neg (by rw [hi]; decide), if_neg (by omega), if_neg]
  · simp
  · simp only [List.length_cons, List.length_append]
    omega

omit hm in
/-- What the other side reads of a First Frame, which is always full. -/
theorem body_firstFrame {a : Address} (hm : c.address.Mirrored a)
    (h₇ : 7 - c.address.headerSize < P.length) :
    a.body (firstFrame c P) =
        some (Sender.firstFramePci P.length ++ P.take (firstRoom c P)) ∧
      Sender.pciOf (Sender.firstFramePci P.length ++ P.take (firstRoom c P)) = 1 := by
  have hh := c.address.headerSize_le
  have hroom : (P.take (firstRoom c P)).length = firstRoom c P := by
    rw [List.length_take, min_eq_left (firstRoom_lt h₇).le]
  have hfull : (Sender.firstFramePci P.length ++ P.take (firstRoom c P)).length =
      8 - c.address.headerSize := by
    rw [List.length_append, hroom, firstRoom, firstFramePci_length]
    split_ifs <;> omega
  have hne : Sender.firstFramePci P.length ++ P.take (firstRoom c P) ≠ [] := by
    intro h
    rw [h, List.length_nil] at hfull
    omega
  have hbody := body_makeFrame hm hne (by omega)
  rw [Config.padding_full _ hfull.ge, List.append_nil] at hbody
  refine ⟨hbody, ?_⟩
  unfold Sender.firstFramePci
  split_ifs
  · exact (pci_first (P.length >>> 8 &&& 0x0F) (by rw [and_fifteen]; omega)).1
  · simp [Sender.pciOf]

/-- What a First Frame of `P` makes of an idle receiver. -/
theorem onFrame_first (hi : r.state = .idle) (h₇ : 7 - c.address.headerSize < P.length)
    (h₃₂ : P.length < 2 ^ 32) :
    r.onFrame (firstFrame c P) now =
      if r.config.maxReceiveLength < P.length then
        { r with expected := P.length, pendingStatus := .overflow, state := .sendFlowControl,
                 fcDueNs := addNs now r.config.nBrNs }
      else
        { r with expected := P.length, payload := upTo (firstRoom c P) (room c) P 0, sequence := 1,
                 pendingStatus := .continueToSend, state := .sendFlowControl,
                 fcDueNs := addNs now r.config.nBrNs } := by
  obtain ⟨hbody, hpci⟩ := body_firstFrame hm h₇
  have htake : (P.take (firstRoom c P)).take P.length = upTo (firstRoom c P) (room c) P 0 := by
    rw [upTo, Nat.mul_zero, Nat.add_zero, List.take_take, min_eq_right (firstRoom_lt h₇).le]
  have h7 : ¬ P.length ≤ 7 - r.config.address.headerSize := by rw [← hm.headerSize]; omega
  rw [onFrame_of_first (by rw [hi]; decide) hbody hpci, onFirstFrame]
  by_cases hclassic : P.length ≤ kClassicMaxLength
  · have hlen := length_classic hclassic
    simp only [Sender.firstFramePci, if_pos hclassic, List.cons_append, List.nil_append,
      List.getD_cons_zero, List.getD_cons_succ, hlen, List.length_cons]
    rw [if_neg (by rw [hi]; decide), if_neg (by omega), if_neg (by omega), if_neg h7]
    simp only [List.drop_succ_cons, List.drop_zero, htake]
  · have hlen := length_escape h₃₂
    simp only [Sender.firstFramePci, if_neg hclassic, List.cons_append, List.nil_append,
      List.getD_cons_zero, List.getD_cons_succ, hlen, List.length_cons]
    rw [if_neg (by rw [hi]; decide), if_neg (by omega), if_pos (by decide), if_neg (by omega),
      if_neg h7]
    simp only [List.drop_succ_cons, List.drop_zero, htake]

/-- A First Frame in the middle of a reception. -/
theorem onFrame_first_busy (hi : r.state ≠ .idle) (hf : r.state ≠ .finished)
    (h₇ : 7 - c.address.headerSize < P.length) :
    r.onFrame (firstFrame c P) now = r.finish .unexpectedPdu := by
  obtain ⟨hbody, hpci⟩ := body_firstFrame hm h₇
  rw [onFrame_of_first hf hbody hpci, onFirstFrame, if_pos hi]

omit hm in
/-- **What a Consecutive Frame does to a receiver that expects one:** its number is
wrong, or its bytes are appended and the message is complete, or the block is, or
the next frame is awaited. -/
theorem onConsecutiveFrame_cases (pci : Byte) (tail : List Byte) (now : ℕ)
    (hst : r.state = .receiving)
    (hle : r.payload.length ≤ r.expected) :
    ((pci &&& 0x0F#8).toNat ≠ r.sequence ∧
      r.onConsecutiveFrame (pci :: tail) now = r.finish .wrongSequence) ∨
    ((pci &&& 0x0F#8).toNat = r.sequence ∧
      ∃ r', r.onConsecutiveFrame (pci :: tail) now = r' ∧ r'.config = r.config ∧
        r'.expected = r.expected ∧ r'.sequence = (r.sequence + 1) % 16 ∧
        r'.payload = r.payload ++ tail.take (r.expected - r.payload.length) ∧
        ((r.expected ≤ r'.payload.length ∧ r'.result = .ok ∧ r'.state = .finished) ∨
          (r'.payload.length < r.expected ∧ r'.result = r.result ∧ r.config.blockSize ≠ 0 ∧
            r.config.blockSize.toNat ≤ (r.framesInBlock + 1) % 256 ∧
            r'.state = .sendFlowControl ∧ r'.pendingStatus = .continueToSend) ∨
          (r'.payload.length < r.expected ∧ r'.result = r.result ∧
            (r.config.blockSize ≠ 0 →
              (r.framesInBlock + 1) % 256 < r.config.blockSize.toNat) ∧
            r'.state = .receiving ∧ r'.framesInBlock = (r.framesInBlock + 1) % 256))) := by
  by_cases hseq : (pci &&& 0x0F#8).toNat = r.sequence
  · refine .inr ⟨hseq, ?_⟩
    have htake : tail.take (min (sizeSub r.expected r.payload.length) tail.length) =
        tail.take (r.expected - r.payload.length) := by
      rw [sizeSub_eq hle, ← List.take_eq_take_min]
    simp only [onConsecutiveFrame, hst, ne_eq, not_true_eq_false, if_false, List.getD_cons_zero,
      hseq, List.length_cons, Nat.add_sub_cancel, List.drop_succ_cons, List.drop_zero, htake,
      and_fifteen]
    split_ifs with h₁ h₂
    · exact ⟨_, rfl, rfl, rfl, rfl, rfl, .inl ⟨h₁, rfl, rfl⟩⟩
    · exact ⟨_, rfl, rfl, rfl, rfl, rfl, .inr (.inl ⟨not_le.1 h₁, rfl, h₂.1, h₂.2, rfl, rfl⟩)⟩
    · refine ⟨_, rfl, rfl, rfl, rfl, rfl, .inr (.inr ⟨not_le.1 h₁, rfl, fun hb => ?_, rfl, rfl⟩)⟩
      by_contra hlt
      exact h₂ ⟨hb, by omega⟩
  · refine .inl ⟨hseq, ?_⟩
    rw [onConsecutiveFrame, if_neg (by rw [hst]; decide), List.getD_cons_zero, if_pos hseq]

/-- The bytes of the `k + 1`-st Consecutive Frame behind its PCI: the segmentAt, and
padding up to a full frame. -/
theorem onFrame_consecutive (hst : r.state ≠ .finished) (P : List Byte) (k now : ℕ) :
    ∃ pci tail, r.onFrame (consecutiveFrame c P (k + 1)) now =
        r.onConsecutiveFrame (pci :: tail) now ∧
      (pci &&& 0x0F#8).toNat = (k + 1) % 16 ∧ tail.length ≤ room c ∧
      segmentAt (firstRoom c P) (room c) P (k + 1) <+: tail := by
  have hh := c.address.headerSize_le
  obtain ⟨hpci, hlow⟩ := pci_consecutive ((k + 1) % 16) (by omega)
  have hseg := @segmentAt_length _ (firstRoom c P) (room c) P k
  have hbody := body_makeFrame hm (List.cons_ne_nil (BitVec.ofNat 8 (0x20 ||| (k + 1) % 16))
    (segmentAt (firstRoom c P) (room c) P (k + 1)))
    (by rw [List.length_cons, hseg]; unfold room; omega)
  rw [List.cons_append] at hbody
  refine ⟨_, _, onFrame_of_consecutive hst hbody hpci, hlow, ?_, List.prefix_append _ _⟩
  have := c.padding_length_le (BitVec.ofNat 8 (0x20 ||| (k + 1) % 16) ::
      segmentAt (firstRoom c P) (room c) P (k + 1)).length
  rw [List.length_cons] at this
  have hroom : room c = 8 - c.address.headerSize - 1 := rfl
  rw [List.length_append, List.length_cons]
  omega

/-- A Consecutive Frame that no one expects. -/
theorem onFrame_consecutive_stray (hr : r.state ≠ .receiving) (hf : r.state ≠ .finished) (k : ℕ) :
    r.onFrame (consecutiveFrame c P (k + 1)) now = r.finish .unexpectedPdu := by
  obtain ⟨pci, tail, heq, _⟩ := onFrame_consecutive hm hf P k now
  rw [heq, onConsecutiveFrame, if_pos hr]

end Receiver

end IsoTp
end Canforge
