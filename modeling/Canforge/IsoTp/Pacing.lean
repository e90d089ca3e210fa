/-
# The pace of the consecutive frames

Between two ContinueToSend frames nothing changes the pace of a `Sender`: `next_send_ns_` holds
the earliest time of the next frame, `frames_in_block_` counts towards the block size, and every
other frame that arrives is ignored or ends the transfer.  `paced` is stated from the
ContinueToSend on, in whatever state it finds the sender; a sender that does not wait for it is
finished by it and sends nothing.
-/

import Canforge.IsoTp.Receiver
import Canforge.IsoTp.Transfer

namespace Canforge
namespace IsoTp

open Canforge.Core

/-- A call of a sender. -/
inductive SenderCall
  | onFrame (frame : FdFrame) (now : ℕ)
  | poll (now : ℕ)
  | abort

/-- The block size and the separation byte of a ContinueToSend frame. -/
def continueOf (a : Address) (frame : FdFrame) : Option (Byte × Byte) :=
  match a.body frame with
  | none => none
  | some body =>
    if Pci.ofNibble (Sender.pciOf body) = some .flowControl ∧ 3 ≤ body.length ∧
        FlowStatus.ofNibble (body.getD 0 0 &&& 0x0F#8).toNat = some .continueToSend then
      some (body.getD 1 0, body.getD 2 0)
    else none

/-- The time of a call leaves room for a separation of `d`, and it is no ContinueToSend. -/
def SenderCall.Plain (a : Address) (d : ℕ) : SenderCall → Prop
  | .onFrame frame _ => continueOf a frame = none
  | .poll now => now + d < 2 ^ 64
  | .abort => True

instance (a : Address) (d : ℕ) : (call : SenderCall) → Decidable (call.Plain a d)
  | .onFrame _ _ => inferInstanceAs (Decidable (_ = none))
  | .poll _ => inferInstanceAs (Decidable (_ < _))
  | .abort => .isTrue trivial

namespace Sender

variable {s : Sender} {now : ℕ} {f : FdFrame}

/-- `abort`. -/
def abort (s : Sender) : Sender := { s with result := .aborted }

/-- The sender after a call. -/
def call (s : Sender) : SenderCall → Sender
  | .onFrame frame now => s.onFrame frame now
  | .poll now => (s.poll now).1
  | .abort => s.abort

/-- The times at which the calls put frames on the bus, one for each frame. -/
def sendTimes : Sender → List SenderCall → List ℕ
  | _, [] => []
  | s, .onFrame frame now :: calls => sendTimes (s.onFrame frame now) calls
  | s, .poll now :: calls => (s.poll now).2.map (fun _ => now) ++ sendTimes (s.poll now).1 calls
  | s, .abort :: calls => sendTimes s.abort calls

/-- A sender that sends nothing before the next ContinueToSend. -/
def Quiet (s : Sender) : Prop := s.result ≠ .inProgress ∨ s.state = .waitingFlowControl

theorem finish_quiet {r : TransferResult} (h : r ≠ .inProgress) : (s.finish r).Quiet := .inl h

theorem poll_config (s : Sender) (now : ℕ) : (s.poll now).1.config = s.config := by
  unfold poll
  by_cases hdone : s.done
  · rw [if_pos hdone]
  rw [if_neg hdone]
  split
  · rfl
  · rfl
  · rfl
  · split_ifs <;> rfl
  · dsimp only
    split_ifs <;> rfl
  · rfl

theorem onFlowStatus_config (s : Sender) (body : List Byte) (now : ℕ) :
    (s.onFlowStatus body now).config = s.config := by
  unfold onFlowStatus
  split
  · rfl
  · dsimp only
    split_ifs <;> rfl
  · rfl
  · rfl

theorem onFrame_config (s : Sender) (f : FdFrame) (now : ℕ) :
    (s.onFrame f now).config = s.config := by
  unfold onFrame
  by_cases hdone : s.done
  · rw [if_pos hdone]
  rw [if_neg hdone]
  split
  · rfl
  · split_ifs
    · rfl
    · rfl
    · rfl
    · exact onFlowStatus_config _ _ _

theorem call_config (s : Sender) (c : SenderCall) : (s.call c).config = s.config := by
  cases c with
  | onFrame frame now => exact onFrame_config s frame now
  | poll now => exact poll_config s now
  | abort => rfl

/-- A quiet sender sends nothing and stays quiet. -/
theorem Quiet.poll (h : s.Quiet) (now : ℕ) : (s.poll now).2 = [] ∧ (s.poll now).1.Quiet := by
  by_cases hr : s.result = .inProgress
  · have hs := h.resolve_left (not_not.2 hr)
    rcases Nat.lt_or_ge now s.deadlineNs with hnow | hnow
    · rw [poll_waiting hs hnow]
      exact ⟨rfl, h⟩
    · rw [poll_late hr hs hnow]
      exact ⟨rfl, finish_quiet (by decide)⟩
  · rw [poll_of_ne hr]
    exact ⟨rfl, h⟩

/-- Every other flow status keeps a sender waiting or finishes it. -/
theorem onFlowStatus_quiet {body : List Byte} (hs : s.state = .waitingFlowControl)
    (h : FlowStatus.ofNibble (body.getD 0 0 &&& 0x0F#8).toNat ≠ some .continueToSend) (now : ℕ) :
    (s.onFlowStatus body now).Quiet := by
  unfold onFlowStatus
  split
  · contradiction
  · dsimp only
    split_ifs
    · exact finish_quiet (by decide)
    · exact .inr hs
  · exact finish_quiet (by decide)
  · exact finish_quiet (by decide)

/-- **A frame that is no ContinueToSend** leaves the sender alone, or makes it quiet. -/
theorem onFrame_plain (h : continueOf s.config.address f = none) (now : ℕ) :
    s.onFrame f now = s ∨ (s.onFrame f now).Quiet := by
  by_cases hr : s.result = .inProgress
  · unfold onFrame
    rw [if_neg (by rw [done, hr]; decide)]
    cases hbody : s.config.address.body f with
    | none => exact .inl rfl
    | some body =>
      dsimp only
      split_ifs with hpci hstate hlen
      · exact .inr (finish_quiet (by decide))
      · exact .inr (finish_quiet (by decide))
      · exact .inr (finish_quiet (by decide))
      · refine .inr (onFlowStatus_quiet (not_not.1 hstate) (fun hcts => ?_) now)
        rw [continueOf, hbody] at h
        dsimp only at h
        rw [if_pos ⟨not_not.1 hpci, by omega, hcts⟩] at h
        cases h
  · exact .inl (onFrame_of_ne hr)

theorem Quiet.call {d : ℕ} {c : SenderCall} (h : s.Quiet) (hc : c.Plain s.config.address d) :
    (s.call c).Quiet := by
  cases c with
  | onFrame frame now =>
    rcases onFrame_plain hc now with heq | hquiet
    · rw [Sender.call, heq]
      exact h
    · exact hquiet
  | poll now => exact (h.poll now).2
  | abort => exact .inl (by decide : TransferResult.aborted ≠ .inProgress)

theorem Quiet.sendTimes {d : ℕ} {calls : List SenderCall} (h : s.Quiet)
    (hcalls : ∀ c ∈ calls, c.Plain s.config.address d) : s.sendTimes calls = [] := by
  induction calls generalizing s with
  | nil => rfl
  | cons c calls ih =>
    rw [List.forall_mem_cons] at hcalls
    have hrest := ih (h.call hcalls.1) (by rw [call_config]; exact hcalls.2)
    cases c with
    | onFrame frame now => exact hrest
    | poll now =>
      rw [Sender.sendTimes, (h.poll now).1]
      exact hrest
    | abort => exact hrest

/-- A sender in the middle of a block of `bs` frames, `d` apart. -/
structure Paced (bs : Byte) (d : ℕ) (s : Sender) : Prop where
  state : s.state = .sendingConsecutive
  result : s.result = .inProgress
  blockSize : s.blockSize = bs
  stMinNs : s.stMinNs = d
  room : bs ≠ 0 → s.framesInBlock < bs.toNat

/-- **A poll within a block** sends nothing before the time of the next frame.  It sends one
frame then, and the next one is due `d` later, if the block has room for it. -/
theorem Paced.poll {bs : Byte} {d : ℕ} (h : s.Paced bs d) (now : ℕ) :
    (now < s.nextSendNs ∧ s.poll now = (s, [])) ∨
      (s.nextSendNs ≤ now ∧ (s.poll now).2.length = 1 ∧ ((s.poll now).1.Quiet ∨
        ((s.poll now).1.Paced bs d ∧ (s.poll now).1.nextSendNs = addNs now d ∧
          (bs ≠ 0 → (s.poll now).1.framesInBlock = s.framesInBlock + 1)))) := by
  rcases Nat.lt_or_ge now s.nextSendNs with hnow | hnow
  · exact .inl ⟨hnow, poll_early h.result h.state hnow⟩
  refine .inr ⟨hnow, ?_⟩
  have hdone : ¬ s.done = true := by
    rw [done, h.result]
    decide
  unfold Sender.poll
  rw [if_neg hdone, h.state]
  dsimp only
  rw [if_neg (by omega)]
  have hcount : bs ≠ 0 → (s.framesInBlock + 1) % 256 = s.framesInBlock + 1 := by
    intro hbs
    have hroom := h.room hbs
    have hbyte := bs.isLt
    exact Nat.mod_eq_of_lt (by omega)
  split_ifs with hlast hblock
  · exact ⟨rfl, .inl (.inl (by simp))⟩
  · exact ⟨rfl, .inl (.inr rfl)⟩
  · refine ⟨rfl, .inr ⟨⟨rfl, h.result, h.blockSize, h.stMinNs, ?_⟩, by rw [h.stMinNs], hcount⟩⟩
    intro hbs
    by_contra hfull
    exact hblock ⟨by rw [h.blockSize]; exact hbs, by rw [h.blockSize]; exact Nat.le_of_not_lt hfull⟩

/-- **The frames of one block.** -/
theorem Paced.sendTimes {bs : Byte} {d : ℕ} {calls : List SenderCall} (h : s.Paced bs d)
    (hcalls : ∀ c ∈ calls, c.Plain s.config.address d) :
    (∀ t ∈ (s.sendTimes calls).head?, s.nextSendNs ≤ t) ∧
      (s.sendTimes calls).IsChain (fun a b => a + d ≤ b) ∧
      (bs ≠ 0 → (s.sendTimes calls).length + s.framesInBlock ≤ bs.toNat) := by
  induction calls generalizing s with
  | nil => exact ⟨by simp [Sender.sendTimes], .nil, fun hbs => by
      simpa [Sender.sendTimes] using (h.room hbs).le⟩
  | cons c calls ih =>
    rw [List.forall_mem_cons] at hcalls
    obtain ⟨hplain, hcalls⟩ := hcalls
    have hquiet (hq : (s.call c).Quiet) : (s.call c).sendTimes calls = [] :=
      hq.sendTimes (by rw [call_config]; exact hcalls)
    cases c with
    | onFrame frame now =>
      rw [Sender.sendTimes]
      rcases onFrame_plain hplain now with heq | hq
      · rw [heq]
        exact ih h hcalls
      · rw [show (s.onFrame frame now).sendTimes calls = [] from hquiet hq]
        exact ⟨by simp, .nil, fun hbs => by simpa using (h.room hbs).le⟩
    | poll now =>
      rw [Sender.sendTimes]
      rcases h.poll now with ⟨-, heq⟩ | ⟨hdue, hone, hnext⟩
      · rw [heq]
        exact ih h hcalls
      obtain ⟨frame, hframe⟩ := List.length_eq_one_iff.1 hone
      rw [hframe, List.map_cons, List.map_nil, List.singleton_append]
      rcases hnext with hq | ⟨hpaced, hsend, hcount⟩
      · rw [show (s.poll now).1.sendTimes calls = [] from hquiet hq]
        refine ⟨by simpa using hdue, .singleton _, fun hbs => ?_⟩
        have hroom := h.room hbs
        rw [List.length_singleton]
        omega
      · obtain ⟨hhead, hchain, hlength⟩ := ih hpaced (by rw [poll_config]; exact hcalls)
        have hsum : addNs now d = now + d := Nat.mod_eq_of_lt hplain
        rw [hsend, hsum] at hhead
        refine ⟨by simpa using hdue, List.isChain_cons.2 ⟨hhead, hchain⟩, fun hbs => ?_⟩
        have hroom := hlength hbs
        rw [hcount hbs] at hroom
        rw [List.length_cons]
        omega
    | abort =>
      have hq : s.abort.Quiet := .inl (by simp [abort])
      rw [Sender.sendTimes, show s.abort.sendTimes calls = [] from hquiet hq]
      exact ⟨by simp, .nil, fun hbs => by simpa using (h.room hbs).le⟩

/-- What a ContinueToSend makes of a sender. -/
theorem onFrame_continueOf {bs st : Byte} (h : continueOf s.config.address f = some (bs, st))
    (now : ℕ) : (s.onFrame f now).Quiet ∨
      ((s.onFrame f now).Paced bs (stMinToNs st) ∧
        (s.onFrame f now).nextSendNs = addNs now s.config.nCsNs ∧
        (s.onFrame f now).framesInBlock = 0) := by
  by_cases hr : s.result = .inProgress
  · unfold continueOf at h
    split at h
    · cases h
    rename_i body hbody
    split_ifs at h with hcts
    obtain ⟨hpci, hlen, hstatus⟩ := hcts
    cases h
    unfold onFrame
    rw [if_neg (by rw [done, hr]; decide), hbody]
    dsimp only
    rw [if_neg (not_not.2 hpci)]
    split_ifs with hstate hshort
    · exact .inl (finish_quiet (by decide))
    · omega
    · rw [onFlowStatus, hstatus]
      refine .inr ⟨⟨rfl, hr, rfl, rfl, fun hbs => ?_⟩, rfl, rfl⟩
      exact Nat.pos_of_ne_zero fun hzero => hbs (BitVec.eq_of_toNat_eq hzero)
  · rw [onFrame_of_ne hr]
    exact .inl (.inl hr)

/-- **The pace of a block.**  After a ContinueToSend, and up to the next one, the first frame is
at least N_Cs later, each frame is at least STmin after the one before it, and a block size that
is not zero bounds their number. -/
theorem paced {bs st : Byte} {calls : List SenderCall}
    (h : continueOf s.config.address f = some (bs, st))
    (hcalls : ∀ c ∈ calls, c.Plain s.config.address (stMinToNs st))
    (hsum : now + s.config.nCsNs < 2 ^ 64) :
    (∀ t ∈ ((s.onFrame f now).sendTimes calls).head?, now + s.config.nCsNs ≤ t) ∧
      ((s.onFrame f now).sendTimes calls).IsChain (fun a b => a + stMinToNs st ≤ b) ∧
      (bs ≠ 0 → ((s.onFrame f now).sendTimes calls).length ≤ bs.toNat) := by
  rcases onFrame_continueOf h now with hquiet | ⟨hpaced, hnext, hcount⟩
  · rw [hquiet.sendTimes (by rw [onFrame_config]; exact hcalls)]
    exact ⟨by simp, .nil, fun _ => Nat.zero_le _⟩
  · obtain ⟨hhead, hchain, hlength⟩ := hpaced.sendTimes (by rw [onFrame_config]; exact hcalls)
    rw [hnext, addNs, Nat.mod_eq_of_lt hsum] at hhead
    rw [hcount] at hlength
    exact ⟨hhead, hchain, hlength⟩

/-- Twenty bytes, of which the First Frame is on the bus. -/
def announced : Sender :=
  match ({ config := testerConfig } : Sender).begin (List.replicate 20 0) 0 with
  | .ok s => (s.poll 0).1
  | .error _ => { config := testerConfig }

/-- A ContinueToSend for blocks of two frames, 10 ms apart. -/
def twoFrames : FdFrame :=
  makeFlowControl { ecuConfig with blockSize := 2, stMinRaw := 10 } .continueToSend

/-- The second of the three polls comes too early. -/
theorem paced_two_frames :
    (announced.onFrame twoFrames 5).sendTimes [.poll 5, .poll 1000, .poll 10000005] =
      [5, 10000005] ∧
    ((announced.onFrame twoFrames 5).sendTimes [.poll 5, .poll 1000, .poll 10000005]).IsChain
      fun a b => a + 10000000 ≤ b := by
  have hcontinue : continueOf announced.config.address twoFrames = some (2, 10) := by
    decide +kernel
  have hcalls : ∀ c ∈ [SenderCall.poll 5, .poll 1000, .poll 10000005],
      c.Plain announced.config.address (stMinToNs 10) := by
    decide +kernel
  exact ⟨by decide +kernel, (paced hcontinue hcalls (by decide +kernel)).2.1⟩

end Sender

end IsoTp
end Canforge
