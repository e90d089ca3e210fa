/-
# Which messages answer a request

The client is to complete a request only on an answer to it (`Matches`), and to wait on
only behind a `0x78` for it.  `handle_message` checks the service of a positive response and
not that of a negative one.  `matched_iff` says what follows for every run of requests,
frames and polls: each message is treated as it should be if and only if every negative
response that the client reads names the service that was asked for
(`NegativesForRequest`).
-/

import Canforge.Lib.Transition
import Canforge.Uds.Turns

namespace Canforge
namespace Uds

open Canforge.Core IsoTp Lib

/-- A negative response, which has at least three bytes. -/
def IsNegative (message : List Byte) : Prop :=
  3 ≤ message.length ∧ message.getD 0 0 = kNegativeResponse

/-- A final answer to a request of `service`. -/
def Matches (service : Byte) (message : List Byte) : Prop :=
  (message ≠ [] ∧ message.getD 0 0 ≠ kNegativeResponse ∧
      (message.getD 0 0).toNat = service.toNat + kPositiveResponseOffset.toNat) ∨
    (IsNegative message ∧ message.getD 1 0 = service ∧
      message.getD 2 0 ≠ Nrc.requestCorrectlyReceivedResponsePending.toByte)

instance (message : List Byte) : Decidable (IsNegative message) :=
  inferInstanceAs (Decidable (_ ∧ _))

instance (service : Byte) (message : List Byte) : Decidable (Matches service message) :=
  inferInstanceAs (Decidable (_ ∨ _))

namespace Client

/-- What can happen to a client. -/
inductive Event
  | request (payload : List Byte) (now : ℕ)
  | frame (frame : FdFrame) (now : ℕ)
  | poll (now : ℕ)

/-- One event; a request that is refused changes nothing. -/
def step (c : Client) : Event → Option Client
  | .request payload now =>
    match c.request payload now with
    | .ok c' => some c'
    | .error _ => some c
  | .frame frame now => some (c.onFrame frame now)
  | .poll now => some (c.poll now).1

/-- The client with which a poll looks for an answer. -/
def answering (c : Client) (now : ℕ) : Option Client :=
  if c.state = .sending then
    let sender := (c.sender.poll now).1
    if sender.result = .ok ∧ c.expectResponse = true then
      some { c with sender, state := .awaitingResponse, deadlineNs := addNs now c.config.p2Ns }
    else none
  else if c.state = .awaitingResponse then some c
  else none

/-- The message that a poll reads, and the client that reads it. -/
def reads (c : Client) (now : ℕ) : Option (Client × List Byte) :=
  (c.answering now).bind fun a =>
    let receiver := (a.receiver.poll now).1
    if receiver.hasMessage then some ({ a with receiver := receiver.reset }, receiver.message)
    else none

/-- A message is treated as it should be: it completes the request only if it answers it,
and a `0x78` for another service neither counts nor extends the deadline. -/
structure Treated (a : Client) (message : List Byte) (c' : Client) : Prop where
  completes : c'.state = .complete → Matches a.requestedService message
  waits : IsNegative message → IsPending message → message.getD 1 0 ≠ a.requestedService →
    c'.pendingCount = a.pendingCount ∧ c'.deadlineNs = a.deadlineNs

/-- A poll treats the message it reads as it should. -/
def Matched (c : Client) (e : Event) (c' : Client) : Prop :=
  ∀ now a message, e = .poll now → c.reads now = some (a, message) → a.Treated message c'

/-- The negative response that a poll reads, if it reads one, names the requested service. -/
def NegativesForRequest (c : Client) (e : Event) (_ : Client) : Prop :=
  ∀ now a message, e = .poll now → c.reads now = some (a, message) → IsNegative message →
    message.getD 1 0 = c.requestedService

variable {c c' a : Client} {message : List Byte} {out : List FdFrame} {now : ℕ}

theorem reads_service (h : c.reads now = some (a, message)) :
    a.requestedService = c.requestedService := by
  obtain ⟨b, hb, ha⟩ := Option.bind_eq_some_iff.1 h
  simp only at ha
  split_ifs at ha
  cases ha
  unfold answering at hb
  simp only at hb
  split_ifs at hb <;> cases hb <;> rfl

/-- **A poll that reads a message** handles it. -/
theorem poll_of_reads (h : c.reads now = some (a, message)) : ∃ out,
    (c.poll now).1 = ((a.handleMessage message now).keepalive out now).1 := by
  obtain ⟨b, hb, ha⟩ := Option.bind_eq_some_iff.1 h
  simp only at ha
  split_ifs at ha with hmessage
  cases ha
  have hanswer : ∀ out, b.state = .awaitingResponse → (b.pollAnswer out now).1 =
      (({ b with receiver := (b.receiver.poll now).1.reset }.handleMessage
        (b.receiver.poll now).1.message now).keepalive (out ++ (b.receiver.poll now).2) now).1 := by
    intro out hs
    rw [pollAnswer, if_pos hs]
    simp only [if_pos hmessage]
  unfold answering at hb
  simp only at hb
  split_ifs at hb with hsending hsent hawaiting
  · cases hb
    have hdone : (c.sender.poll now).1.done = true := by rw [Sender.done, hsent.1]; decide
    refine ⟨_, Eq.trans ?_ (hanswer (c.sender.poll now).2 rfl)⟩
    rw [poll, if_pos hsending]
    simp only [hdone, hsent.1, hsent.2, ne_eq, not_true_eq_false, if_true, if_false,
      Bool.true_eq_false]
  · cases hb
    refine ⟨_, Eq.trans ?_ (hanswer [] hawaiting)⟩
    rw [poll, if_neg hsending]

theorem reads_state (h : c.reads now = some (a, message)) : a.state = .awaitingResponse := by
  obtain ⟨b, hb, ha⟩ := Option.bind_eq_some_iff.1 h
  simp only at ha
  split_ifs at ha
  cases ha
  unfold answering at hb
  simp only at hb
  split_ifs at hb with _ _ hawaiting
  · cases hb
    rfl
  · cases hb
    exact hawaiting

/-- **What a message does:** a negative response is another `0x78` or completes the request
unchecked; any other message fails it or is the positive answer. -/
theorem handleMessage_cases (a : Client) (message : List Byte) (now : ℕ) :
    (¬ IsNegative message ∧ ((a.handleMessage message now).state = .failed ∨
      Matches a.requestedService message)) ∨
    (IsNegative message ∧ IsPending message ∧
      ((a.handleMessage message now).state = .failed ∨
        (a.handleMessage message now).state = a.state) ∧
      (a.handleMessage message now).pendingCount = a.pendingCount + 1) ∨
    (IsNegative message ∧ ¬ IsPending message ∧
      (a.handleMessage message now).state = .complete) := by
  cases message with
  | nil => exact .inl ⟨fun h => absurd h.1 (by decide), .inl rfl⟩
  | cons head data =>
    unfold handleMessage
    by_cases hnegative : head = kNegativeResponse
    · simp only [if_pos hnegative]
      by_cases hshort : (head :: data).length < 3
      · simp only [if_pos hshort]
        exact .inl ⟨fun h => absurd h.1 (Nat.not_le.2 hshort), .inl rfl⟩
      have his : IsNegative (head :: data) := ⟨Nat.not_lt.1 hshort, hnegative⟩
      simp only [if_neg hshort]
      by_cases hpending :
          (head :: data).getD 2 0 = Nrc.requestCorrectlyReceivedResponsePending.toByte
      · simp only [if_pos hpending]
        refine .inr (.inl ⟨his, ⟨hnegative, hpending⟩, ?_⟩)
        split_ifs
        · exact ⟨.inl rfl, rfl⟩
        · exact ⟨.inr rfl, rfl⟩
      · simp only [if_neg hpending]
        exact .inr (.inr ⟨his, fun h => hpending h.2, rfl⟩)
    · simp only [if_neg hnegative]
      refine .inl ⟨fun h => hnegative h.2, ?_⟩
      by_cases hother : head.toNat ≠ a.requestedService.toNat + kPositiveResponseOffset.toNat
      · simp only [if_pos hother]
        exact .inl rfl
      · exact .inr (.inl ⟨List.cons_ne_nil _ _, hnegative, not_not.1 hother⟩)

/-- **One message, exactly.** -/
theorem treated_iff (ha : a.state = .awaitingResponse) :
    a.Treated message ((a.handleMessage message now).keepalive out now).1 ↔
      (IsNegative message → message.getD 1 0 = a.requestedService) := by
  set c' := ((a.handleMessage message now).keepalive out now).1 with hc'
  obtain ⟨hstate, hcount⟩ : c'.state = (a.handleMessage message now).state ∧
      c'.pendingCount = (a.handleMessage message now).pendingCount := by
    rcases (a.handleMessage message now).keepalive_cases out now with heq | ⟨_, _, _, heq⟩
    · rw [hc', heq]
      exact ⟨rfl, rfl⟩
    · rw [hc', heq]
      exact ⟨rfl, rfl⟩
  rcases a.handleMessage_cases message now with
    ⟨hnot, hmessage⟩ | ⟨his, hpending, hwaits, hcounts⟩ | ⟨his, hfinal, hcomplete⟩
  · refine iff_of_true ⟨fun hcomplete => ?_, fun h => absurd h hnot⟩ fun h => absurd h hnot
    rcases hmessage with hfailed | hmatches
    · rw [hstate, hfailed] at hcomplete
      cases hcomplete
    · exact hmatches
  · constructor
    · intro h _
      by_contra hother
      -- a `0x78` is always counted
      have hsame := (h.waits his hpending hother).1
      rw [hcount, hcounts] at hsame
      exact absurd (BitVec.add_right_eq_self.1 hsame) (by decide)
    · intro h
      refine ⟨fun hcomplete => ?_, fun _ _ hother => absurd (h his) hother⟩
      rcases hwaits with hfailed | hsame
      · rw [hstate, hfailed] at hcomplete
        cases hcomplete
      · rw [hstate, hsame, ha] at hcomplete
        cases hcomplete
  · constructor
    · intro h _
      rcases h.completes (hstate.trans hcomplete) with ⟨_, hpositive, _⟩ | ⟨_, hservice, _⟩
      · exact absurd his.2 hpositive
      · exact hservice
    · intro h
      exact ⟨fun _ => .inr ⟨his, h his, fun hnrc => hfinal ⟨his.2, hnrc⟩⟩,
        fun _ hpending => absurd hpending hfinal⟩

/-- **Answer matching, exactly.**  In a run every message is treated as it should be if and
only if every negative response that is read names the requested service. -/
theorem matched_iff (config : ClientConfig) (es : List Event) :
    Along step Matched (create config) es ↔ Along step NegativesForRequest (create config) es := by
  refine Along.congr .refl (fun c e c' _ hstep => ?_) es
  refine forall₃_congr fun now a message => ?_
  constructor
  · rintro h rfl hreads hnegative
    obtain ⟨out, hpoll⟩ := poll_of_reads hreads
    cases hstep
    have htreated := h rfl hreads
    rw [hpoll] at htreated
    rw [← reads_service hreads]
    exact (treated_iff (reads_state hreads)).1 htreated hnegative
  · rintro h rfl hreads
    obtain ⟨out, hpoll⟩ := poll_of_reads hreads
    cases hstep
    rw [hpoll]
    refine (treated_iff (reads_state hreads)).2 fun hnegative =>
      (h rfl hreads hnegative).trans (reads_service hreads).symm

/-- **The defect.**  A negative response to WriteDataByIdentifier completes a request of
ReadDataByIdentifier. -/
theorem other_negative_completes : ∃ c c' a,
    Reach step (fun _ _ => True) (create { transport := testerConfig }) c ∧
    c.reads 2 = some (a, [0x7F, 0x2E, 0x31]) ∧ c.step (.poll 2) = some c' ∧
    c.requestedService = 0x22 ∧ c'.state = .complete ∧ ¬ Matches 0x22 [0x7F, 0x2E, 0x31] := by
  have hrun : (run step (fun _ _ => True) (create { transport := testerConfig })
      [.request [0x22, 0xF1, 0x90] 0, .poll 1,
        .frame (makeFrame ecuConfig [0x03, 0x7F, 0x2E, 0x31]) 2]).bind (fun c =>
          (c.reads 2).bind fun (_, message) => (c.step (.poll 2)).map fun c' =>
            (message, c.requestedService, c'.state)) =
      some ([0x7F, 0x2E, 0x31], 0x22, .complete) := by decide +kernel
  obtain ⟨c, hc, hrest⟩ := Option.bind_eq_some_iff.1 hrun
  obtain ⟨⟨a, message⟩, hreads, hrest⟩ := Option.bind_eq_some_iff.1 hrest
  obtain ⟨c', hstep, heq⟩ := Option.map_eq_some_iff.1 hrest
  simp only [Prod.mk.injEq] at heq
  obtain ⟨rfl, hservice, hstate⟩ := heq
  exact ⟨c, c', a, .of_run .refl hc, hreads, hstep, hservice, hstate, by decide⟩

end Client

end Uds
end Canforge
