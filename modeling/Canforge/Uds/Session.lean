/-
# The session a client believes in

A client changes its session when it reads the positive answer to a
DiagnosticSessionControl and at no other time (`sessionBehind`).  Here is what `request`
and `poll` do to it, with every outcome of a request: one that cannot be sent, one that
asks for no answer, and one whose answer is refused.

`Client.OnTime` says that a poll fires none of the timeouts of a client.
-/

import Canforge.IsoTp.Refusal
import Canforge.Uds.Turns

namespace Canforge
namespace Uds

open Canforge.Core IsoTp

/-- The session behind the answer to a request. -/
def sessionBehind (session : Byte) (request answer : List Byte) : Byte :=
  if request.getD 0 0 = Service.diagnosticSessionControl.toByte ∧
      answer.getD 0 0 ≠ kNegativeResponse ∧ 2 ≤ answer.length then answer.getD 1 0 &&& 0x7F
  else session

namespace Client

variable {c c' : Client} {payload message request : List Byte} {out : List FdFrame} {now : ℕ}

/-- A poll that fires neither N_Bs nor N_Cr nor P2 or P2\*. -/
def OnTime (c : Client) (now : ℕ) : Prop :=
  (c.state = .sending →
    (c.sender.state = .waitingFlowControl → now < c.sender.deadlineNs) ∧
      (c.expectResponse = true → (c.sender.poll now).1.result = .ok →
        now < addNs now c.config.p2Ns)) ∧
  (c.state = .awaitingResponse →
    (c.receiver.state = .receiving → now < c.receiver.deadlineNs) ∧
      ((c.receiver.poll now).1.result = .inProgress → now < c.deadlineNs))

instance (c : Client) (now : ℕ) : Decidable (c.OnTime now) :=
  inferInstanceAs (Decidable ((_ → _ ∧ (_ → _ → _)) ∧ (_ → (_ → _) ∧ (_ → _))))

/-- **What an accepted request leaves:** a failure, or a request that is being sent. -/
theorem request_cases (h : c.request payload now = .ok c') :
    c.busy = false ∧ payload ≠ [] ∧ c'.config = c.config ∧ c'.session = c.session ∧
      c'.receiver = c.receiver.reset ∧
      (c'.state = .failed ∨ (c'.state = .sending ∧ c'.expectResponse = !suppresses payload ∧
        c'.requestedService = payload.getD 0 0 ∧
        ({ config := c.config.transport } : Sender).begin payload now = .ok c'.sender)) := by
  unfold Client.request at h
  by_cases hb : c.busy = true
  · rw [if_pos hb] at h
    cases h
  rw [if_neg hb] at h
  cases payload with
  | nil => cases h
  | cons service rest =>
    refine ⟨eq_false_of_ne_true hb, List.cons_ne_nil _ _, ?_⟩
    cases hbegin : ({ config := c.config.transport } : Sender).begin (service :: rest) now with
    | error e =>
      simp only [beginTransfer, hbegin] at h
      cases h
      exact ⟨rfl, rfl, rfl, .inl rfl⟩
    | ok sender =>
      simp only [beginTransfer, hbegin] at h
      cases h
      exact ⟨rfl, rfl, rfl, .inr ⟨rfl, rfl, rfl, rfl⟩⟩

theorem keepalive_session (c : Client) (out : List FdFrame) (now : ℕ) :
    (c.keepalive out now).1.session = c.session ∧
      (c.keepalive out now).1.receiver = c.receiver ∧
      (c.keepalive out now).1.config = c.config := by
  rcases c.keepalive_cases out now with heq | ⟨_, _, _, heq⟩
  · rw [heq]
    exact ⟨rfl, rfl, rfl⟩
  · rw [heq]
    exact ⟨rfl, rfl, rfl⟩

/-- **The poll that ends a request for no answer** completes it. -/
theorem poll_suppressed (hs : c.state = .sending) (he : c.expectResponse = false)
    (hr : (c.sender.poll now).1.result = .ok) : ∃ response, c.poll now =
      ({ c with sender := (c.sender.poll now).1, response, state := .complete },
        (c.sender.poll now).2) := by
  have hd : (c.sender.poll now).1.done = true := by rw [Sender.done, hr]; decide
  rw [poll, if_pos hs]
  simp only [hd, hr, he, if_true, ne_eq, not_true_eq_false, if_false]
  exact ⟨_, rfl⟩

/-- **The poll that finds its answer refused** fails. -/
theorem poll_refused (hs : c.state = .awaitingResponse)
    (hr : (c.receiver.poll now).1.result = .bufferOverflow) : ∃ failure, c.poll now =
      ({ c with receiver := (c.receiver.poll now).1, failure, state := .failed },
        (c.receiver.poll now).2) := by
  have hm : ¬ (c.receiver.poll now).1.hasMessage = true := by rw [Receiver.hasMessage, hr]; decide
  have hd : (c.receiver.poll now).1.done = true := by rw [Receiver.done, hr]; decide
  rw [poll, if_neg (by rw [hs]; decide), pollAnswer, if_pos hs]
  simp only [if_neg hm, if_pos hd, List.nil_append]
  exact ⟨_, keepalive_of_ne (by simp [fail])⟩

theorem pollAnswer_unread (out : List FdFrame) (now : ℕ) (h : c.receiver.result ≠ .ok) :
    (c.pollAnswer out now).1.session = c.session ∧
      ((c.pollAnswer out now).1.receiver = c.receiver ∨
        (c.pollAnswer out now).1.receiver = (c.receiver.poll now).1) := by
  have hm : ¬ (c.receiver.poll now).1.hasMessage = true := fun hm =>
    h (Receiver.poll_ok (of_decide_eq_true hm))
  have hkeep (a : Client) (out : List FdFrame) : (a.keepalive out now).1.session = a.session ∧
      (a.keepalive out now).1.receiver = a.receiver :=
    ⟨(a.keepalive_session out now).1, (a.keepalive_session out now).2.1⟩
  rw [pollAnswer]
  by_cases hs : c.state = .awaitingResponse
  · simp only [if_pos hs, if_neg hm]
    split_ifs
    · exact ⟨(hkeep _ _).1, .inr (hkeep _ _).2⟩
    · exact ⟨(hkeep _ _).1, .inr (hkeep _ _).2⟩
    · exact ⟨(hkeep _ _).1, .inr (hkeep _ _).2⟩
  · rw [if_neg hs]
    exact ⟨(hkeep _ _).1, .inl (hkeep _ _).2⟩

/-- **Without a message to read, a poll leaves the session as it is.** -/
theorem poll_unread (now : ℕ) (h : c.receiver.result ≠ .ok) :
    (c.poll now).1.session = c.session ∧
      ((c.poll now).1.receiver = c.receiver ∨
        (c.poll now).1.receiver = (c.receiver.poll now).1) := by
  rw [poll]
  by_cases hs : c.state = .sending
  · simp only [if_pos hs]
    split_ifs
    · exact ⟨rfl, .inl rfl⟩
    · exact ⟨rfl, .inl rfl⟩
    · exact @pollAnswer_unread { c with sender := (c.sender.poll now).1, state := .awaitingResponse,
                                        deadlineNs := addNs now c.config.p2Ns } _ _ h
    · exact @pollAnswer_unread { c with sender := (c.sender.poll now).1 } _ _ h
  · rw [if_neg hs]
    exact pollAnswer_unread _ _ h

/-! ### Reading the final answer -/

theorem handleMessage_session (h : FinalAnswer c.requestedService message)
    (hrequest : c.requestedService = request.getD 0 0) :
    (c.handleMessage message now).session = sessionBehind c.session request message := by
  rw [sessionBehind, ← hrequest]
  cases h with
  | negative nrc final =>
    have hnot : ¬ (c.requestedService = Service.diagnosticSessionControl.toByte ∧
        (negativeResponse c.requestedService nrc).getD 0 0 ≠ kNegativeResponse ∧
        2 ≤ (negativeResponse c.requestedService nrc).length) := fun h => h.2.1 rfl
    rw [if_neg hnot]
    simp only [handleMessage, negativeResponse, if_true, List.length_cons, List.length_nil,
      Nat.reduceAdd, Nat.lt_irrefl, if_false, List.getD_cons_succ, List.getD_cons_zero,
      if_neg final, finish]
  | positive data offset distinct =>
    simp only [handleMessage, offset, ne_eq, not_true_eq_false, if_false, finish,
      List.getD_cons_zero, List.getD_cons_succ, distinct, not_false_eq_true, true_and,
      List.length_cons]
    cases data with
    | nil => simp
    | cons b data => simp

/-- **The poll that reads the final answer.** -/
theorem poll_final_session (hs : c.state = .awaitingResponse) (hf : c.receiver.state = .finished)
    (hr : c.receiver.result = .ok) (hp : c.receiver.payload = message)
    (h : FinalAnswer c.requestedService message) (hrequest : c.requestedService = request.getD 0 0)
    (now : ℕ) : (c.poll now).1.session = sessionBehind c.session request message := by
  rw [poll_message hs hf hr, (keepalive_session _ _ _).1, hp]
  exact @handleMessage_session { c with receiver := c.receiver.reset } message request now h
    hrequest

end Client

end Uds
end Canforge
