/-
# A client from state to state

What `request` and `poll` do in each state of a client, with the failures
excluded: an accepted request, a poll while it is sent, the poll that ends the sending, a
poll while the answer is awaited and the poll that reads a message.  A message is
another `0x78` (`IsPending`) or a `FinalAnswer`, and what the client reports of a
final answer is all there is in it (`Response.Reports`).
-/

import Canforge.IsoTp.Transfer
import Canforge.Uds.Client

namespace Canforge
namespace Uds

open Canforge.Core IsoTp

/-- A message that says that the server is still working. -/
def IsPending (message : List Byte) : Prop :=
  message.getD 0 0 = kNegativeResponse ∧
    message.getD 2 0 = Nrc.requestCorrectlyReceivedResponsePending.toByte

instance (message : List Byte) : Decidable (IsPending message) :=
  inferInstanceAs (Decidable (_ ∧ _))

/-- A negative response. -/
def negativeResponse (service nrc : Byte) : List Byte := [kNegativeResponse, service, nrc]

/-- The `0x78` of a service. -/
def pendingResponse (service : Byte) : List Byte :=
  negativeResponse service Nrc.requestCorrectlyReceivedResponsePending.toByte

/-- A final answer of a service: a negative one other than `0x78`, or a positive one. -/
inductive FinalAnswer (service : Byte) : List Byte → Prop
  | negative (nrc : Byte) (final : nrc ≠ Nrc.requestCorrectlyReceivedResponsePending.toByte) :
      FinalAnswer service (negativeResponse service nrc)
  | positive (data : List Byte)
      (offset : (service + kPositiveResponseOffset).toNat =
        service.toNat + kPositiveResponseOffset.toNat)
      (distinct : service + kPositiveResponseOffset ≠ kNegativeResponse) :
      FinalAnswer service ((service + kPositiveResponseOffset) :: data)

/-- The response is what the message says. -/
def Response.Reports (r : Response) (message : List Byte) : Prop :=
  (r.positive = true ∧ message = r.service :: r.data) ∨
    (r.positive = false ∧ message = negativeResponse r.service r.nrc)

theorem FinalAnswer.not_pending {service : Byte} {message : List Byte}
    (h : FinalAnswer service message) : ¬ IsPending message := by
  cases h with
  | negative nrc final => exact fun h => final h.2
  | positive data offset distinct => exact fun h => distinct h.1

theorem FinalAnswer.length_pos {service : Byte} {message : List Byte}
    (h : FinalAnswer service message) : 1 ≤ message.length := by
  cases h with
  | negative nrc final => exact Nat.succ_le_succ (Nat.zero_le _)
  | positive data offset distinct => exact Nat.succ_le_succ (Nat.zero_le _)

theorem pendingResponse_isPending (service : Byte) : IsPending (pendingResponse service) :=
  ⟨rfl, rfl⟩

/-- The frame of the keepalive. -/
def keepaliveFrame (config : Config) : FdFrame := singleFrame config Client.keepalivePayload

namespace Client

variable {c c' : Client} {payload message : List Byte} {out : List FdFrame} {now : ℕ}

/-- The client has asked for `payload`. -/
structure Requested (payload : List Byte) (c : Client) : Prop where
  request : c.pendingRequest = payload
  service : c.requestedService = payload.getD 0 0
  expect : c.expectResponse = true

/-- A poll of the client before every deadline: the one of its ISO-TP end, and P2 or
P2\*, which a poll that ends the sending of a request starts. -/
def InTime (c : Client) (now : ℕ) : Prop :=
  (c.state = .sending →
    (c.sender.state = .waitingFlowControl → now < c.sender.deadlineNs) ∧
      now < addNs now c.config.p2Ns) ∧
  (c.state = .awaitingResponse →
    (c.receiver.state = .receiving → now < c.receiver.deadlineNs) ∧ now < c.deadlineNs)

/-- The client has an unread message. -/
def Unread (c : Client) : Prop := c.state = .awaitingResponse ∧ c.receiver.hasMessage = true

/-- The next poll reads one `0x78` more than the client puts up with. -/
def OutOfPatience (c : Client) : Prop :=
  c.Unread ∧ IsPending c.receiver.message ∧ c.config.maxResponsePending ≠ 0#32 ∧
    c.config.maxResponsePending < c.pendingCount + 1

instance (c : Client) (now : ℕ) : Decidable (c.InTime now) :=
  inferInstanceAs (Decidable ((_ → _) ∧ (_ → _)))

instance (c : Client) : Decidable c.Unread := inferInstanceAs (Decidable (_ ∧ _))

instance (c : Client) : Decidable c.OutOfPatience := inferInstanceAs (Decidable (_ ∧ _))

/-- **A request that is accepted** by an idle client. -/
theorem request_accepted (hv : c.config.transport.validate = .ok ()) (h₃₂ : payload.length < 2 ^ 32)
    (hs : suppresses payload = false) (h : c.request payload now = .ok c') :
    c.busy = false ∧ payload ≠ [] ∧ Requested payload c' ∧ c'.config = c.config ∧
      c'.state = .sending ∧ c'.receiver = c.receiver.reset ∧
      ({ config := c.config.transport } : Sender).begin payload now = .ok c'.sender := by
  obtain ⟨sender, hsender⟩ := Sender.begin_ok hv h₃₂ now
  unfold request at h
  by_cases hb : c.busy = true
  · rw [if_pos hb] at h
    cases h
  rw [if_neg hb] at h
  cases payload with
  | nil => cases h
  | cons service rest =>
    simp only [beginTransfer, hsender] at h
    cases h
    exact ⟨eq_false_of_ne_true hb, List.cons_ne_nil _ _, ⟨rfl, rfl, congrArg (!·) hs⟩, rfl, rfl,
      rfl, hsender⟩

/-- A request that ISO-TP cannot describe fails at once. -/
theorem request_too_long (hb : c.busy = false) (hv : c.config.transport.validate = .ok ())
    (hlong : 2 ^ 32 ≤ payload.length) (now : ℕ) :
    ∃ c', c.request payload now = .ok c' ∧ c'.state = .failed := by
  unfold request
  rw [if_neg (by rw [hb]; decide)]
  cases payload with
  | nil => cases hlong
  | cons service rest =>
    have hlong : 0xFFFFFFFF < (service :: rest).length := hlong
    simp only [beginTransfer, Sender.begin, hv, if_pos hlong, ne_eq, not_true_eq_false, if_false]
    exact ⟨_, rfl, rfl⟩

/-! ### The keepalive -/

/-- **The keepalive** is sent behind a complete request or not at all. -/
theorem keepalive_cases (c : Client) (out : List FdFrame) (now : ℕ) :
    c.keepalive out now = (c, out) ∨
      (c.state = .complete ∧ ∃ keepalives lastActivityNs, c.keepalive out now =
        ({ c with keepalives, lastActivityNs }, out ++ [keepaliveFrame c.config.transport])) := by
  unfold keepalive
  by_cases hc : c.config.testerPresentKeepalive = true ∧ c.state = .complete ∧ c.session ≠ 0x01#8
  · rw [if_pos hc]
    by_cases hdue : addNs c.lastActivityNs (c.config.s3Ns * 2 % 2 ^ 64 / 5) ≤ now
    · rw [if_pos hdue]
      cases hb : ({ config := c.config.transport } : Sender).begin keepalivePayload now with
      | error e => exact .inl rfl
      | ok keepalive =>
        obtain ⟨_, _, _, hconfig, hpayload, hresult, hstate⟩ := Sender.begin_spec hb
        have hh := c.config.transport.address.headerSize_le
        rw [if_pos (show keepalivePayload.length ≤ 7 - c.config.transport.address.headerSize by
          rw [show keepalivePayload.length = 2 from rfl]; omega)] at hstate
        simp only [Sender.poll_single hresult hstate, hconfig, hpayload]
        exact .inr ⟨hc.2.1, _, _, rfl⟩
    · rw [if_neg hdue]
      exact .inl rfl
  · rw [if_neg hc]
    exact .inl rfl

theorem keepalive_of_ne (h : c.state ≠ .complete) : c.keepalive out now = (c, out) := by
  rcases c.keepalive_cases out now with heq | ⟨hcomplete, _⟩
  · exact heq
  · exact absurd hcomplete h

/-- The keepalive does not change the outcome. -/
theorem keepalive_outcome (c : Client) (out : List FdFrame) (now : ℕ) :
    (c.keepalive out now).1.state = c.state ∧ (c.keepalive out now).1.failure = c.failure := by
  rcases c.keepalive_cases out now with heq | ⟨_, _, _, heq⟩
  · rw [heq]
    exact ⟨rfl, rfl⟩
  · rw [heq]
    exact ⟨rfl, rfl⟩

/-! ### The polls -/

/-- A client with nothing to do sends its keepalive. -/
theorem poll_rest (h : c.busy = false) : c.poll now = c.keepalive [] now := by
  have h : ¬ (c.state = .sending ∨ c.state = .awaitingResponse) := of_decide_eq_false h
  rw [poll, if_neg fun hs => h (.inl hs), pollAnswer, if_neg fun hs => h (.inr hs)]

/-- A poll in the middle of the request. -/
theorem poll_sending (hs : c.state = .sending) (hr : (c.sender.poll now).1.result = .inProgress) :
    c.poll now = ({ c with sender := (c.sender.poll now).1 }, (c.sender.poll now).2) := by
  have hd : ¬ (c.sender.poll now).1.done = true := by rw [Sender.done, hr]; decide
  rw [poll, if_pos hs]
  simp only [if_neg hd, pollAnswer, hs]
  exact keepalive_of_ne (by simp)

/-- **The poll that ends the request**; the answer is awaited from then on. -/
theorem poll_sent (hs : c.state = .sending) (he : c.expectResponse = true)
    (hr : (c.sender.poll now).1.result = .ok) (hi : c.receiver.state = .idle)
    (hp : c.receiver.result = .inProgress) (hp2 : now < addNs now c.config.p2Ns) :
    c.poll now = ({ c with sender := (c.sender.poll now).1, state := .awaitingResponse,
                           deadlineNs := addNs now c.config.p2Ns }, (c.sender.poll now).2) := by
  have hd : (c.sender.poll now).1.done = true := by rw [Sender.done, hr]; decide
  have hm : ¬ c.receiver.hasMessage = true := by rw [Receiver.hasMessage, hp]; decide
  have hdone : ¬ c.receiver.done = true := by rw [Receiver.done, hp]; decide
  rw [poll, if_pos hs]
  simp only [hd, hr, he, pollAnswer, Receiver.poll_idle hi, if_neg hm, if_neg hdone,
    if_neg (Nat.not_le.2 hp2), keepalive_of_ne, ne_eq, reduceCtorEq, not_true_eq_false,
    not_false_eq_true, if_true, if_false, Bool.true_eq_false, List.append_nil]

/-- A poll in the middle of the answer. -/
theorem poll_awaiting (hs : c.state = .awaitingResponse)
    (hr : (c.receiver.poll now).1.result = .inProgress) (hd : now < c.deadlineNs) :
    c.poll now = ({ c with receiver := (c.receiver.poll now).1 }, (c.receiver.poll now).2) := by
  have hm : ¬ (c.receiver.poll now).1.hasMessage = true := by rw [Receiver.hasMessage, hr]; decide
  have hdone : ¬ (c.receiver.poll now).1.done = true := by rw [Receiver.done, hr]; decide
  rw [poll, if_neg (by rw [hs]; decide), pollAnswer, if_pos hs]
  simp only [if_neg hm, if_neg hdone, if_neg (Nat.not_le.2 hd), List.nil_append]
  exact keepalive_of_ne (by simp [hs])

/-- A poll in the middle of the answer, behind the deadline. -/
theorem poll_late (hs : c.state = .awaitingResponse)
    (hr : (c.receiver.poll now).1.result = .inProgress) (hd : c.deadlineNs ≤ now) :
    (c.poll now).1.state = .failed ∧ (c.poll now).1.failure.code = .transportTimeout := by
  have hm : ¬ (c.receiver.poll now).1.hasMessage = true := by rw [Receiver.hasMessage, hr]; decide
  have hdone : ¬ (c.receiver.poll now).1.done = true := by rw [Receiver.done, hr]; decide
  rw [poll, if_neg (by rw [hs]; decide), pollAnswer, if_pos hs]
  simp only [if_neg hm, if_neg hdone, if_pos hd]
  rw [keepalive_of_ne (by simp [fail])]
  exact ⟨rfl, rfl⟩

/-- **The poll that reads a message.** -/
theorem poll_message (hs : c.state = .awaitingResponse) (hf : c.receiver.state = .finished)
    (hr : c.receiver.result = .ok) :
    c.poll now = ({ c with receiver := c.receiver.reset }.handleMessage
      c.receiver.payload now).keepalive [] now := by
  have hm : c.receiver.hasMessage = true := by rw [Receiver.hasMessage, hr]; decide
  rw [poll, if_neg (by rw [hs]; decide), pollAnswer, if_pos hs]
  simp only [Receiver.poll_finished hf, if_pos hm, List.append_nil, Receiver.message]

/-- A `0x78` within the limit starts P2\* again. -/
theorem handleMessage_pending (service : Byte)
    (hl : c.config.maxResponsePending = 0#32 ∨
      ¬ c.config.maxResponsePending < c.pendingCount + 1) :
    c.handleMessage (pendingResponse service) now =
      { c with lastActivityNs := now, pendingCount := c.pendingCount + 1,
               deadlineNs := addNs now c.config.p2StarNs } := by
  have hl : ¬ (c.config.maxResponsePending ≠ 0#32 ∧
      c.config.maxResponsePending < c.pendingCount + 1) := fun h => hl.elim h.1 fun hn => hn h.2
  simp only [handleMessage, pendingResponse, negativeResponse, if_true, List.length_cons,
    List.length_nil, Nat.reduceAdd, Nat.lt_irrefl, if_false, List.getD_cons_succ,
    List.getD_cons_zero, if_neg hl]

/-- **A final answer completes the request**, and the client reports it. -/
theorem handleMessage_final (h : FinalAnswer c.requestedService message) :
    ∃ response session, c.handleMessage message now =
      { c with lastActivityNs := now, response, session, state := .complete } ∧
        response.Reports message := by
  cases h with
  | negative nrc final =>
    simp only [handleMessage, negativeResponse, if_true, List.length_cons, List.length_nil,
      Nat.reduceAdd, Nat.lt_irrefl, if_false, List.getD_cons_succ, List.getD_cons_zero,
      if_neg final]
    exact ⟨_, _, rfl, .inr ⟨rfl, rfl⟩⟩
  | positive data offset distinct =>
    simp only [handleMessage, if_neg distinct, offset, ne_eq, not_true_eq_false, if_false]
    exact ⟨_, _, rfl, .inl ⟨rfl, rfl⟩⟩

/-- **The poll that reads a `0x78`** within the limit waits on. -/
theorem poll_pending {service : Byte} (hs : c.state = .awaitingResponse)
    (hf : c.receiver.state = .finished) (hr : c.receiver.result = .ok)
    (hp : c.receiver.payload = pendingResponse service) (hl : ¬ c.OutOfPatience) :
    c.poll now = ({ c with receiver := c.receiver.reset, lastActivityNs := now,
                           pendingCount := c.pendingCount + 1,
                           deadlineNs := addNs now c.config.p2StarNs }, []) := by
  have hlimit : c.config.maxResponsePending = 0#32 ∨
      ¬ c.config.maxResponsePending < c.pendingCount + 1 := by
    by_contra h
    obtain ⟨hne, hlt⟩ := not_or.1 h
    refine hl ⟨⟨hs, decide_eq_true hr⟩, ?_, hne, not_not.1 hlt⟩
    rw [Receiver.message, hp]
    exact pendingResponse_isPending service
  rw [poll_message hs hf hr, hp,
    @handleMessage_pending { c with receiver := c.receiver.reset } now service hlimit]
  exact keepalive_of_ne (by simp [hs])

/-- **The poll that reads the final answer** completes the request, and may send the keepalive. -/
theorem poll_final (hs : c.state = .awaitingResponse) (hf : c.receiver.state = .finished)
    (hr : c.receiver.result = .ok) (hp : c.receiver.payload = message)
    (h : FinalAnswer c.requestedService message) (now : ℕ) :
    ∃ c' k, c.poll now = (c', List.replicate k (keepaliveFrame c.config.transport)) ∧
      c'.state = .complete ∧ c'.config = c.config ∧ c'.receiver = c.receiver.reset ∧
      c'.pendingRequest = c.pendingRequest ∧ c'.response.Reports message := by
  subst hp
  obtain ⟨response, session, heq, hreports⟩ :=
    @handleMessage_final { c with receiver := c.receiver.reset } c.receiver.payload now h
  rw [poll_message hs hf hr, heq]
  rcases keepalive_cases _ [] now with hkeep | ⟨_, keepalives, lastActivityNs, hkeep⟩
  · exact ⟨_, 0, hkeep, rfl, rfl, rfl, rfl, hreports⟩
  · exact ⟨_, 1, hkeep, rfl, rfl, rfl, rfl, hreports⟩

end Client

end Uds
end Canforge
