/-
# P2 and a long answer

A client that awaits an answer, the sender of the answer, and the frames between them on a
bus that loses nothing.  P2 is the time in which the answer has to begin, and from its First
Frame on N_Cr guards the rest: `Prompt` is a run in which both are kept.  The client
does not end its P2 timer at the First Frame.  `p2_iff` says what follows: the exchange
ends in no TransportTimeout if and only if every poll at or behind the deadline finds
the last frame of the answer there (`AnswerThere`).
-/

import Canforge.IsoTp.Link
import Canforge.Uds.Matching

namespace Canforge
namespace Uds

open Canforge.Core IsoTp Lib

/-- A client, the sender of the answer, and the frames in flight. -/
structure Reply where
  client : Client
  sender : Sender
  toClient : List FdFrame := []
  toServer : List FdFrame := []

/-- What can happen next. -/
inductive ReplyEvent
  | pollClient (now : ℕ)
  | pollServer (now : ℕ)
  | deliverToClient (now : ℕ)
  | deliverToServer (now : ℕ)

namespace Reply

/-- One event. -/
def step (x : Reply) : ReplyEvent → Option Reply
  | .pollClient now =>
    some { x with client := (x.client.poll now).1, toServer := x.toServer ++ (x.client.poll now).2 }
  | .pollServer now =>
    some { x with sender := (x.sender.poll now).1, toClient := x.toClient ++ (x.sender.poll now).2 }
  | .deliverToClient now =>
    match x.toClient with
    | [] => none
    | f :: fs => some { x with client := x.client.onFrame f now, toClient := fs }
  | .deliverToServer now =>
    match x.toServer with
    | [] => none
    | f :: fs => some { x with sender := x.sender.onFrame f now, toServer := fs }

/-- The client is before the deadline of P2 until the First Frame has arrived, and before that
of N_Cr from then on. -/
def ClientPrompt (x : Reply) (now : ℕ) : Prop :=
  (x.client.receiver.state = .idle → now < x.client.deadlineNs) ∧
    (x.client.receiver.state = .receiving → now < x.client.receiver.deadlineNs)

/-- The answer begins within P2, and every later frame comes within N_Cr, and the clearances for
it within N_Bs. -/
def Prompt (x : Reply) : ReplyEvent → Reply → Prop
  | .pollClient now, _ => x.client.state = .awaitingResponse → x.ClientPrompt now
  | .pollServer now, _ => x.sender.state = .waitingFlowControl → now < x.sender.deadlineNs
  | .deliverToClient now, _ => x.client.state = .awaitingResponse → x.ClientPrompt now
  | .deliverToServer _, _ => True

/-- The step does not end the exchange in TransportTimeout. -/
def NoTimeout (x : Reply) (_ : ReplyEvent) (y : Reply) : Prop :=
  x.client.state = .awaitingResponse →
    ¬ (y.client.state = .failed ∧ y.client.failure.code = .transportTimeout)

/-- A poll at or behind the deadline finds the whole answer there. -/
def AnswerThere (x : Reply) : ReplyEvent → Reply → Prop
  | .pollClient now, _ => x.client.state = .awaitingResponse → x.client.deadlineNs ≤ now →
      x.client.receiver.result = .ok
  | .pollServer _, _ => True
  | .deliverToClient _, _ => True
  | .deliverToServer _, _ => True

instance (x : Reply) (now : ℕ) : Decidable (x.ClientPrompt now) :=
  inferInstanceAs (Decidable (_ ∧ _))

instance (x y : Reply) : (e : ReplyEvent) → Decidable (Prompt x e y)
  | .pollClient _ => inferInstanceAs (Decidable (_ → _))
  | .pollServer _ => inferInstanceAs (Decidable (_ → _))
  | .deliverToClient _ => inferInstanceAs (Decidable (_ → _))
  | .deliverToServer _ => .isTrue trivial

instance (x y : Reply) (e : ReplyEvent) : Decidable (NoTimeout x e y) :=
  inferInstanceAs (Decidable (_ → _))

instance (x y : Reply) : (e : ReplyEvent) → Decidable (AnswerThere x e y)
  | .pollClient _ => inferInstanceAs (Decidable (_ → _ → _))
  | .pollServer _ => .isTrue trivial
  | .deliverToClient _ => .isTrue trivial
  | .deliverToServer _ => .isTrue trivial

/-- The client awaits the answer and the transfer of it is in one of its phases, or the client
is done. -/
structure Inv (c cr : Config) (F : List Byte) (x : Reply) : Prop where
  sent : x.client.state ≠ .sending
  transfer : x.client.state = .awaitingResponse →
    Transfer c cr F x.sender x.client.receiver x.toClient x.toServer

variable {c cr : Config} {F : List Byte} {x y : Reply} {now : ℕ}

/-- A message that is not a `0x78` ends the exchange, and not with a timeout. -/
theorem handleMessage_of_not_pending {client : Client} (hF : ¬ IsPending F) (now : ℕ) :
    (client.handleMessage F now).state = .complete ∨
      ((client.handleMessage F now).state = .failed ∧
        (client.handleMessage F now).failure.code = .parseSemantic) := by
  cases F with
  | nil => exact .inr ⟨rfl, rfl⟩
  | cons head data =>
    unfold Client.handleMessage
    by_cases hnegative : head = kNegativeResponse
    · have hfinal : (head :: data).getD 2 0 ≠ Nrc.requestCorrectlyReceivedResponsePending.toByte :=
        fun h => hF ⟨hnegative, h⟩
      simp only [if_pos hnegative, if_neg hfinal]
      split_ifs
      · exact .inr ⟨rfl, rfl⟩
      · exact .inl rfl
    · simp only [if_neg hnegative]
      split_ifs
      · exact .inr ⟨rfl, rfl⟩
      · exact .inl rfl
      · exact .inl rfl

/-- **A poll of the client while the answer comes in**: it reads the answer, or times out, or
waits on. -/
theorem poll_cases (hF : ¬ IsPending F) {client : Client} {s : Sender} {sr rs : List FdFrame}
    (hs : client.state = .awaitingResponse) (ht : Transfer c cr F s client.receiver sr rs)
    (hin : client.receiver.state = .receiving → now < client.receiver.deadlineNs) :
    (client.receiver.result = .ok ∧ ((client.poll now).1.state = .complete ∨
      ((client.poll now).1.state = .failed ∧
        (client.poll now).1.failure.code = .parseSemantic))) ∨
    (client.receiver.result = .inProgress ∧ client.deadlineNs ≤ now ∧
      (client.poll now).1.state = .failed ∧
      (client.poll now).1.failure.code = .transportTimeout) ∨
    (client.receiver.result = .inProgress ∧ now < client.deadlineNs ∧
      client.poll now = ({ client with receiver := (client.receiver.poll now).1 },
        (client.receiver.poll now).2)) := by
  rcases ht.results.2 with hprogress | hok
  · have hwait : (client.receiver.poll now).1.result = .inProgress := by
      rcases (ht.pollReceiver hin).results.2 with hwait | hok
      · exact hwait
      · exact absurd (hprogress.symm.trans (Receiver.poll_ok hok)) (by decide)
    rcases Nat.lt_or_ge now client.deadlineNs with hearly | hlate
    · exact .inr (.inr ⟨hprogress, hearly, Client.poll_awaiting hs hwait hearly⟩)
    · obtain ⟨hstate, hcode⟩ := Client.poll_late hs hwait hlate
      exact .inr (.inl ⟨hprogress, hlate, hstate, hcode⟩)
  · obtain ⟨_, hholds, _⟩ := ht.of_received hok
    refine .inl ⟨hok, ?_⟩
    rw [Client.poll_message hs hholds.state hholds.result, hholds.payload]
    obtain ⟨hstate, hfailure⟩ := Client.keepalive_outcome
      ({ client with receiver := client.receiver.reset }.handleMessage F now) [] now
    rw [hstate, hfailure]
    exact handleMessage_of_not_pending hF now

variable (hm : c.address.Mirrored cr.address) (h₁ : 1 ≤ F.length)
  (hmax : F.length ≤ cr.maxReceiveLength) (h₃₂ : F.length < 2 ^ 32) (hF : ¬ IsPending F)
include hm h₁ hmax h₃₂ hF

/-- **A prompt step keeps the invariant**, whether the client times out or not. -/
theorem Inv.step {e : ReplyEvent} (h : Inv c cr F x) (hprompt : Prompt x e y)
    (hstep : x.step e = some y) : Inv c cr F y := by
  obtain ⟨client, s, sr, rs⟩ := x
  obtain ⟨hsent, htransfer⟩ := h
  cases e with
  | pollClient now =>
    obtain rfl := Option.some.inj hstep
    by_cases hs : client.state = .awaitingResponse
    · have ht := htransfer hs
      have hin := (hprompt hs).2
      rcases poll_cases hF hs ht hin with ⟨_, hdone⟩ | ⟨_, _, hfailed, _⟩ | ⟨_, _, hpoll⟩
      · rcases hdone with hcomplete | ⟨hfailed, _⟩
        · exact ⟨fun h => (nomatch hcomplete.symm.trans h), fun h => nomatch hcomplete.symm.trans h⟩
        · exact ⟨fun h => (nomatch hfailed.symm.trans h), fun h => nomatch hfailed.symm.trans h⟩
      · exact ⟨fun h => (nomatch hfailed.symm.trans h), fun h => nomatch hfailed.symm.trans h⟩
      · simp only [hpoll]
        exact ⟨fun h => (nomatch hs.symm.trans h), fun _ => ht.pollReceiver hin⟩
    · have hbusy : client.busy = false := decide_eq_false fun h => h.elim hsent hs
      have hstate := (Client.keepalive_outcome client [] now).1
      rw [← Client.poll_rest hbusy] at hstate
      exact ⟨fun h => hsent (hstate.symm.trans h), fun h => absurd (hstate.symm.trans h) hs⟩
  | pollServer now =>
    cases hstep
    exact ⟨hsent, fun hs => (htransfer hs).pollSender hprompt⟩
  | deliverToClient now =>
    cases sr with
    | nil => cases hstep
    | cons f sr =>
      cases hstep
      by_cases hs : client.state = .awaitingResponse
      · have honFrame : client.onFrame f now =
            { client with receiver := client.receiver.onFrame f now } := by
          rw [Client.onFrame, if_neg hsent, if_pos hs]
        simp only [honFrame]
        exact ⟨hsent, fun hs => (htransfer hs).deliver now hm h₁ (fun _ => hmax) h₃₂⟩
      · have honFrame : client.onFrame f now = client := by
          rw [Client.onFrame, if_neg hsent, if_neg hs]
        simp only [honFrame]
        exact ⟨hsent, fun h => absurd h hs⟩
  | deliverToServer now =>
    cases rs with
    | nil => cases hstep
    | cons f rs =>
      cases hstep
      exact ⟨hsent, fun hs => (htransfer hs).deliverFlowControl now hm⟩

omit hm h₁ hmax h₃₂ in
/-- **One step, exactly.** -/
theorem Inv.timeout_iff {e : ReplyEvent} (h : Inv c cr F x) (hprompt : Prompt x e y)
    (hstep : x.step e = some y) : NoTimeout x e y ↔ AnswerThere x e y := by
  obtain ⟨client, s, sr, rs⟩ := x
  obtain ⟨hsent, htransfer⟩ := h
  cases e with
  | pollClient now =>
    obtain rfl := Option.some.inj hstep
    by_cases hs : client.state = .awaitingResponse
    · have ht := htransfer hs
      rcases poll_cases hF hs ht (hprompt hs).2 with
        ⟨hok, hdone⟩ | ⟨hprogress, hlate, htimeout⟩ | ⟨_, hearly, hpoll⟩
      · refine iff_of_true (fun _ hy => ?_) fun _ _ => hok
        rcases hdone with hcomplete | ⟨_, hcode⟩
        · exact nomatch hcomplete.symm.trans hy.1
        · exact nomatch hcode.symm.trans hy.2
      · refine iff_of_false (fun hno => hno hs htimeout) fun hthere => ?_
        exact nomatch hprogress.symm.trans (hthere hs hlate)
      · refine iff_of_true (fun _ hy => ?_) fun _ hlate => absurd hearly (Nat.not_lt.2 hlate)
        have hfailed : (client.poll now).1.state = .failed := hy.1
        rw [hpoll] at hfailed
        exact nomatch hs.symm.trans hfailed
    · exact iff_of_true (fun h => absurd h hs) fun h => absurd h hs
  | pollServer now =>
    cases hstep
    exact iff_of_true (fun hs hy => nomatch hs.symm.trans hy.1) trivial
  | deliverToClient now =>
    cases sr with
    | nil => cases hstep
    | cons f sr =>
      cases hstep
      refine iff_of_true (fun hs hy => ?_) trivial
      have honFrame : (client.onFrame f now).state = client.state := by
        rw [Client.onFrame, if_neg hsent, if_pos hs]
      exact nomatch (honFrame.trans hs).symm.trans hy.1
  | deliverToServer now =>
    cases rs with
    | nil => cases hstep
    | cons f rs =>
      cases hstep
      exact iff_of_true (fun hs hy => nomatch hs.symm.trans hy.1) trivial

omit hm h₁ hmax h₃₂ hF

/-- **P2, exactly.**  A client awaits an answer, whatever its deadline, and the answer is sent in
time: in such a run no step ends the exchange in TransportTimeout if and only if every poll
at or behind the deadline finds the whole answer there. -/
theorem p2_iff {client : Client} {sender : Sender}
    (hm : c.address.Mirrored client.config.transport.address)
    (hmax : F.length ≤ client.config.transport.maxReceiveLength)
    (hlong : 7 - c.address.headerSize < F.length) (hF : ¬ IsPending F)
    (hstate : client.state = .awaitingResponse)
    (hreceiver : Fresh client.config.transport client.receiver)
    (hbegin : ({ config := c } : Sender).begin F now = .ok sender) {es : List ReplyEvent}
    (hprompt : Along step Prompt { client, sender } es) :
    Along step NoTimeout { client, sender } es ↔ Along step AnswerThere { client, sender } es := by
  obtain ⟨_, _, h₃₂, hconfig, hpayload, hresult, hsending⟩ := Sender.begin_spec hbegin
  have h₁ : 1 ≤ F.length := by omega
  have hinv : Inv c client.config.transport F { client, sender } :=
    ⟨fun h => (nomatch hstate.symm.trans h),
      fun _ => .start hconfig hpayload hresult hsending hreceiver⟩
  exact Along.congr_along (fun _ _ _ hx hr hstep => hx.step hm h₁ hmax h₃₂ hF hr hstep)
    (fun _ _ _ hx hr hstep => hx.timeout_iff hF hr hstep) hinv hprompt

/-- A client that has asked for the identifier `0xF190`, with a P2 of 50 ms. -/
def asking : Client :=
  match (Client.create { transport := testerConfig }).request [0x22, 0xF1, 0x90] 0 with
  | .ok client => (client.poll 0).1
  | .error _ => Client.create { transport := testerConfig }

/-- The sender of an answer of 15 bytes. -/
def answering : Sender :=
  { config := ecuConfig, payload := [0x62, 0xF1, 0x90] ++ List.replicate 12 0x41,
    state := .sendingFirst }

/-- The First Frame at 10 ms, the clearance at once, the next frame at 40 ms. -/
def slowStart : List ReplyEvent :=
  [.pollServer 10000000, .deliverToClient 10000000, .pollClient 11000000,
    .deliverToServer 11000000, .pollServer 40000000, .deliverToClient 40000000]

/-- With the last frame at 60 ms, and a poll then, the exchange does not time out. -/
theorem p2_iff_slow : Along step NoTimeout { client := asking, sender := answering }
    (slowStart ++ [.pollServer 60000000, .deliverToClient 60000000, .pollClient 60000000]) := by
  have hm : ecuConfig.address.Mirrored asking.config.transport.address :=
    ⟨rfl, rfl, rfl, rfl, rfl⟩
  have hfresh : Fresh asking.config.transport asking.receiver :=
    ⟨by decide +kernel, by decide +kernel, by decide +kernel⟩
  have hbegin : ({ config := ecuConfig } : Sender).begin answering.payload 0 = .ok answering := by
    decide +kernel
  exact (p2_iff hm (by decide +kernel) (by decide +kernel) (by decide +kernel) (by decide +kernel)
    hfresh hbegin (by decide +kernel)).2 (by decide +kernel)

/-- **The defect.**  With the same answer, well within N_Cr, a poll at 50 ms ends the exchange. -/
theorem slow_answer_times_out :
    ({ config := ecuConfig } : Sender).begin answering.payload 0 = .ok answering ∧
    Along step Prompt { client := asking, sender := answering }
      (slowStart ++ [.pollClient 50000000]) ∧
    ¬ Along step NoTimeout { client := asking, sender := answering }
      (slowStart ++ [.pollClient 50000000]) := by
  decide +kernel

end Reply

end Uds
end Canforge
