/-
# Answers that are pending

A request, any number of messages `0x7F service 0x78`, and the final answer.  A message is
what a receiver makes of the frames and polls of its arrival (`Arrives`), of any number and in
any order; a poll before the deadline follows it (`Delivered`).  `playArrival` says that the
arrival moves the receiver and nothing else, so a round is the poll that reads its message:
`playRound_pending`, `playRound_impatient` and `playRound_final`.  `response_pending` is the
induction on the number of rounds.
-/

import Canforge.IsoTp.Reception
import Canforge.Uds.Turns

namespace Canforge
namespace Uds

open Canforge.Core IsoTp

/-- What happens to a client that waits: a frame arrives, or it is polled. -/
inductive Input
  | frame (frame : FdFrame) (now : ℕ)
  | poll (now : ℕ)

/-- When it happens. -/
def Input.now : Input → ℕ
  | .frame _ now => now
  | .poll now => now

/-- The same for its receiver alone. -/
def feed (r : Receiver) : Input → Receiver
  | .frame f now => r.onFrame f now
  | .poll now => (r.poll now).1

/-- A message arrives: the receiver goes on until the last frame, and has the message then. -/
inductive Arrives (message : List Byte) : Receiver → List Input → Prop
  | last {r : Receiver} {f : FdFrame} {now : ℕ} (complete : (r.onFrame f now).hasMessage = true)
      (holds : (r.onFrame f now).message = message) : Arrives message r [.frame f now]
  | more {r : Receiver} {i : Input} {is : List Input}
      (progress : (feed r i).result = .inProgress) (rest : Arrives message (feed r i) is) :
      Arrives message r (i :: is)

/-- The arrival of a message and the poll that follows it. -/
structure Round where
  arrival : List Input
  pollAt : ℕ

namespace Client

variable {c c' : Client} {payload message : List Byte} {round : Round}

/-- One event of a client. -/
def input (c : Client) : Input → Client
  | .frame f now => c.onFrame f now
  | .poll now => (c.poll now).1

/-- One round. -/
def playRound (c : Client) (round : Round) : Client :=
  ((round.arrival.foldl input c).poll round.pollAt).1

/-- The message of a round arrives in the order of time, and is polled before the deadline. -/
structure Delivered (c : Client) (message : List Byte) (round : Round) : Prop where
  arrives : Arrives message c.receiver round.arrival
  order : ∀ i ∈ round.arrival, i.now ≤ round.pollAt
  inTime : round.pollAt < c.deadlineNs

/-- Rounds of `0x78`, as long as the client awaits an answer. -/
def PendingRounds (service : Byte) : Client → List Round → Prop
  | _, [] => True
  | c, round :: rounds =>
    (c.state = .awaitingResponse → c.Delivered (pendingResponse service) round) ∧
      PendingRounds service (c.playRound round) rounds

/-- The request is being sent, up to the poll that ends it. -/
inductive Sends : Client → Client → Prop
  | sent {c : Client} {now : ℕ} (sending : c.state = .sending)
      (awaits : (c.poll now).1.state = .awaitingResponse) : Sends c (c.poll now).1
  | more {c c' : Client} {i : Input} (sending : c.state = .sending) (rest : Sends (c.input i) c') :
      Sends c c'

/-- A client awaits an answer, with a receiver that has begun no message. -/
structure Awaits (c : Client) : Prop where
  state : c.state = .awaitingResponse
  progress : c.receiver.result = .inProgress
  consistent : c.receiver.Consistent c.receiver.config

/-! ### A round -/

theorem input_frame (hs : c.state = .awaitingResponse) (f : FdFrame) (now : ℕ) :
    c.onFrame f now = { c with receiver := c.receiver.onFrame f now } := by
  rw [onFrame, if_neg (by rw [hs]; decide), if_pos hs]

/-- **The arrival of a message** moves the receiver and nothing else. -/
theorem playArrival {is : List Input} (h : Arrives message c.receiver is) (ha : c.Awaits)
    (hd : ∀ i ∈ is, i.now < c.deadlineNs) :
    ∃ receiver, is.foldl input c = { c with receiver } ∧ receiver.state = .finished ∧
      receiver.result = .ok ∧ receiver.payload = message := by
  generalize hr : c.receiver = r at h
  induction h generalizing c with
  | @last r f now complete holds =>
    subst hr
    have hok : (c.receiver.onFrame f now).result = .ok := of_decide_eq_true complete
    have hfinished := (ha.consistent.onFrame f now).finished.2 (by rw [hok]; decide)
    exact ⟨_, input_frame ha.state f now, hfinished, hok, holds⟩
  | @more r i is progress rest ih =>
    subst hr
    have hstep : c.input i = { c with receiver := feed c.receiver i } := by
      cases i with
      | frame f now => exact input_frame ha.state f now
      | poll now =>
        have hearly : now < c.deadlineNs := hd _ List.mem_cons_self
        exact congrArg Prod.fst (poll_awaiting ha.state progress hearly)
    have hkeep : (feed c.receiver i).Consistent (feed c.receiver i).config := by
      cases i with
      | frame f now => exact ⟨rfl, (ha.consistent.onFrame f now).finished⟩
      | poll now => exact ⟨rfl, (ha.consistent.poll now).finished⟩
    rw [List.foldl_cons, hstep]
    exact ih (c := { c with receiver := feed c.receiver i }) ⟨ha.state, progress, hkeep⟩
      (fun j hj => hd j (List.mem_cons_of_mem _ hj)) rfl

/-- The poll of a round finds its message. -/
theorem Delivered.found (h : c.Delivered message round) (ha : c.Awaits) :
    ∃ receiver, receiver.state = .finished ∧ receiver.result = .ok ∧ receiver.payload = message ∧
      c.playRound round = (poll { c with receiver } round.pollAt).1 := by
  have hd : ∀ i ∈ round.arrival, i.now < c.deadlineNs :=
    fun i hi => Nat.lt_of_le_of_lt (h.order i hi) h.inTime
  obtain ⟨receiver, hplay, hf, hr, hp⟩ := playArrival h.arrives ha hd
  exact ⟨receiver, hf, hr, hp, by rw [playRound, hplay]⟩

/-- **A `0x78` within the limit:** the client waits on, with P2\* and one more counted. -/
theorem playRound_pending {service : Byte} (h : c.Delivered (pendingResponse service) round)
    (ha : c.Awaits)
    (hl : c.config.maxResponsePending = 0#32 ∨
      ¬ c.config.maxResponsePending < c.pendingCount + 1) :
    (c.playRound round).Awaits ∧ (c.playRound round).pendingCount = c.pendingCount + 1 ∧
      (c.playRound round).config = c.config ∧
      (c.playRound round).requestedService = c.requestedService ∧
      (c.playRound round).deadlineNs = addNs round.pollAt c.config.p2StarNs := by
  obtain ⟨receiver, hf, hr, hp, hplay⟩ := h.found ha
  have hpatient : ¬ OutOfPatience { c with receiver } := fun hout =>
    hl.elim hout.2.2.1 fun hlimit => hlimit hout.2.2.2
  rw [hplay, poll_pending (c := { c with receiver }) ha.state hf hr hp hpatient]
  have hfinished : receiver.Consistent receiver.config :=
    ⟨rfl, iff_of_true hf (by rw [hr]; decide)⟩
  exact ⟨⟨ha.state, rfl, hfinished.reset⟩, rfl, rfl, rfl, rfl⟩

/-- **The first `0x78` over the limit** ends the request. -/
theorem playRound_impatient {service : Byte} (h : c.Delivered (pendingResponse service) round)
    (ha : c.Awaits) (hne : c.config.maxResponsePending ≠ 0#32)
    (hlt : c.config.maxResponsePending < c.pendingCount + 1) :
    (c.playRound round).state = .failed ∧
      (c.playRound round).failure.code = .transportTimeout := by
  obtain ⟨receiver, hf, hr, hp, hplay⟩ := h.found ha
  rw [hplay, poll_message (c := { c with receiver }) ha.state hf hr, hp]
  have hkeep := keepalive_outcome (handleMessage { c with receiver := receiver.reset }
    (pendingResponse service) round.pollAt) [] round.pollAt
  rw [hkeep.1, hkeep.2]
  simp only [handleMessage, pendingResponse, negativeResponse, if_true, List.length_cons,
    List.length_nil, Nat.reduceAdd, Nat.lt_irrefl, if_false, List.getD_cons_succ,
    List.getD_cons_zero, if_pos (And.intro hne hlt)]
  exact ⟨rfl, rfl⟩

/-- What a client reports of a final answer has the count. -/
theorem handleMessage_count (h : FinalAnswer c.requestedService message) (now : ℕ) :
    (c.handleMessage message now).response.pendingCount = c.pendingCount := by
  cases h with
  | negative nrc final =>
    simp only [handleMessage, negativeResponse, if_true, List.length_cons, List.length_nil,
      Nat.reduceAdd, Nat.lt_irrefl, if_false, List.getD_cons_succ, List.getD_cons_zero,
      if_neg final]
    rfl
  | positive data offset distinct =>
    simp only [handleMessage, if_neg distinct, offset, ne_eq, not_true_eq_false, if_false]
    rfl

/-- **The final answer** completes the request, with the number of `0x78`s before it. -/
theorem playRound_final (h : c.Delivered message round) (ha : c.Awaits)
    (hfinal : FinalAnswer c.requestedService message) :
    (c.playRound round).state = .complete ∧ (c.playRound round).response.Reports message ∧
      (c.playRound round).response.pendingCount = c.pendingCount := by
  obtain ⟨receiver, hf, hr, hp, hplay⟩ := h.found ha
  set b : Client := { c with receiver := receiver.reset } with hb
  have hcount : (b.handleMessage message round.pollAt).response.pendingCount = c.pendingCount :=
    handleMessage_count (c := b) hfinal round.pollAt
  obtain ⟨response, session, heq, hreports⟩ := @handleMessage_final b message round.pollAt hfinal
  rw [hplay, poll_message (c := { c with receiver }) ha.state hf hr, hp]
  have hdone : (b.handleMessage message round.pollAt).state = .complete ∧
      (b.handleMessage message round.pollAt).response.Reports message := by
    rw [heq]
    exact ⟨rfl, hreports⟩
  rcases (b.handleMessage message round.pollAt).keepalive_cases [] round.pollAt with
    hkeep | ⟨_, keepalives, lastActivityNs, hkeep⟩
  · rw [hkeep]
    exact ⟨hdone.1, hdone.2, hcount⟩
  · rw [hkeep]
    exact ⟨hdone.1, hdone.2, hcount⟩

/-- A client that has failed stays as it is. -/
theorem playRound_failed (h : c.state = .failed) (round : Round) : c.playRound round = c := by
  have hpoll : ∀ now, (c.poll now).1 = c := by
    intro now
    have hbusy : c.busy = false := decide_eq_false (by rw [h]; decide)
    rw [poll_rest hbusy, keepalive_of_ne (by rw [h]; decide)]
  have hinput : ∀ i, c.input i = c := by
    intro i
    cases i with
    | frame f now =>
      rw [input, onFrame, if_neg (by rw [h]; decide), if_neg (by rw [h]; decide)]
    | poll now => exact hpoll now
  have hplay : ∀ is : List Input, is.foldl input c = c := by
    intro is
    induction is with
    | nil => rfl
    | cons i is ih => rw [List.foldl_cons, hinput, ih]
  rw [playRound, hplay, hpoll]

/-! ### A run -/

/-- **Rounds within the limit** are counted, and the client waits on. -/
theorem pendingRounds_within {service : Byte} {rounds : List Round} (ha : c.Awaits)
    (h : PendingRounds service c rounds) (h₃₂ : c.pendingCount.toNat + rounds.length < 2 ^ 32)
    (hl : c.config.maxResponsePending = 0#32 ∨
      c.pendingCount.toNat + rounds.length ≤ c.config.maxResponsePending.toNat) :
    (rounds.foldl playRound c).Awaits ∧
      (rounds.foldl playRound c).pendingCount.toNat = c.pendingCount.toNat + rounds.length ∧
      (rounds.foldl playRound c).config = c.config ∧
      (rounds.foldl playRound c).requestedService = c.requestedService := by
  induction rounds generalizing c with
  | nil => exact ⟨ha, rfl, rfl, rfl⟩
  | cons round rounds ih =>
    obtain ⟨hround, hrest⟩ := h
    rw [List.length_cons] at h₃₂ hl
    have hnext : (c.pendingCount + 1).toNat = c.pendingCount.toNat + 1 := by
      have hone : (1 : BitVec 32).toNat = 1 := rfl
      rw [BitVec.toNat_add, hone]
      exact Nat.mod_eq_of_lt (by omega)
    have hlimit : c.config.maxResponsePending = 0#32 ∨
        ¬ c.config.maxResponsePending < c.pendingCount + 1 := by
      refine hl.imp_right fun hle => ?_
      rw [BitVec.lt_def, hnext]
      omega
    obtain ⟨hawaits, hcount, hconfig, hservice, -⟩ :=
      playRound_pending (hround ha.state) ha hlimit
    have hcount' : (c.playRound round).pendingCount.toNat = c.pendingCount.toNat + 1 :=
      (congrArg BitVec.toNat hcount).trans hnext
    obtain ⟨hawaits', htotal, hconfig', hservice'⟩ := ih hawaits hrest
      (by rw [hcount']; omega) (by rw [hconfig, hcount']; exact hl.imp_right fun h => by omega)
    rw [List.foldl_cons, List.length_cons]
    refine ⟨hawaits', ?_, hconfig'.trans hconfig, hservice'.trans hservice⟩
    rw [htotal, hcount']
    omega

/-- A client that has failed stays so. -/
theorem foldl_playRound_failed (h : c.state = .failed) (rounds : List Round) :
    rounds.foldl playRound c = c := by
  induction rounds with
  | nil => rfl
  | cons round rounds ih => rw [List.foldl_cons, playRound_failed h, ih]

/-- Some of the rounds, and the rest. -/
theorem PendingRounds.append {service : Byte} {rounds more : List Round}
    (h : PendingRounds service c (rounds ++ more)) :
    PendingRounds service c rounds ∧ PendingRounds service (rounds.foldl playRound c) more := by
  induction rounds generalizing c with
  | nil => exact ⟨trivial, h⟩
  | cons round rounds ih =>
    obtain ⟨hround, hrest⟩ := h
    obtain ⟨hleft, hright⟩ := ih hrest
    exact ⟨⟨hround, hleft⟩, hright⟩

/-! ### From the request on -/

/-- What an accepted request starts with. -/
theorem request_starts {now : ℕ} (h : c.request payload now = .ok c') :
    c'.pendingCount = 0 ∧ c'.requestedService = payload.getD 0 0 ∧
      c'.receiver = c.receiver.reset := by
  unfold request at h
  split_ifs at h
  cases payload with
  | nil => cases h
  | cons service rest =>
    cases h
    simp only [beginTransfer]
    split
    · exact ⟨rfl, rfl, rfl⟩
    · exact ⟨rfl, rfl, rfl⟩

/-- A poll in the middle of a request, or at its end. -/
theorem poll_sends {now : ℕ} (hs : c.state = .sending) (hi : c.receiver.state = .idle)
    (hp : c.receiver.result = .inProgress) :
    ((c.poll now).1.state = .sending → ∃ sender, (c.poll now).1 = { c with sender }) ∧
      ((c.poll now).1.state = .awaitingResponse → ∃ sender, (c.poll now).1 =
        { c with sender, state := .awaitingResponse, deadlineNs := addNs now c.config.p2Ns }) := by
  by_cases hr : (c.sender.poll now).1.result = .inProgress
  · rw [poll_sending hs hr]
    exact ⟨fun _ => ⟨_, rfl⟩, fun h => by cases hs.symm.trans h⟩
  have hd : (c.sender.poll now).1.done = true := decide_eq_true hr
  by_cases hok : (c.sender.poll now).1.result = .ok
  · by_cases he : c.expectResponse = true
    · by_cases hp2 : now < addNs now c.config.p2Ns
      · rw [poll_sent hs he hok hi hp hp2]
        constructor
        · intro h
          cases h
        · exact fun _ => ⟨_, rfl⟩
      · -- a P2 of zero is over at once
        have hfailed : (c.poll now).1.state = .failed := by
          have hm : ¬ c.receiver.hasMessage = true := by rw [Receiver.hasMessage, hp]; decide
          have hdone : ¬ c.receiver.done = true := by rw [Receiver.done, hp]; decide
          rw [poll, if_pos hs]
          simp only [hd, hok, he, pollAnswer, Receiver.poll_idle hi, if_neg hm, if_neg hdone,
            if_pos (Nat.not_lt.1 hp2), ne_eq, not_true_eq_false, if_true, if_false,
            Bool.true_eq_false]
          exact (keepalive_outcome _ _ _).1
        rw [hfailed]
        constructor
        · intro h
          cases h
        · intro h
          cases h
    · have hcomplete : (c.poll now).1.state = .complete := by
        rw [poll, if_pos hs]
        simp only [hd, hok, eq_false_of_ne_true he, ne_eq, not_true_eq_false, if_true, if_false]
        rfl
      rw [hcomplete]
      constructor
      · intro h
        cases h
      · intro h
        cases h
  · have hfailed : (c.poll now).1.state = .failed := by
      rw [poll, if_pos hs]
      simp only [hd, hok, ne_eq, not_false_eq_true, if_true]
      rfl
    rw [hfailed]
    constructor
    · intro h
      cases h
    · intro h
      cases h

/-- A request that is sent was being sent. -/
theorem Sends.sending (h : Sends c c') : c.state = .sending := by
  cases h with
  | sent sending awaits => exact sending
  | more sending rest => exact sending

/-- **The end of a request:** the answer is awaited, and no `0x78` is counted. -/
theorem Sends.awaits (h : Sends c c') (hi : c.receiver.state = .idle)
    (hp : c.receiver.result = .inProgress) :
    c'.Awaits ∧ c'.pendingCount = c.pendingCount ∧ c'.config = c.config ∧
      c'.requestedService = c.requestedService := by
  induction h with
  | @sent c now sending awaits =>
    obtain ⟨sender, heq⟩ := (poll_sends sending hi hp).2 awaits
    rw [heq]
    have hconsistent : c.receiver.Consistent c.receiver.config :=
      ⟨rfl, iff_of_false (by rw [hi]; decide) fun h => h hp⟩
    exact ⟨⟨rfl, hp, hconsistent⟩, rfl, rfl, rfl⟩
  | @more c c' i sending rest ih =>
    obtain ⟨sender, heq⟩ : ∃ sender, c.input i = { c with sender } := by
      cases i with
      | frame f now => exact ⟨_, by rw [input, onFrame, if_pos sending]⟩
      | poll now => exact (poll_sends sending hi hp).1 rest.sending
    rw [heq] at ih
    exact ih hi hp

/-- **Pending answers.**  A client sends a request, receives `n` messages `0x78` for it and then
the final answer, each in time.  Up to the limit, and without one, it completes with the
final answer and counts `n`; over it, it has waited up to the limit, and the next `0x78`
ends the request in TransportTimeout. -/
theorem response_pending {c₀ c₁ c : Client} {payload final : List Byte} {start : ℕ}
    {pending : List Round} {last : Round} (hrequest : c₀.request payload start = .ok c₁)
    (hsends : Sends c₁ c) (hfinal : FinalAnswer (payload.getD 0 0) final)
    (h₃₂ : pending.length < 2 ^ 32) (hpending : PendingRounds (payload.getD 0 0) c pending)
    (hlast : (pending.foldl playRound c).state = .awaitingResponse →
      (pending.foldl playRound c).Delivered final last) :
    ((c.config.maxResponsePending = 0#32 ∨ pending.length ≤ c.config.maxResponsePending.toNat) →
      ((pending ++ [last]).foldl playRound c).state = .complete ∧
        ((pending ++ [last]).foldl playRound c).response.Reports final ∧
        ((pending ++ [last]).foldl playRound c).response.pendingCount.toNat = pending.length) ∧
    (c.config.maxResponsePending ≠ 0#32 → c.config.maxResponsePending.toNat < pending.length →
      (∀ k ≤ c.config.maxResponsePending.toNat,
        ((pending.take k).foldl playRound c).state = .awaitingResponse) ∧
      ∀ k, c.config.maxResponsePending.toNat < k →
        (((pending ++ [last]).take k).foldl playRound c).state = .failed ∧
          (((pending ++ [last]).take k).foldl playRound c).failure.code = .transportTimeout) := by
  obtain ⟨hcount₁, hservice₁, hreceiver₁⟩ := request_starts hrequest
  obtain ⟨ha, hcount, -, hservice⟩ := hsends.awaits (by rw [hreceiver₁]; rfl) (by rw [hreceiver₁]; rfl)
  have hzero : c.pendingCount.toNat = 0 := by
    rw [hcount, hcount₁]
    rfl
  constructor
  · intro hlimit
    obtain ⟨hawaits, htotal, -, hservice'⟩ := pendingRounds_within ha hpending (by omega)
      (hlimit.imp_right fun h => by omega)
    have hanswer : FinalAnswer (pending.foldl playRound c).requestedService final := by
      rw [hservice', hservice, hservice₁]
      exact hfinal
    obtain ⟨hcomplete, hreports, hreported⟩ :=
      playRound_final (hlast hawaits.state) hawaits hanswer
    rw [List.foldl_append]
    refine ⟨hcomplete, hreports, ?_⟩
    rw [List.foldl_cons, List.foldl_nil, hreported, htotal, hzero, Nat.zero_add]
  · intro hne hlt
    set limit := c.config.maxResponsePending.toNat with hmax
    have hwithin : ∀ k ≤ limit, ((pending.take k).foldl playRound c).Awaits ∧
        ((pending.take k).foldl playRound c).pendingCount.toNat = k ∧
        ((pending.take k).foldl playRound c).config = c.config := by
      intro k hk
      have hlen : (pending.take k).length = k := List.length_take_of_le (by omega)
      rw [← List.take_append_drop k pending] at hpending
      obtain ⟨hawaits, htotal, hconfig, -⟩ := pendingRounds_within ha hpending.append.1 (by omega)
        (.inr (by omega))
      exact ⟨hawaits, by omega, hconfig⟩
    refine ⟨fun k hk => (hwithin k hk).1.state, fun k hk => ?_⟩
    -- the round that is one too many
    obtain ⟨hawaits, htotal, hconfig⟩ := hwithin limit le_rfl
    have hsplit : pending = pending.take limit ++ pending[limit] :: pending.drop (limit + 1) := by
      rw [← List.drop_eq_getElem_cons hlt, List.take_append_drop]
    rw [hsplit] at hpending
    obtain ⟨hround, -⟩ := hpending.append.2
    have hover : c.config.maxResponsePending <
        ((pending.take limit).foldl playRound c).pendingCount + 1 := by
      have hone : (1 : BitVec 32).toNat = 1 := rfl
      have h₃₂' := c.config.maxResponsePending.isLt
      rw [BitVec.lt_def, BitVec.toNat_add, htotal, hone, Nat.mod_eq_of_lt (by omega)]
      omega
    obtain ⟨hfailed, hcode⟩ := playRound_impatient (hround hawaits.state) hawaits
      (by rw [hconfig]; exact hne) (by rw [hconfig]; exact hover)
    have htake : (pending ++ [last]).take k = pending.take limit ++
        pending[limit] :: ((pending ++ [last]).take k).drop (limit + 1) := by
      have hlen : limit < ((pending ++ [last]).take k).length := by
        rw [List.length_take, List.length_append]
        omega
      have hget : ((pending ++ [last]).take k)[limit] = pending[limit] := by
        rw [List.getElem_take, List.getElem_append_left hlt]
      have hleft : ((pending ++ [last]).take k).take limit = pending.take limit := by
        rw [List.take_take, Nat.min_eq_left (Nat.le_of_lt hk),
          List.take_append_of_le_length (Nat.le_of_lt hlt)]
      rw [← hleft, ← hget, ← List.drop_eq_getElem_cons hlen, List.take_append_drop]
    rw [htake, List.foldl_append, List.foldl_cons, foldl_playRound_failed hfailed]
    exact ⟨hfailed, hcode⟩

/-- A client that asks for the identifier `0xF190`. -/
def asked : Client :=
  match (create { transport := testerConfig }).request [0x22, 0xF1, 0x90] 0 with
  | .ok c => c
  | .error _ => create { transport := testerConfig }

/-- The frame of a negative response to it, at a time, and a poll right behind it. -/
def negativeRound (nrc : Byte) (now : ℕ) : Round where
  arrival := [.frame (makeFrame ecuConfig [0x03, 0x7F, 0x22, nrc]) now]
  pollAt := now

/-- One `0x78` and a refusal. -/
theorem response_pending_one : ∃ c, Sends asked c ∧
    ([negativeRound 0x78 10, negativeRound 0x31 20].foldl playRound c).state = .complete ∧
    ([negativeRound 0x78 10, negativeRound 0x31 20].foldl playRound c).response.pendingCount.toNat =
      1 := by
  have hrequest : (create { transport := testerConfig }).request [0x22, 0xF1, 0x90] 0 =
      .ok asked := rfl
  have hsends : Sends asked (asked.poll 0).1 := .sent (by decide +kernel) (by decide +kernel)
  have hpending : Delivered (asked.poll 0).1 (pendingResponse 0x22) (negativeRound 0x78 10) :=
    ⟨.last (by decide +kernel) (by decide +kernel), by simp [negativeRound, Input.now],
      by decide +kernel⟩
  have hlast : Delivered ((asked.poll 0).1.playRound (negativeRound 0x78 10))
      (negativeResponse 0x22 0x31) (negativeRound 0x31 20) :=
    ⟨.last (by decide +kernel) (by decide +kernel), by simp [negativeRound, Input.now],
      by decide +kernel⟩
  have hrounds : PendingRounds 0x22 (asked.poll 0).1 [negativeRound 0x78 10] :=
    ⟨fun _ => hpending, trivial⟩
  obtain ⟨hcomplete, -, hcount⟩ := (response_pending hrequest hsends
    (.negative 0x31 (by decide)) (by decide) hrounds fun _ => hlast).1 (.inr (by decide +kernel))
  exact ⟨_, hsends, hcomplete, hcount⟩

end Client

end Uds
end Canforge
