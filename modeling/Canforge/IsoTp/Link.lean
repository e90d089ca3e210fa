/-
# The states of a loss-free transfer

A sender and a receiver with mirrored addresses, and the frames in flight in
either direction.  `Transfer c cr P` lists the states such a pair goes through
for a message `P`: nothing sent, the Single Frame or the First Frame in flight,
the receiver about to clear the next block, the clearance in flight, `n` frames of
the block in flight with the sender still sending, done with the block or done
with the message, and the message received.  In all of them the receiver holds
the bytes of the first `k` Consecutive Frames, the next `n` are in flight in order,
the sender has sent `k + n`, and as long as there are blocks both sides count the
same frames.  Each of the four things that can happen keeps it (`Transfer.pollSender`,
`Transfer.pollReceiver`, `Transfer.deliver`, `Transfer.deliverFlowControl`).
-/

import Canforge.IsoTp.Transfer

namespace Canforge
namespace IsoTp

open Canforge.Core Lib

/-- A receiver that has seen nothing of the message yet. -/
structure Fresh (cr : Config) (r : Receiver) : Prop where
  config : r.config = cr
  state : r.state = .idle
  result : r.result = .inProgress

/-- A receiver with a whole message that nobody has read. -/
structure Holds (cr : Config) (P : List Byte) (r : Receiver) : Prop where
  config : r.config = cr
  state : r.state = .finished
  result : r.result = .ok
  payload : r.payload = P

/-- A receiver in the middle of `P`, with the first `k` Consecutive Frames. -/
structure Collected (c cr : Config) (P : List Byte) (k : ℕ) (r : Receiver) : Prop where
  config : r.config = cr
  result : r.result = .inProgress
  payload : r.payload = upTo (firstRoom c P) (room c) P k
  expected : r.expected = P.length
  sequence : r.sequence = (k + 1) % 16
  more : firstRoom c P + room c * k < P.length

/-- The `n` Consecutive Frames behind the `k`-th one. -/
def framesFrom (c : Config) (P : List Byte) (k n : ℕ) : List FdFrame :=
  (List.range' (k + 1) n).map (consecutiveFrame c P)

variable {c cr : Config} {P : List Byte} {s : Sender} {r : Receiver} {k n now : ℕ}

theorem Fresh.poll (h : Fresh cr r) (now : ℕ) : r.poll now = (r, []) := Receiver.poll_idle h.state

theorem Fresh.reset (h : Fresh cr r) : Fresh cr r.reset := ⟨h.config, rfl, rfl⟩

theorem Holds.reset (h : Holds cr P r) : Fresh cr r.reset := ⟨h.config, rfl, rfl⟩

/-- **A Single Frame reaches a receiver that has seen nothing.** -/
theorem Fresh.single (hm : c.address.Mirrored cr.address) (h₁ : 1 ≤ P.length)
    (h₇ : P.length ≤ 7 - c.address.headerSize) (now : ℕ) (h : Fresh cr r) :
    Holds cr P (r.onFrame (singleFrame c P) now) := by
  rw [Receiver.onFrame_single (h.config.symm ▸ hm) h.state h₁ h₇]
  exact ⟨h.config, rfl, rfl, rfl⟩

theorem framesFrom_succ :
    framesFrom c P k (n + 1) = consecutiveFrame c P (k + 1) :: framesFrom c P (k + 1) n := by
  rw [framesFrom, List.range'_succ, List.map_cons, framesFrom]

theorem framesFrom_append :
    framesFrom c P k n ++ [consecutiveFrame c P (k + n + 1)] = framesFrom c P k (n + 1) := by
  rw [framesFrom, framesFrom, List.range'_1_concat, List.map_append, List.map_singleton,
    Nat.add_right_comm]

/-- **The next Consecutive Frame at a receiver in the middle of `P`.** -/
theorem Collected.onFrame (now : ℕ) (hm : c.address.Mirrored cr.address) (h : Collected c cr P k r)
    (hst : r.state = .receiving) :
    ∃ r', r.onFrame (consecutiveFrame c P (k + 1)) now = r' ∧
      ((P.length ≤ firstRoom c P + room c * (k + 1) ∧ r'.result = .ok ∧ r'.state = .finished ∧
          r'.payload = P ∧ r'.config = cr) ∨
        (Collected c cr P (k + 1) r' ∧
          ((cr.blockSize ≠ 0 ∧ cr.blockSize.toNat ≤ (r.framesInBlock + 1) % 256 ∧
              r'.state = .sendFlowControl ∧ r'.pendingStatus = .continueToSend) ∨
            ((cr.blockSize ≠ 0 → (r.framesInBlock + 1) % 256 < cr.blockSize.toNat) ∧
              r'.state = .receiving ∧ r'.framesInBlock = (r.framesInBlock + 1) % 256)))) := by
  obtain ⟨hc, hres, hpay, hexp, hseq, hmore⟩ := h
  have hlen : r.payload.length = firstRoom c P + room c * k := by
    rw [hpay, upTo_length, min_eq_left hmore.le]
  obtain ⟨pci, tail, heq, hlow, htail, hpre⟩ :=
    Receiver.onFrame_consecutive (hc ▸ hm : c.address.Mirrored r.config.address)
      (by rw [hst]; decide) P k now
  have htake : r.payload ++ tail.take (r.expected - r.payload.length) =
      upTo (firstRoom c P) (room c) P (k + 1) := by
    rw [hpay, hexp, upTo_append_take hmore hpre htail]
  have hk : firstRoom c P + room c * (k + 1) = firstRoom c P + room c * k + room c := by
    rw [Nat.mul_succ, Nat.add_assoc]
  rw [heq]
  rcases Receiver.onConsecutiveFrame_cases pci tail now hst (by omega) with
    ⟨hne, _⟩ | ⟨_, r', hr', hc', hexp', hseq', hpay', hcase⟩
  · exact absurd (hlow.trans hseq.symm) hne
  rw [htake] at hpay'
  have hlen' : r'.payload.length = min (firstRoom c P + room c * (k + 1)) P.length := by
    rw [hpay', upTo_length]
  refine ⟨r', hr', ?_⟩
  rcases hcase with ⟨hfull, hok, hfin⟩ | ⟨hlt, hres', hcase⟩ | ⟨hlt, hres', hcase⟩
  · have hfull : P.length ≤ firstRoom c P + room c * (k + 1) := by omega
    exact .inl ⟨hfull, hok, hfin, hpay'.trans (upTo_eq_self hfull), hc'.trans hc⟩
  · exact .inr ⟨⟨hc'.trans hc, hres'.trans hres, hpay', hexp'.trans hexp,
      by rw [hseq', hseq]; omega, by omega⟩, .inl (hc ▸ hcase)⟩
  · exact .inr ⟨⟨hc'.trans hc, hres'.trans hres, hpay', hexp'.trans hexp,
      by rw [hseq', hseq]; omega, by omega⟩, .inr (hc ▸ hcase)⟩

/-- The states of a sender of `P`, a receiver and the frames in flight to the
receiver and back, while nothing is lost and no timeout fires. -/
inductive Transfer (c cr : Config) (P : List Byte) :
    Sender → Receiver → List FdFrame → List FdFrame → Prop
  | start {s : Sender} {r : Receiver} (config : s.config = c) (payload : s.payload = P)
      (result : s.result = .inProgress)
      (state : s.state =
        if P.length ≤ 7 - c.address.headerSize then .sendingSingle else .sendingFirst)
      (fresh : Fresh cr r) : Transfer c cr P s r [] []
  | single {s : Sender} {r : Receiver} (result : s.result = .ok)
      (short : P.length ≤ 7 - c.address.headerSize) (fresh : Fresh cr r) :
      Transfer c cr P s r [singleFrame c P] []
  | first {s : Sender} {r : Receiver} (sent : SentUpTo c P 0 s) (result : s.result = .inProgress)
      (state : s.state = .waitingFlowControl) (long : 7 - c.address.headerSize < P.length)
      (fresh : Fresh cr r) : Transfer c cr P s r [firstFrame c P] []
  | clearing {s : Sender} {r : Receiver} (k : ℕ) (sent : SentUpTo c P k s)
      (result : s.result = .inProgress) (state : s.state = .waitingFlowControl)
      (collected : Collected c cr P k r)
      (due : r.state = .sendFlowControl) (status : r.pendingStatus = .continueToSend) :
      Transfer c cr P s r [] []
  | cleared {s : Sender} {r : Receiver} (k : ℕ) (sent : SentUpTo c P k s)
      (result : s.result = .inProgress) (state : s.state = .waitingFlowControl)
      (collected : Collected c cr P k r)
      (receiving : r.state = .receiving) (block : r.framesInBlock = 0) :
      Transfer c cr P s r [] [makeFlowControl cr .continueToSend]
  | streaming {s : Sender} {r : Receiver} (k n : ℕ) (sent : SentUpTo c P (k + n) s)
      (result : s.result = .inProgress) (state : s.state = .sendingConsecutive)
      (more : firstRoom c P + room c * (k + n) < P.length) (collected : Collected c cr P k r)
      (receiving : r.state = .receiving) (size : s.blockSize = cr.blockSize)
      (block : cr.blockSize ≠ 0 → s.framesInBlock = r.framesInBlock + n ∧
        s.framesInBlock < cr.blockSize.toNat) :
      Transfer c cr P s r (framesFrom c P k n) []
  | blockSent {s : Sender} {r : Receiver} (k n : ℕ) (sent : SentUpTo c P (k + n + 1) s)
      (result : s.result = .inProgress) (state : s.state = .waitingFlowControl)
      (more : firstRoom c P + room c * (k + n + 1) < P.length) (collected : Collected c cr P k r)
      (receiving : r.state = .receiving) (size : cr.blockSize ≠ 0)
      (block : r.framesInBlock + n + 1 = cr.blockSize.toNat) :
      Transfer c cr P s r (framesFrom c P k (n + 1)) []
  | lastSent {s : Sender} {r : Receiver} (k n : ℕ) (result : s.result = .ok)
      (last : firstRoom c P + room c * (k + n) < P.length)
      (full : P.length ≤ firstRoom c P + room c * (k + n + 1)) (collected : Collected c cr P k r)
      (receiving : r.state = .receiving)
      (block : cr.blockSize ≠ 0 → r.framesInBlock + n + 1 ≤ cr.blockSize.toNat) :
      Transfer c cr P s r (framesFrom c P k (n + 1)) []
  | delivered {s : Sender} {r : Receiver} (result : s.result = .ok) (config : r.config = cr)
      (received : r.result = .ok) (finished : r.state = .finished) (message : r.payload = P) :
      Transfer c cr P s r [] []

namespace Transfer

variable {sr rs : List FdFrame} {f : FdFrame}

/-- **A poll of the sender before its N_Bs deadline.** -/
theorem pollSender (h : Transfer c cr P s r sr rs)
    (hin : s.state = .waitingFlowControl → now < s.deadlineNs) :
    Transfer c cr P (s.poll now).1 r (sr ++ (s.poll now).2) rs := by
  cases h with
  | start config payload result state fresh =>
    split_ifs at state with hlen
    · rw [Sender.poll_single result state]
      subst config payload
      exact .single rfl hlen fresh
    · have hlong : 7 - c.address.headerSize < P.length := by omega
      obtain ⟨s', heq, hs', hres, hst⟩ :=
        Sender.poll_first now result state config payload hlong
      rw [heq]
      exact .first hs' hres hst hlong fresh
  | single result short fresh =>
    rw [Sender.poll_of_ne (by rw [result]; decide)]
    exact .single result short fresh
  | first sent result state long fresh =>
    rw [Sender.poll_waiting state (hin state)]
    exact .first sent result state long fresh
  | clearing k sent result state collected due status =>
    rw [Sender.poll_waiting state (hin state)]
    exact .clearing k sent result state collected due status
  | cleared k sent result state collected receiving block =>
    rw [Sender.poll_waiting state (hin state)]
    exact .cleared k sent result state collected receiving block
  | streaming k n sent result state more collected receiving size block =>
    rcases Nat.lt_or_ge now s.nextSendNs with hearly | hdue
    · rw [Sender.poll_early result state hearly, List.append_nil]
      exact .streaming k n sent result state more collected receiving size block
    · obtain ⟨s', heq, hs', hsize', hcase⟩ :=
        Sender.poll_consecutive now result state sent more hdue
      have hbs : cr.blockSize ≠ 0 → r.framesInBlock + n + 1 ≤ cr.blockSize.toNat ∧
          (s.framesInBlock + 1) % 256 = r.framesInBlock + n + 1 := by
        intro hb
        have := cr.blockSize.isLt
        obtain ⟨h₁, h₂⟩ := block hb
        omega
      rw [heq, framesFrom_append]
      rcases hcase with ⟨hfull, hok, _⟩ | ⟨hmore, hres, hb, hle, hst⟩ |
        ⟨hmore, hres, hlt, hst, hfib⟩
      · exact .lastSent k n hok more hfull collected receiving fun hb => (hbs hb).1
      · rw [size] at hb hle
        obtain ⟨h₁, h₂⟩ := hbs hb
        exact .blockSent k n hs' hres hst hmore collected receiving hb (by omega)
      · refine .streaming k (n + 1) hs' hres hst hmore collected receiving (hsize'.trans size)
          fun hb => ?_
        obtain ⟨h₁, h₂⟩ := hbs hb
        have := hlt (size ▸ hb)
        rw [size] at this
        exact ⟨hfib.trans (by omega), hfib.trans_lt this⟩
  | blockSent k n sent result state more collected receiving size block =>
    rw [Sender.poll_waiting state (hin state), List.append_nil]
    exact .blockSent k n sent result state more collected receiving size block
  | lastSent k n result last full collected receiving block =>
    rw [Sender.poll_of_ne (by rw [result]; decide), List.append_nil]
    exact .lastSent k n result last full collected receiving block
  | delivered result config received finished message =>
    rw [Sender.poll_of_ne (by rw [result]; decide)]
    exact .delivered result config received finished message

/-- **A poll of the receiver before its N_Cr deadline.** -/
theorem pollReceiver (h : Transfer c cr P s r sr rs)
    (hin : r.state = .receiving → now < r.deadlineNs) :
    Transfer c cr P s (r.poll now).1 sr (rs ++ (r.poll now).2) := by
  cases h with
  | start config payload result state fresh =>
    rw [Receiver.poll_idle fresh.state]
    exact .start config payload result state fresh
  | single result short fresh =>
    rw [Receiver.poll_idle fresh.state]
    exact .single result short fresh
  | first sent result state long fresh =>
    rw [Receiver.poll_idle fresh.state]
    exact .first sent result state long fresh
  | clearing k sent result state collected due status =>
    rcases Nat.lt_or_ge now r.fcDueNs with hearly | hdue
    · rw [Receiver.poll_early due hearly]
      exact .clearing k sent result state collected due status
    · rw [Receiver.poll_continue due status hdue, collected.config]
      exact .cleared k sent result state
        ⟨rfl, collected.result, collected.payload, collected.expected, collected.sequence,
          collected.more⟩ rfl rfl
  | cleared k sent result state collected receiving block =>
    rw [Receiver.poll_receiving receiving (hin receiving), List.append_nil]
    exact .cleared k sent result state collected receiving block
  | streaming k n sent result state more collected receiving size block =>
    rw [Receiver.poll_receiving receiving (hin receiving)]
    exact .streaming k n sent result state more collected receiving size block
  | blockSent k n sent result state more collected receiving size block =>
    rw [Receiver.poll_receiving receiving (hin receiving)]
    exact .blockSent k n sent result state more collected receiving size block
  | lastSent k n result last full collected receiving block =>
    rw [Receiver.poll_receiving receiving (hin receiving)]
    exact .lastSent k n result last full collected receiving block
  | delivered result config received finished message =>
    rw [Receiver.poll_finished finished]
    exact .delivered result config received finished message

/-- **The next frame reaches the receiver.** -/
theorem deliver (now : ℕ) (hm : c.address.Mirrored cr.address) (h₁ : 1 ≤ P.length)
    (hmax : 7 - c.address.headerSize < P.length → P.length ≤ cr.maxReceiveLength)
    (h₃₂ : P.length < 2 ^ 32)
    (h : Transfer c cr P s r (f :: sr) rs) : Transfer c cr P s (r.onFrame f now) sr rs := by
  generalize hq : f :: sr = q at h
  cases h with
  | start => cases hq
  | single result short fresh =>
    obtain ⟨rfl, rfl⟩ := List.cons.inj hq
    rw [Receiver.onFrame_single (fresh.config ▸ hm) fresh.state h₁ short]
    exact .delivered result fresh.config rfl rfl rfl
  | first sent result state long fresh =>
    obtain ⟨rfl, rfl⟩ := List.cons.inj hq
    rw [Receiver.onFrame_first (fresh.config ▸ hm) fresh.state long h₃₂,
      if_neg (by rw [fresh.config]; have := hmax long; omega)]
    exact .clearing 0 sent result state
      ⟨fresh.config, fresh.result, rfl, rfl, rfl, firstRoom_lt long⟩ rfl rfl
  | clearing => cases hq
  | cleared => cases hq
  | streaming k n sent result state more collected receiving size block =>
    cases n with
    | zero => cases hq
    | succ n =>
      rw [framesFrom_succ] at hq
      obtain ⟨rfl, rfl⟩ := List.cons.inj hq
      obtain ⟨r', heq, hcase⟩ := collected.onFrame now hm receiving
      rw [heq]
      have hk : k + (n + 1) = k + 1 + n := by omega
      rw [hk] at sent more
      rcases hcase with ⟨hfull, _⟩ | ⟨hcol, ⟨hb, hle, _⟩ | ⟨_, hst, hfib⟩⟩
      · have := Nat.mul_le_mul_left (room c) (show k + 1 ≤ k + 1 + n by omega)
        omega
      · have := block hb
        have := cr.blockSize.isLt
        omega
      · refine .streaming (k + 1) n sent result state more hcol hst size fun hb => ?_
        have := block hb
        have := cr.blockSize.isLt
        omega
  | blockSent k n sent result state more collected receiving size block =>
    rw [framesFrom_succ] at hq
    obtain ⟨rfl, rfl⟩ := List.cons.inj hq
    obtain ⟨r', heq, hcase⟩ := collected.onFrame now hm receiving
    rw [heq]
    have hb256 := cr.blockSize.isLt
    rcases hcase with ⟨hfull, _⟩ | ⟨hcol, ⟨_, hle, hst, hstat⟩ | ⟨hlt, hst, hfib⟩⟩
    · have := Nat.mul_le_mul_left (room c) (show k + 1 ≤ k + n + 1 by omega)
      omega
    · obtain rfl : n = 0 := by omega
      exact .clearing (k + 1) sent result state hcol hst hstat
    · have := hlt size
      obtain ⟨n, rfl⟩ : ∃ m, n = m + 1 := ⟨n - 1, by omega⟩
      have hk : k + (n + 1) + 1 = k + 1 + n + 1 := by omega
      rw [hk] at sent more
      exact .blockSent (k + 1) n sent result state more hcol hst size (by omega)
  | lastSent k n result last full collected receiving block =>
    rw [framesFrom_succ] at hq
    obtain ⟨rfl, rfl⟩ := List.cons.inj hq
    obtain ⟨r', heq, hcase⟩ := collected.onFrame now hm receiving
    rw [heq]
    have hb256 := cr.blockSize.isLt
    rcases hcase with ⟨hfull, hok, hfin, hpay, hcfg⟩ | ⟨hcol, hcase⟩
    · have hn : n = 0 := by
        by_contra hne
        have := Nat.mul_le_mul_left (room c) (show k + 1 ≤ k + n by omega)
        omega
      subst hn
      exact .delivered result hcfg hok hfin hpay
    · have hmore := hcol.more
      obtain ⟨n, rfl⟩ : ∃ m, n = m + 1 := by
        rcases n with _ | n
        · rw [Nat.add_zero] at full; omega
        · exact ⟨n, rfl⟩
      have hk : k + (n + 1) = k + 1 + n := by omega
      rw [hk] at last full
      rcases hcase with ⟨hb, hle, _⟩ | ⟨_, hst, hfib⟩
      · have := block hb
        omega
      · refine .lastSent (k + 1) n result last full hcol hst fun hb => ?_
        have := block hb
        omega
  | delivered => cases hq

/-- **The clearance reaches the sender.** -/
theorem deliverFlowControl (now : ℕ) (hm : c.address.Mirrored cr.address)
    (h : Transfer c cr P s r sr (f :: rs)) : Transfer c cr P (s.onFrame f now) r sr rs := by
  generalize hq : f :: rs = q at h
  cases h with
  | cleared k sent result state collected receiving block =>
    obtain ⟨rfl, rfl⟩ := List.cons.inj hq
    rw [Sender.onFrame_continue result state (sent.config ▸ hm.symm)]
    refine .streaming k 0 ⟨sent.config, sent.payload, sent.offset, sent.sequence⟩ result rfl
      collected.more collected receiving rfl fun hb => ⟨block.symm, ?_⟩
    have : cr.blockSize.toNat ≠ 0 := fun h0 => hb (BitVec.eq_of_toNat_eq (by simpa using h0))
    simp only
    omega
  | _ => cases hq

/-! ### What a phase says about the two sides -/

/-- Neither side has failed. -/
theorem results (h : Transfer c cr P s r sr rs) :
    (s.result = .inProgress ∨ s.result = .ok) ∧ (r.result = .inProgress ∨ r.result = .ok) := by
  cases h with
  | start config payload result state fresh => exact ⟨.inl result, .inl fresh.result⟩
  | single result short fresh => exact ⟨.inr result, .inl fresh.result⟩
  | first sent result state long fresh => exact ⟨.inl result, .inl fresh.result⟩
  | clearing k sent result state collected => exact ⟨.inl result, .inl collected.result⟩
  | cleared k sent result state collected => exact ⟨.inl result, .inl collected.result⟩
  | streaming k n sent result state more collected => exact ⟨.inl result, .inl collected.result⟩
  | blockSent k n sent result state more collected => exact ⟨.inl result, .inl collected.result⟩
  | lastSent k n result last full collected => exact ⟨.inr result, .inl collected.result⟩
  | delivered result config received => exact ⟨.inr result, .inr received⟩

theorem receiver_config (h : Transfer c cr P s r sr rs) : r.config = cr := by
  cases h with
  | start config payload result state fresh => exact fresh.config
  | single result short fresh => exact fresh.config
  | first sent result state long fresh => exact fresh.config
  | clearing k sent result state collected => exact collected.config
  | cleared k sent result state collected => exact collected.config
  | streaming k n sent result state more collected => exact collected.config
  | blockSent k n sent result state more collected => exact collected.config
  | lastSent k n result last full collected => exact collected.config
  | delivered result config => exact config

/-- **A completed reception is the payload**, and the end of the transfer. -/
theorem of_received (h : Transfer c cr P s r sr rs) (hr : r.result = .ok) :
    s.result = .ok ∧ Holds cr P r ∧ sr = [] ∧ rs = [] := by
  cases h with
  | delivered result config received finished message =>
    exact ⟨result, ⟨config, finished, received, message⟩, rfl, rfl⟩
  | start config payload result state fresh => cases fresh.result.symm.trans hr
  | single result short fresh => cases fresh.result.symm.trans hr
  | first sent result state long fresh => cases fresh.result.symm.trans hr
  | clearing k sent result state collected => cases collected.result.symm.trans hr
  | cleared k sent result state collected => cases collected.result.symm.trans hr
  | streaming k n sent result state more collected => cases collected.result.symm.trans hr
  | blockSent k n sent result state more collected => cases collected.result.symm.trans hr
  | lastSent k n result last full collected => cases collected.result.symm.trans hr

/-- **A sender that is done waits for nothing**, and with nothing in flight the
message has arrived. -/
theorem of_sent (h : Transfer c cr P s r sr rs) (hs : s.result = .ok) :
    rs = [] ∧ (sr = [] → r.result = .ok) := by
  cases h with
  | single result short fresh => exact ⟨rfl, fun h => absurd h (List.cons_ne_nil _ _)⟩
  | lastSent k n result last full collected =>
    exact ⟨rfl, fun h => absurd h (by rw [framesFrom_succ]; exact List.cons_ne_nil _ _)⟩
  | delivered result config received => exact ⟨rfl, fun _ => received⟩
  | start config payload result => cases result.symm.trans hs
  | first sent result => cases result.symm.trans hs
  | clearing k sent result => cases result.symm.trans hs
  | cleared k sent result => cases result.symm.trans hs
  | streaming k n sent result => cases result.symm.trans hs
  | blockSent k n sent result => cases result.symm.trans hs

/-- A receiver that has seen nothing yet may be any fresh one. -/
theorem of_fresh {r' : Receiver} (h : Transfer c cr P s r sr rs) (hr : Fresh cr r)
    (hr' : Fresh cr r') : Transfer c cr P s r' sr rs := by
  cases h with
  | start config payload result state fresh => exact .start config payload result state hr'
  | single result short fresh => exact .single result short hr'
  | first sent result state long fresh => exact .first sent result state long hr'
  | clearing k sent result state collected due => cases hr.state.symm.trans due
  | cleared k sent result state collected receiving => cases hr.state.symm.trans receiving
  | streaming k n sent result state more collected receiving =>
    cases hr.state.symm.trans receiving
  | blockSent k n sent result state more collected receiving =>
    cases hr.state.symm.trans receiving
  | lastSent k n result last full collected receiving => cases hr.state.symm.trans receiving
  | delivered result config received => cases hr.result.symm.trans received

end Transfer

end IsoTp
end Canforge
