/-
# A network that loses and repeats frames

The same sender, receiver and events as in `Canforge.IsoTp.Lossless`, with every
poll time allowed and with losses and repetitions.  The frames in flight are then
still frames of the message in an order that never goes back, but with gaps and
copies (`Lossy.long`), and the receiver may have lost any number of them
(`Heard`).  It has accepted `n` Consecutive Frames, the last of them the `last`-th
of the message, where `n ≤ last` and the two agree modulo 16.  The sequence number
says nothing more; that a completed message is the payload follows from the
lengths: `n` frames fill the message only if `n = last` (`Lib.le_of_length_le`).

`Link.delivers_payload_iff` is the exact statement.  It has one exception, the
empty payload: its Single Frame has the length nibble `0`, which the receiver
takes for the CAN FD escape, and the padding for length and data
(`Config.ReadsPadding`).
-/

import Canforge.IsoTp.Lossless

namespace Canforge
namespace IsoTp

open Canforge.Core Lib

/-- The `k`-th frame of a message, from the First Frame on. -/
def frameAt (c : Config) (P : List Byte) : ℕ → FdFrame
  | 0 => firstFrame c P
  | k + 1 => consecutiveFrame c P (k + 1)

/-- The padding of a Single Frame without data can be read as length and data. -/
def Config.ReadsPadding (c : Config) : Prop :=
  c.padFrames = true ∧ c.useCanFd = false ∧ c.paddingByte ≠ 0 ∧
    2 + c.paddingByte.toNat ≤ 8 - c.address.headerSize

instance (c : Config) : Decidable c.ReadsPadding := inferInstanceAs (Decidable (_ ∧ _))

/-- A sender that has sent the First Frame and `K` Consecutive Frames, and may
have given up since. -/
structure Sending (c : Config) (P : List Byte) (K : ℕ) (s : Sender) : Prop where
  active : s.result = .inProgress → SentUpTo c P K s ∧ firstRoom c P + room c * K < P.length ∧
    (s.state = .waitingFlowControl ∨ s.state = .sendingConsecutive)
  reached : 0 < K → firstRoom c P + room c * (K - 1) < P.length

/-- The reception is over, and its message is the right one if there is one. -/
structure Settled (P : List Byte) (r : Receiver) : Prop where
  state : r.state = .finished
  message : r.result = .ok → r.payload = P

/-- What a receiver may be whose last frame was the one with index `last`. -/
inductive Heard (c cr : Config) (P : List Byte) (last : ℕ) (r : Receiver) : Prop
  | fresh (fresh : Fresh cr r)
  | settled (settled : Settled P r)
  | refusing (config : r.config = cr) (result : r.result = .inProgress)
      (state : r.state = .sendFlowControl) (status : r.pendingStatus = .overflow)
  | collecting (n : ℕ) (config : r.config = cr) (result : r.result = .inProgress)
      (state : (r.state = .sendFlowControl ∧ r.pendingStatus = .continueToSend) ∨
        r.state = .receiving)
      (expected : r.expected = P.length) (sequence : r.sequence = (last + 1) % 16)
      (le : n ≤ last) (mod : n % 16 = last % 16)
      (length : r.payload.length ≤ firstRoom c P + room c * n) (more : r.payload.length < P.length)
      (exact : n = last → r.payload = upTo (firstRoom c P) (room c) P n)

/-- The states of a sender of `P` and a receiver on a lossy network, and the frames
in flight to the receiver. -/
inductive Lossy (c cr : Config) (P : List Byte) : Sender → Receiver → List FdFrame → Prop
  | start {s : Sender} {r : Receiver} (config : s.config = c) (payload : s.payload = P)
      (result : s.result = .inProgress)
      (state : s.state =
        if P.length ≤ 7 - c.address.headerSize then .sendingSingle else .sendingFirst)
      (fresh : Fresh cr r) : Lossy c cr P s r []
  | short {s : Sender} {r : Receiver} {sr : List FdFrame} (sent : s.result ≠ .inProgress)
      (short : P.length ≤ 7 - c.address.headerSize) (frames : ∀ f ∈ sr, f = singleFrame c P)
      (heard : Fresh cr r ∨ Settled P r) : Lossy c cr P s r sr
  | long {s : Sender} {r : Receiver} (K last : ℕ) (js : List ℕ) (sending : Sending c P K s)
      (long : 7 - c.address.headerSize < P.length) (heard : Heard c cr P last r)
      (le : last ≤ K) (between : ∀ j ∈ js, last ≤ j ∧ j ≤ K) (sorted : js.Pairwise (· ≤ ·)) :
      Lossy c cr P s r (js.map (frameAt c P))

variable {c cr : Config} {P : List Byte} {s : Sender} {r : Receiver} {now K last j : ℕ}

theorem Settled.finish (res : TransferResult) (hne : res ≠ .ok) : Settled P (r.finish res) :=
  ⟨rfl, fun h => absurd h hne⟩

/-! ### The sender -/

namespace Sender

/-- **What any frame does to a sender:** it ends the transfer, or it is ignored, or a
sender that waits for flow control goes on waiting or sending. -/
theorem onFrame_cases (s : Sender) (f : FdFrame) (now : ℕ) :
    (s.onFrame f now).result ≠ .inProgress ∨ s.onFrame f now = s ∨
      ∃ s', s.onFrame f now = s' ∧ s.state = .waitingFlowControl ∧ s'.config = s.config ∧
        s'.payload = s.payload ∧ s'.offset = s.offset ∧ s'.sequence = s.sequence ∧
        s'.result = s.result ∧
        (s'.state = .waitingFlowControl ∨ s'.state = .sendingConsecutive) := by
  unfold onFrame
  by_cases hd : s.done
  · exact .inr (.inl (if_pos hd))
  rw [if_neg hd]
  cases s.config.address.body f with
  | none => exact .inr (.inl rfl)
  | some body =>
    simp only
    by_cases hpci : Pci.ofNibble (pciOf body) ≠ some .flowControl
    · rw [if_pos hpci]
      exact .inl (by simp [finish])
    rw [if_neg hpci]
    by_cases hst : s.state ≠ .waitingFlowControl
    · rw [if_pos hst]
      exact .inl (by simp [finish])
    rw [if_neg hst]
    by_cases h₃ : body.length < 3
    · rw [if_pos h₃]
      exact .inl (by simp [finish])
    rw [if_neg h₃]
    have hst := not_not.1 hst
    unfold onFlowStatus
    rcases hs : FlowStatus.ofNibble (body.getD 0 0 &&& 0x0F#8).toNat with _ | status
    · exact .inl (by simp [finish])
    cases status with
    | continueToSend => exact .inr (.inr ⟨_, rfl, hst, rfl, rfl, rfl, rfl, rfl, .inr rfl⟩)
    | overflow => exact .inl (by simp [finish])
    | wait =>
      simp only
      split_ifs
      · exact .inl (by simp [finish])
      · exact .inr (.inr ⟨_, rfl, hst, rfl, rfl, rfl, rfl, rfl, .inl hst⟩)

end Sender

theorem Sending.onFrame (h : Sending c P K s) (f : FdFrame) : Sending c P K (s.onFrame f now) := by
  refine ⟨fun hres => ?_, h.reached⟩
  rcases s.onFrame_cases f now with hdone | hsame | ⟨s', hs', _, hc, hP, hoff, hseq, hr, hst⟩
  · exact absurd hres hdone
  · rw [hsame] at hres ⊢
    exact h.active hres
  · rw [hs'] at hres ⊢
    obtain ⟨⟨hc₀, hP₀, hoff₀, hseq₀⟩, hmore, _⟩ := h.active (hr ▸ hres)
    exact ⟨⟨hc.trans hc₀, hP.trans hP₀, hoff.trans hoff₀, hseq.trans hseq₀⟩, hmore, hst⟩

/-- **A poll sends nothing or the next frame.** -/
theorem Sending.poll (h : Sending c P K s) (now : ℕ) :
    (Sending c P K (s.poll now).1 ∧ (s.poll now).2 = []) ∨
      (Sending c P (K + 1) (s.poll now).1 ∧ (s.poll now).2 = [frameAt c P (K + 1)]) := by
  by_cases hres : s.result = .inProgress
  · obtain ⟨hsent, hmore, hst | hst⟩ := h.active hres
    · left
      rcases Nat.lt_or_ge now s.deadlineNs with hin | hlate
      · rw [Sender.poll_waiting hst hin]
        exact ⟨h, rfl⟩
      · rw [Sender.poll_late hres hst hlate]
        exact ⟨⟨fun h => absurd h (by simp [Sender.finish]), h.reached⟩, rfl⟩
    · rcases Nat.lt_or_ge now s.nextSendNs with hearly | hdue
      · rw [Sender.poll_early hres hst hearly]
        exact .inl ⟨h, rfl⟩
      · obtain ⟨s', heq, hs', _, hcase⟩ := Sender.poll_consecutive now hres hst hsent hmore hdue
        rw [heq]
        refine .inr ⟨⟨fun hres' => ⟨hs', ?_⟩, fun _ => hmore⟩, rfl⟩
        rcases hcase with ⟨_, hok, _⟩ | ⟨hmore', _, _, _, hst'⟩ | ⟨hmore', _, _, hst', _⟩
        · exact absurd (hok.symm.trans hres') (by decide)
        · exact ⟨hmore', .inl hst'⟩
        · exact ⟨hmore', .inr hst'⟩
  · rw [Sender.poll_of_ne hres]
    exact .inl ⟨h, rfl⟩

/-! ### The receiver -/

theorem Heard.poll (h : Heard c cr P last r) : Heard c cr P last (r.poll now).1 := by
  cases h with
  | fresh fresh =>
    rw [Receiver.poll_idle fresh.state]
    exact .fresh fresh
  | settled settled =>
    rw [Receiver.poll_finished settled.state]
    exact .settled settled
  | refusing config result state status =>
    rcases Nat.lt_or_ge now r.fcDueNs with hearly | hdue
    · rw [Receiver.poll_early state hearly]
      exact .refusing config result state status
    · rw [Receiver.poll_overflow state status hdue]
      exact .settled (.finish _ (by decide))
  | collecting n config result state expected sequence le mod length more exact =>
    rcases state with ⟨hst, hstat⟩ | hst
    · rcases Nat.lt_or_ge now r.fcDueNs with hearly | hdue
      · rw [Receiver.poll_early hst hearly]
        exact .collecting n config result (.inl ⟨hst, hstat⟩) expected sequence le mod length more
          exact
      · rw [Receiver.poll_continue hst hstat hdue]
        exact .collecting n config result (.inr rfl) expected sequence le mod length more exact
    · rcases Nat.lt_or_ge now r.deadlineNs with hin | hlate
      · rw [Receiver.poll_receiving hst hin]
        exact .collecting n config result (.inr hst) expected sequence le mod length more exact
      · rw [Receiver.poll_late hst hlate]
        exact .settled (.finish _ (by decide))

/-- A First Frame at any receiver. -/
theorem Heard.onFirst (hm : c.address.Mirrored cr.address)
    (hlong : 7 - c.address.headerSize < P.length) (h₃₂ : P.length < 2 ^ 32)
    (h : Heard c cr P last r) : Heard c cr P 0 (r.onFrame (firstFrame c P) now) := by
  cases h with
  | fresh fresh =>
    rw [Receiver.onFrame_first (fresh.config ▸ hm) fresh.state hlong h₃₂]
    split_ifs
    · exact .refusing fresh.config fresh.result rfl rfl
    · have hlt := firstRoom_lt hlong
      exact .collecting 0 fresh.config fresh.result (.inl ⟨rfl, rfl⟩) rfl rfl le_rfl rfl
        (upTo_length.trans_le (min_le_left _ _))
        (upTo_length.trans_lt ((min_le_left _ _).trans_lt hlt)) fun _ => rfl
  | settled settled =>
    rw [Receiver.onFrame_finished settled.state]
    exact .settled settled
  | refusing config result state status =>
    rw [Receiver.onFrame_first_busy (config ▸ hm) (by rw [state]; decide) (by rw [state]; decide)
      hlong]
    exact .settled (.finish _ (by decide))
  | collecting n config result state =>
    rw [Receiver.onFrame_first_busy (config ▸ hm)
      (by rcases state with ⟨h, _⟩ | h <;> rw [h] <;> decide)
      (by rcases state with ⟨h, _⟩ | h <;> rw [h] <;> decide) hlong]
    exact .settled (.finish _ (by decide))

/-- **A Consecutive Frame at any receiver**, not older than the last one heard. -/
theorem Heard.onConsecutive (hm : c.address.Mirrored cr.address)
    (hreach : firstRoom c P + room c * j < P.length) (hlast : last ≤ j + 1)
    (h : Heard c cr P last r) :
    Heard c cr P (j + 1) (r.onFrame (consecutiveFrame c P (j + 1)) now) := by
  cases h with
  | fresh fresh =>
    rw [Receiver.onFrame_consecutive_stray (fresh.config ▸ hm) (by rw [fresh.state]; decide)
      (by rw [fresh.state]; decide)]
    exact .settled (.finish _ (by decide))
  | settled settled =>
    rw [Receiver.onFrame_finished settled.state]
    exact .settled settled
  | refusing config result state status =>
    rw [Receiver.onFrame_consecutive_stray (config ▸ hm) (by rw [state]; decide)
      (by rw [state]; decide)]
    exact .settled (.finish _ (by decide))
  | collecting n config result state expected sequence le mod length more exact =>
    rcases state with ⟨hst, hstat⟩ | hst
    · rw [Receiver.onFrame_consecutive_stray (config ▸ hm) (by rw [hst]; decide)
        (by rw [hst]; decide)]
      exact .settled (.finish _ (by decide))
    obtain ⟨pci, tail, heq, hlow, htail, hpre⟩ := Receiver.onFrame_consecutive
      (config ▸ hm : c.address.Mirrored r.config.address) (by rw [hst]; decide) P j now
    rw [heq]
    rcases Receiver.onConsecutiveFrame_cases pci tail now hst (by omega) with ⟨_, hfin⟩ |
      ⟨hseq, r', hr', hc', hexp', hseq', hpay', hcase⟩
    · rw [hfin]
      exact .settled (.finish _ (by decide))
    rw [hr']
    -- the number fits, so the frame is a later one, by a multiple of 16
    have hmod : (n + 1) % 16 = (j + 1) % 16 := by omega
    have hle : n + 1 ≤ j + 1 := by omega
    have hlen' : r'.payload.length ≤ firstRoom c P + room c * (n + 1) := by
      rw [hpay', List.length_append, List.length_take, Nat.mul_succ]
      omega
    have hexact : n + 1 = j + 1 →
        r'.payload = upTo (firstRoom c P) (room c) P (n + 1) := by
      intro hn
      obtain rfl : n = j := by omega
      obtain rfl : n = last := by omega
      rw [hpay', exact rfl, expected, upTo_append_take hreach hpre htail]
    have hstep : r'.result = r.result → r'.payload.length < r.expected →
        ((r'.state = .sendFlowControl ∧ r'.pendingStatus = .continueToSend) ∨
          r'.state = .receiving) → Heard c cr P (j + 1) r' := fun hres hlt hst' =>
      .collecting (n + 1) (hc'.trans config) (hres.trans result) hst' (hexp'.trans expected)
        (by rw [hseq', sequence]; omega) hle hmod hlen' (expected ▸ hlt) hexact
    rcases hcase with ⟨hfull, _, hfin⟩ | ⟨hlt, hres, _, _, hst'⟩ | ⟨hlt, hres, _, hst', _⟩
    · refine .settled ⟨hfin, fun _ => ?_⟩
      -- as long as the message: nothing was skipped
      rw [expected] at hfull
      have hj : j + 1 ≤ n + 1 := le_of_length_le hlen' hfull fun _ => hreach
      rw [hexact (by omega), upTo_eq_self (hfull.trans hlen')]
    · exact hstep hres hlt (.inl hst')
    · exact hstep hres hlt (.inr hst')

/-- **The Single Frame of the empty payload:** an invalid one, or its padding. -/
theorem Receiver.onFrame_empty (hm : c.address.Mirrored r.config.address) (hi : r.state = .idle) :
    r.onFrame (singleFrame c []) now =
      if c.ReadsPadding then
        { r with payload := List.replicate c.paddingByte.toNat c.paddingByte,
                 expected := c.paddingByte.toNat, result := .ok, state := .finished }
      else r.finish .invalidPdu := by
  have hh := c.address.headerSize_le
  have hbody := body_makeFrame hm (List.cons_ne_nil (BitVec.ofNat 8 0) [])
    (by simp only [List.length_cons, List.length_nil]; omega)
  rw [singleFrame, List.length_nil,
    onFrame_of_single (by rw [hi]; decide) hbody (by simp [Sender.pciOf]),
    onSingleFrame, if_neg (by rw [hi]; decide)]
  by_cases hpad : c.padFrames = true ∧ c.useCanFd = false
  · have hlen : c.padding 1 = c.paddingByte ::
        List.replicate (6 - c.address.headerSize) c.paddingByte := by
      rw [Config.padding, if_pos hpad, ← List.replicate_succ]
      congr 1
      omega
    have hzero : c.paddingByte = 0 ↔ c.paddingByte.toNat = 0 :=
      ⟨fun h => by rw [h]; rfl, fun h => BitVec.eq_of_toNat_eq h⟩
    simp only [List.length_cons, List.length_nil, Nat.zero_add, hlen, List.singleton_append,
      List.getD_cons_zero, List.getD_cons_succ, List.length_replicate, List.drop_succ_cons,
      List.drop_zero, List.take_replicate]
    rw [if_pos (by decide), if_neg (by omega)]
    split_ifs with hbad hread hread
    · obtain ⟨_, _, hne, hle⟩ := hread
      rcases hbad with h₀ | hlong
      · exact absurd (hzero.2 h₀) hne
      · omega
    · rfl
    · rw [min_eq_left (by omega)]
    · refine absurd ⟨hpad.1, hpad.2, fun h => hbad (.inl (hzero.1 h)), ?_⟩ hread
      by_contra hlong
      exact hbad (.inr (by omega))
  · have hlen : c.padding 1 = [] := if_neg hpad
    simp only [List.length_cons, List.length_nil, Nat.zero_add, hlen, List.append_nil,
      List.getD_cons_zero]
    rw [if_pos (by decide), if_pos (by decide), if_neg fun h => hpad ⟨h.1, h.2.1⟩]

/-- A Single Frame at any receiver, if it is not one of padding. -/
theorem Settled.onSingle (hm : c.address.Mirrored cr.address)
    (hshort : P.length ≤ 7 - c.address.headerSize) (hP : P ≠ [] ∨ ¬ c.ReadsPadding)
    (h : Fresh cr r ∨ Settled P r) : Settled P (r.onFrame (singleFrame c P) now) := by
  rcases h with fresh | settled
  · cases P with
    | nil =>
      rw [Receiver.onFrame_empty (fresh.config ▸ hm) fresh.state,
        if_neg (hP.resolve_left fun h => h rfl)]
      exact .finish _ (by decide)
    | cons b bs =>
      rw [Receiver.onFrame_single (fresh.config ▸ hm) fresh.state (by simp) hshort]
      exact ⟨rfl, fun _ => rfl⟩
  · rw [Receiver.onFrame_finished settled.state]
    exact settled

/-! ### The network -/

namespace Lossy

variable {sr : List FdFrame} {f : FdFrame}

theorem pollSender (h : Lossy c cr P s r sr) :
    Lossy c cr P (s.poll now).1 r (sr ++ (s.poll now).2) := by
  cases h with
  | start config payload result state fresh =>
    split_ifs at state with hlen
    · rw [Sender.poll_single result state]
      subst config payload
      exact .short (by simp) hlen (by simp) (.inl fresh)
    · have hlong : 7 - c.address.headerSize < P.length := by omega
      obtain ⟨s', heq, hs', _, hst⟩ :=
        Sender.poll_first now result state config payload hlong
      rw [heq]
      exact .long 0 0 [0]
        ⟨fun _ => ⟨hs', firstRoom_lt hlong, .inl hst⟩, fun h => absurd h (by simp)⟩
        hlong (.fresh fresh) le_rfl (by simp) (by simp)
  | short sent short frames heard =>
    rw [Sender.poll_of_ne sent, List.append_nil]
    exact .short sent short frames heard
  | long K last js sending long heard le between sorted =>
    rcases sending.poll now with ⟨hs', hout⟩ | ⟨hs', hout⟩
    · rw [hout, List.append_nil]
      exact .long K last js hs' long heard le between sorted
    · rw [hout, ← List.map_singleton, ← List.map_append]
      refine .long (K + 1) last (js ++ [K + 1]) hs' long heard (by omega) ?_ ?_
      · intro j hj
        rcases List.mem_append.1 hj with hj | hj
        · have := between j hj
          omega
        · obtain rfl := List.mem_singleton.1 hj
          omega
      · rw [List.pairwise_append]
        refine ⟨sorted, List.pairwise_singleton _ _, fun i hi j hj => ?_⟩
        obtain rfl := List.mem_singleton.1 hj
        have := between i hi
        omega

theorem pollReceiver (h : Lossy c cr P s r sr) : Lossy c cr P s (r.poll now).1 sr := by
  cases h with
  | start config payload result state fresh =>
    rw [Receiver.poll_idle fresh.state]
    exact .start config payload result state fresh
  | short sent short frames heard =>
    refine .short sent short frames ?_
    rcases heard with fresh | settled
    · rw [Receiver.poll_idle fresh.state]
      exact .inl fresh
    · rw [Receiver.poll_finished settled.state]
      exact .inr settled
  | long K last js sending long heard le between sorted =>
    exact .long K last js sending long heard.poll le between sorted

/-- Whatever reaches the sender. -/
theorem onFrame (h : Lossy c cr P s r sr) : Lossy c cr P (s.onFrame f now) r sr := by
  cases h with
  | start config payload result state fresh =>
    rcases s.onFrame_cases f now with hdone | hsame | ⟨_, _, hst, _⟩
    · by_cases hlen : P.length ≤ 7 - c.address.headerSize
      · exact .short hdone hlen (by simp) (.inl fresh)
      · exact .long 0 0 [] ⟨fun h => absurd h hdone, fun h => absurd h (by simp)⟩ (by omega)
          (.fresh fresh) le_rfl (by simp) .nil
    · rw [hsame]
      exact .start config payload result state fresh
    · rw [hst] at state
      split_ifs at state
  | short sent short frames heard =>
    rw [Sender.onFrame_of_ne sent]
    exact .short sent short frames heard
  | long K last js sending long heard le between sorted =>
    exact .long K last js (sending.onFrame f) long heard le between sorted

/-- The next frame reaches the receiver and stays in flight. -/
theorem again (hm : c.address.Mirrored cr.address) (hP : P ≠ [] ∨ ¬ c.ReadsPadding)
    (h₃₂ : P.length < 2 ^ 32) (h : Lossy c cr P s r (f :: sr)) :
    Lossy c cr P s (r.onFrame f now) (f :: sr) := by
  generalize hq : f :: sr = q at h
  cases h with
  | start => cases hq
  | short sent short frames heard =>
    obtain rfl : f = singleFrame c P := frames f (hq ▸ List.mem_cons_self)
    exact .short sent short frames (.inr (.onSingle hm short hP heard))
  | long K last js sending long heard le between sorted =>
    cases js with
    | nil => cases hq
    | cons j js =>
      obtain ⟨rfl, rfl⟩ := List.cons.inj hq
      obtain ⟨hlast, hK⟩ := between j List.mem_cons_self
      have hheard : Heard c cr P j (r.onFrame (frameAt c P j) now) := by
        cases j with
        | zero => exact heard.onFirst hm long h₃₂
        | succ j =>
          have := sending.reached (by omega)
          have := Nat.mul_le_mul_left (room c) (show j ≤ K - 1 by omega)
          exact heard.onConsecutive hm (by omega) hlast
      refine .long K j (j :: js) sending long hheard hK (fun i hi => ⟨?_, (between i hi).2⟩) sorted
      rcases List.mem_cons.1 hi with rfl | hi
      · exact le_rfl
      · exact List.rel_of_pairwise_cons sorted hi

/-- The next frame leaves the network. -/
theorem lose (h : Lossy c cr P s r (f :: sr)) : Lossy c cr P s r sr := by
  generalize hq : f :: sr = q at h
  cases h with
  | start => cases hq
  | short sent short frames heard =>
    exact .short sent short (fun g hg => frames g (hq ▸ List.mem_cons_of_mem f hg)) heard
  | long K last js sending long heard le between sorted =>
    cases js with
    | nil => cases hq
    | cons j js =>
      obtain ⟨rfl, rfl⟩ := List.cons.inj hq
      exact .long K last js sending long heard le
        (fun i hi => between i (List.mem_cons_of_mem j hi))
        sorted.of_cons

end Lossy

namespace Link

variable {l l' : Link} {e : LinkEvent} {s₀ : Sender}

/-- **One event, whatever the network does.** -/
theorem lossy_step (hm : c.address.Mirrored cr.address) (hP : P ≠ [] ∨ ¬ c.ReadsPadding)
    (h₃₂ : P.length < 2 ^ 32) (h : Lossy c cr P l.sender l.receiver l.toReceiver)
    (hstep : l.step e = some l') : Lossy c cr P l'.sender l'.receiver l'.toReceiver := by
  obtain ⟨s, r, sr, rs⟩ := l
  cases e with
  | pollSender now => cases hstep; exact h.pollSender
  | pollReceiver now => cases hstep; exact h.pollReceiver
  | deliverToReceiver now =>
    cases sr with
    | nil => cases hstep
    | cons f sr => cases hstep; exact (h.again hm hP h₃₂).lose
  | deliverToSender now =>
    cases rs with
    | nil => cases hstep
    | cons f rs => cases hstep; exact h.onFrame
  | loseToReceiver =>
    cases sr with
    | nil => cases hstep
    | cons f sr => cases hstep; exact h.lose
  | loseToSender =>
    cases rs with
    | nil => cases hstep
    | cons f rs => cases hstep; exact h
  | repeatToReceiver now =>
    cases sr with
    | nil => cases hstep
    | cons f sr => cases hstep; exact h.again hm hP h₃₂
  | repeatToSender now =>
    cases rs with
    | nil => cases hstep
    | cons f rs => cases hstep; exact h.onFrame

/-- **What a reception on a lossy network can deliver.** -/
theorem lossy (hm : c.address.Mirrored cr.address) (hP : P ≠ [] ∨ ¬ c.ReadsPadding)
    (hbegin : ({ config := c } : Sender).begin P now = .ok s₀)
    (h : Reach step (fun _ _ => True) (start s₀ cr) l) :
    Lossy c cr P l.sender l.receiver l.toReceiver := by
  obtain ⟨_, _, h₃₂, hc, hpay, hres, hst⟩ := Sender.begin_spec hbegin
  have h₀ : Lossy c cr P s₀ { config := cr } [] := .start hc hpay hres hst ⟨rfl, rfl, rfl⟩
  induction h with
  | refl => exact h₀
  | tail _ _ hstep ih => exact lossy_step hm hP h₃₂ ih hstep

/-- **A completed message is the payload**, on every lossy network, unless the payload
is empty and the receiver reads the padding of its Single Frame. -/
theorem delivers_payload_iff (hm : c.address.Mirrored cr.address)
    (hbegin : ({ config := c } : Sender).begin P now = .ok s₀) :
    (∀ l, Reach step (fun _ _ => True) (start s₀ cr) l → l.receiver.result = .ok →
      l.receiver.message = P) ↔ P ≠ [] ∨ ¬ c.ReadsPadding := by
  constructor
  · intro hall
    by_contra hcon
    obtain ⟨hnil, hpad⟩ : P = [] ∧ c.ReadsPadding := by tauto
    subst hnil
    obtain ⟨_, _, _, hc, hpay, hres, hst⟩ := Sender.begin_spec hbegin
    rw [if_pos (by simp)] at hst
    -- the sender is polled and its frame delivered
    have hpoll : s₀.poll 0 = _ := Sender.poll_single hres hst
    rw [hpay, hc] at hpoll
    have hframe : ({ config := cr } : Receiver).onFrame (singleFrame c []) 0 = _ :=
      Receiver.onFrame_empty hm rfl
    rw [if_pos hpad] at hframe
    have hsent : (start s₀ cr).step (.pollSender 0) =
        some ⟨(s₀.poll 0).1, { config := cr }, [singleFrame c []], []⟩ := by
      rw [step, start, hpoll]
      rfl
    have hmsg := hall _ ((Reach.refl.tail trivial hsent).tail (e := .deliverToReceiver 0)
      trivial rfl) (by simp only [hframe])
    simp only [hframe, Receiver.message, List.replicate_eq_nil_iff] at hmsg
    exact hpad.2.2.1 (BitVec.eq_of_toNat_eq hmsg)
  · intro hP l hl hok
    have h := lossy hm hP hbegin hl
    obtain ⟨s, r, sr, rs⟩ := l
    simp only at h hok ⊢
    cases h with
    | start config payload result state fresh =>
      exact absurd (fresh.result.symm.trans hok) (by decide)
    | short sent short frames heard =>
      rcases heard with fresh | settled
      · exact absurd (fresh.result.symm.trans hok) (by decide)
      · exact settled.message hok
    | long K last js sending long heard le between sorted =>
      cases heard with
      | fresh fresh => exact absurd (fresh.result.symm.trans hok) (by decide)
      | settled settled => exact settled.message hok
      | refusing config result state status => exact absurd (result.symm.trans hok) (by decide)
      | collecting n config result => exact absurd (result.symm.trans hok) (by decide)

/-- A run of 15 bytes whose last frame arrives twice. -/
theorem delivers_payload_repeated : ∃ l,
    Reach step (fun _ _ => True) (start fifteenBytes ecuConfig) l ∧
      l.receiver.message = fifteenBytes.payload := by
  have hm : testerConfig.address.Mirrored ecuConfig.address := ⟨rfl, rfl, rfl, rfl, rfl⟩
  have hbegin : ({ config := testerConfig } : Sender).begin fifteenBytes.payload 0 =
      .ok fifteenBytes := by decide
  obtain ⟨l, hreach, hok⟩ : ∃ l,
      Reach step (fun _ _ => True) (start fifteenBytes ecuConfig) l ∧ l.receiver.result = .ok :=
    Reach.exists_of_run
      [.pollSender 0, .deliverToReceiver 1, .pollReceiver 2, .deliverToSender 3, .pollSender 4,
        .pollSender 5, .deliverToReceiver 6, .repeatToReceiver 7, .deliverToReceiver 8] (by decide)
  exact ⟨l, hreach, (delivers_payload_iff hm hbegin).2 (.inl (by decide)) l hreach hok⟩

/-- **The exception.**  With padding byte 2 an empty payload arrives as two bytes. -/
theorem empty_payload_delivers_padding :
    ∃ s₀ l, ({ config := { testerConfig with paddingByte := 2 } } : Sender).begin [] 0 = .ok s₀ ∧
      Reach step (fun _ _ => True) (start s₀ ecuConfig) l ∧
      l.receiver.result = .ok ∧ l.receiver.message = [2, 2] := by
  obtain ⟨l, hreach, hl⟩ : ∃ l, Reach step (fun _ _ => True)
      (start { config := { testerConfig with paddingByte := 2 }, state := .sendingSingle }
        ecuConfig) l ∧ l.receiver.result = .ok ∧ l.receiver.message = [2, 2] :=
    Reach.exists_of_run [.pollSender 0, .deliverToReceiver 0] (by decide)
  exact ⟨_, l, by rfl, hreach, hl⟩

end Link

end IsoTp
end Canforge
