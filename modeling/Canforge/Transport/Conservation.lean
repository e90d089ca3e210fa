/-
# What the virtual bus carries

The runs of a fixed set of open participants that send, receive, advance and
drain, with a ledger of the frames each participant had accepted and was handed.
In every state of every run the accepted frames of a participant are, in order,
those it has transmitted, the one on the bus and those it has queued, and a
participant whose filters let everything through and whose queue never
overflowed has received exactly the completed transmissions
(`Ledger.Conserved`).
-/

import Canforge.Transport.Medium

namespace Canforge
namespace Transport

open Canforge.Core

/-- The calls of the claimed runs. -/
def VirtualMedium.Call.IsTraffic : VirtualMedium.Call → Prop
  | .send _ _ | .receive _ _ | .advance _ | .drain _ => True
  | _ => False

instance (c : VirtualMedium.Call) : Decidable c.IsTraffic := by
  cases c <;> unfold VirtualMedium.Call.IsTraffic <;> infer_instance

/-- Filters that let every identifier through. -/
def VirtualBus.AcceptsAll (p : VirtualBus) : Prop := ∀ id, acceptedBy p.filters id = true

namespace VirtualMedium

/-- The transmissions that have ended. -/
def completed (m : VirtualMedium) : List Transmission :=
  if m.inFlight then m.history.dropLast else m.history

/-- The transmission on the bus, if there is one. -/
def onBus (m : VirtualMedium) : List Transmission :=
  if m.inFlight then m.history.getLast?.toList else []

/-- The frames among some transmissions that a participant sent. -/
def framesOf (who : ℕ) (ts : List Transmission) : List FdFrame :=
  (ts.filter fun t => t.sender == who).map (·.frame)

/-- What the completed transmissions bring a participant: its own only with loopback. -/
def offers (m : VirtualMedium) (who : ℕ) : List FdFrame :=
  (m.completed.filter fun t => m.loopback || t.sender != who).map (·.delivered)

/-- The participants that take part: all open, nothing queued and nothing received yet. -/
structure Opened (m : VirtualMedium) : Prop where
  attached : Attached m
  idle : m.inFlight = false
  fresh : m.history = []
  ready : ∀ p ∈ m.participants,
    p.isOpen = true ∧ p.outbox = [] ∧ p.inbox = [] ∧ p.stats.dropped = 0

end VirtualMedium

open VirtualMedium

/-- A medium, with the frames that were accepted from the participants and handed to them. -/
structure Ledger where
  medium : VirtualMedium
  accepted : List (ℕ × FdFrame) := []
  received : List (ℕ × FdFrame) := []

namespace Ledger

/-- The frames of one participant among those of all. -/
def of (who : ℕ) (frames : List (ℕ × FdFrame)) : List FdFrame :=
  (frames.filter fun f => f.1 == who).map Prod.snd

/-- What a call adds to the accepted frames. -/
def newlyAccepted : Call → Reply → List (ℕ × FdFrame)
  | .send who frame, .sent (.ok ()) => [(who, frame)]
  | _, _ => []

/-- What a call adds to the received frames. -/
def newlyReceived : Call → Reply → List (ℕ × FdFrame)
  | .receive who _, .received (.ok frame) => [(who, frame)]
  | _, _ => []

/-- One call. -/
def step (s : Ledger) (c : Call) : Option Ledger :=
  (s.medium.call c).map fun (m, reply) =>
    ⟨m, s.accepted ++ newlyAccepted c reply, s.received ++ newlyReceived c reply⟩

/-- Nothing is lost, duplicated or reordered. -/
structure Conserved (s : Ledger) : Prop where
  /-- The accepted frames are those transmitted, the one on the bus and those queued. -/
  queues : ∀ p ∈ s.medium.participants, of p.handle s.accepted =
    framesOf p.handle s.medium.completed ++ framesOf p.handle s.medium.onBus ++ p.outbox
  /-- Only participants have transmitted. -/
  senders : ∀ t ∈ s.medium.completed ++ s.medium.onBus, ∃ p ∈ s.medium.participants,
    p.handle = t.sender
  /-- The slot of the medium holds the transmission on the bus. -/
  slot : if s.medium.inFlight then ∃ t, s.medium.onBus = [t] ∧ s.medium.current = t.delivered ∧
      s.medium.currentSender = some t.sender
    else s.medium.onBus = []
  /-- What was received is a part of the completed transmissions, in their order. -/
  inOrder : ∀ p ∈ s.medium.participants,
    (of p.handle s.received ++ p.inbox).Sublist (s.medium.offers p.handle)
  /-- It is all of them for a participant that accepts all and never overflowed. -/
  complete : ∀ p ∈ s.medium.participants, p.AcceptsAll → p.stats.dropped = 0 →
    of p.handle s.received ++ p.inbox = s.medium.offers p.handle

end Ledger

/-! ### The books of a participant -/

namespace VirtualMedium

variable {m : VirtualMedium} {handles : List ℕ} {accepted received : ℕ → List FdFrame}

/-- What holds of one participant, given what was accepted from it and handed to it. -/
structure Account (accepted received : ℕ → List FdFrame) (m : VirtualMedium) (p : VirtualBus) :
    Prop where
  isOpen : p.isOpen = true
  queued : accepted p.handle = framesOf p.handle m.history ++ p.outbox
  inOrder : (received p.handle ++ p.inbox).Sublist (m.offers p.handle)
  complete : p.AcceptsAll → p.stats.dropped = 0 →
    received p.handle ++ p.inbox = m.offers p.handle

/-- What holds of the medium. -/
structure Books (handles : List ℕ) (accepted received : ℕ → List FdFrame) (m : VirtualMedium) :
    Prop where
  attached : Attached m
  same : m.participants.map (·.handle) = handles
  slot : m.inFlight = true → ∃ earlier t, m.history = earlier ++ [t] ∧
    m.current = t.delivered ∧ m.currentSender = some t.sender
  senders : ∀ t ∈ m.history, ∃ p ∈ m.participants, p.handle = t.sender
  durations : ∀ t ∈ m.history, t.duration = (frameTiming t.frame m.timing).nanoseconds
  accounts : ∀ p ∈ m.participants, Account accepted received m p

theorem completed_of_idle (h : m.inFlight = false) : m.completed = m.history := if_neg (by simp [h])

theorem completed_of_slot {earlier : List Transmission} {t : Transmission}
    (hfly : m.inFlight = true) (h : m.history = earlier ++ [t]) : m.completed = earlier := by
  rw [completed, if_pos hfly, h, List.dropLast_concat]

theorem framesOf_append (who : ℕ) (ts ts' : List Transmission) :
    framesOf who (ts ++ ts') = framesOf who ts ++ framesOf who ts' := by
  rw [framesOf, List.filter_append, List.map_append]
  rfl

theorem framesOf_self {who : ℕ} {t : Transmission} (h : t.sender = who) :
    framesOf who [t] = [t.frame] := by
  simp [framesOf, h]

theorem framesOf_other {who : ℕ} {t : Transmission} (h : t.sender ≠ who) :
    framesOf who [t] = [] := by
  simp [framesOf, h]

/-- A start moves the head of the winner's queue to the bus. -/
theorem Account.occupy (h : Books handles accepted received m) (hidle : m.inFlight = false)
    {w p : VirtualBus} {frame : FdFrame} {earlier later : List VirtualBus}
    (hwins : VirtualBus.Wins m.participants w frame earlier later) (hp : p ∈ m.participants) :
    Account accepted received (m.occupy w frame) (m.settled w frame p) := by
  have hacc := h.accounts p hp
  have hhandle := (m.settled_polite w frame p).handle
  have hsame : (m.settled w frame p).inbox = p.inbox ∧
      (m.settled w frame p).isOpen = p.isOpen ∧
      (m.settled w frame p).filters = p.filters ∧
      (m.settled w frame p).stats.dropped = p.stats.dropped := by
    unfold settled
    split_ifs <;> exact ⟨rfl, rfl, rfl, rfl⟩
  obtain ⟨hinbox, hopen, hfilters, hdropped⟩ := hsame
  have hoffers : (m.occupy w frame).offers = m.offers := by
    funext who
    rw [offers, offers, completed_of_slot rfl (m.occupy_history w frame), completed_of_idle hidle]
    rfl
  refine ⟨hopen.trans hacc.isOpen, ?_, ?_, fun hall hzero => ?_⟩
  · rw [hhandle, settled_outbox, occupy_history, framesOf_append, hacc.queued, List.append_assoc]
    split_ifs with hw
    · have hself : framesOf w.handle [m.record w frame] = [frame] := framesOf_self rfl
      obtain ⟨-, rest, hout⟩ := VirtualBus.head_eq_some_iff.1 hwins.head
      rw [h.attached.inj hp (Wins.mem hwins) hw, hself, hout]
      rfl
    · rw [framesOf_other (Ne.symm hw)]
      rfl
  · rw [hhandle, hinbox, hoffers]
    exact hacc.inOrder
  · rw [hhandle, hinbox, hoffers]
    refine hacc.complete (fun id => ?_) (hdropped ▸ hzero)
    rw [← hfilters]
    exact hall id

/-- A completion offers the frame to everyone. -/
theorem Account.complete_transmission (h : Books handles accepted received m) (hfly : m.inFlight = true)
    {p : VirtualBus} (hp : p ∈ m.participants) : Account accepted received
      m.completeTransmission (p.offered m m.current m.currentSender) := by
  have hacc := h.accounts p hp
  obtain ⟨earlier, t, hhistory, hcurrent, hsender⟩ := h.slot hfly
  have hhandle := (offered_polite m m.current m.currentSender p).handle
  have hloop : m.completeTransmission.loopback = m.loopback := by
    unfold completeTransmission
    split_ifs <;> rfl
  have hoffers : m.completeTransmission.offers p.handle = m.offers p.handle ++
      if m.loopback || t.sender != p.handle then [t.delivered] else [] := by
    rw [offers, offers, completed_of_idle (complete_inFlight m), complete_history,
      completed_of_slot hfly hhistory, hhistory, hloop, List.filter_append, List.map_append]
    congr 1
    split_ifs with hc <;> simp [hc]
  have hold : (received p.handle ++ p.inbox).Sublist
      (m.completeTransmission.offers p.handle) := by
    rw [hoffers]
    exact hacc.inOrder.trans (List.sublist_append_left _ _)
  have hqueued : accepted p.handle = framesOf p.handle m.completeTransmission.history ++
      p.outbox := by
    rw [complete_history]
    exact hacc.queued
  rw [hcurrent, hsender]
  unfold VirtualBus.offered
  split_ifs with hown hclosed hfilter hfull
  · -- its own frame, and no loopback
    have hnone : m.completeTransmission.offers p.handle = m.offers p.handle := by
      rw [hoffers, if_neg, List.append_nil]
      simp [hown.2, Option.some.inj hown.1]
    exact ⟨hacc.isOpen, hqueued, hold, fun hall hzero => by rw [hnone]; exact hacc.complete hall hzero⟩
  · rw [hacc.isOpen] at hclosed
    cases hclosed
  · refine ⟨hacc.isOpen, hqueued, hold, fun hall _ => ?_⟩
    rw [hall] at hfilter
    cases hfilter
  · refine ⟨hacc.isOpen, hqueued, hold, fun _ hzero => ?_⟩
    cases hzero
  all_goals
    have hsome : m.completeTransmission.offers p.handle = m.offers p.handle ++ [t.delivered] := by
      rw [hoffers, if_pos]
      cases hl : m.loopback with
      | true => rfl
      | false => simpa using fun he => hown ⟨congrArg some he, hl⟩
    refine ⟨hacc.isOpen, hqueued, ?_, fun hall hzero => ?_⟩
    · rw [hsome, ← List.append_assoc]
      exact hacc.inOrder.append_right _
    · rw [hsome, ← List.append_assoc]
      exact congrArg (· ++ _) (hacc.complete hall hzero)

theorem Books.kept : Kept (Books handles accepted received) where
  start m h := by
    have hkept := Attached.kept.start m h.attached
    rcases start_cases m with ⟨heq, -⟩ | ⟨hidle, w, frame, earlier, later, hwins, heq⟩
    · rwa [heq]
    · rw [heq] at hkept ⊢
      have hsame : (m.occupy w frame).participants.map (·.handle) = handles := by
        rw [← h.same, occupy_participants, List.map_map]
        exact List.map_congr_left fun p _ => (m.settled_polite w frame p).handle
      refine ⟨hkept, hsame, fun _ => ⟨m.history, m.record w frame, rfl, rfl, rfl⟩, fun t ht => ?_,
        fun t ht => ?_, fun q hq => ?_⟩
      · have hsender : ∃ p ∈ m.participants, p.handle = t.sender := by
          rcases List.mem_append.1 ht with ht | ht
          · exact h.senders t ht
          · exact ⟨w, Wins.mem hwins, by rw [List.mem_singleton.1 ht]⟩
        obtain ⟨p, hp, hpt⟩ := hsender
        exact ⟨m.settled w frame p, List.mem_map_of_mem hp,
          (m.settled_polite w frame p).handle.trans hpt⟩
      · rcases List.mem_append.1 ht with ht | ht
        · exact h.durations t ht
        · rw [List.mem_singleton.1 ht]
          rfl
      · obtain ⟨p, hp, rfl⟩ := List.mem_map.1 hq
        exact Account.occupy h hidle hwins hp
  complete m h := by
    cases hfly : m.inFlight with
    | false => rwa [complete_of_idle hfly]
    | true =>
      have htiming : m.completeTransmission.timing = m.timing := by
        unfold completeTransmission
        split_ifs <;> rfl
      have hmap : m.completeTransmission.participants =
          m.participants.map fun p => p.offered m m.current m.currentSender := by
        rw [complete_participants, hfly]
        rfl
      have hsame : m.completeTransmission.participants.map (·.handle) = handles := by
        rw [← h.same, hmap, List.map_map]
        exact List.map_congr_left fun p _ => (offered_polite m _ _ p).handle
      refine ⟨Attached.kept.complete m h.attached, hsame, fun hf => ?_, fun t ht => ?_,
        fun t ht => ?_, fun q hq => ?_⟩
      · rw [complete_inFlight] at hf
        cases hf
      · rw [complete_history] at ht
        obtain ⟨p, hp, hpt⟩ := h.senders t ht
        rw [hmap]
        exact ⟨_, List.mem_map_of_mem hp, (offered_polite m _ _ p).handle.trans hpt⟩
      · rw [complete_history] at ht
        rw [htiming]
        exact h.durations t ht
      · rw [hmap] at hq
        obtain ⟨p, hp, rfl⟩ := List.mem_map.1 hq
        exact Account.complete_transmission h hfly hp
  clock m now h := ⟨Attached.kept.clock m now h.attached, h.same, h.slot, h.senders, h.durations,
    fun p hp => ⟨(h.accounts p hp).isOpen, (h.accounts p hp).queued, (h.accounts p hp).inOrder,
      (h.accounts p hp).complete⟩⟩

/-- A change of one participant, and of what was accepted from it and handed to it. -/
theorem Books.modify {accepted' received' : ℕ → List FdFrame} {who : ℕ}
    {f : VirtualBus → VirtualBus} (h : Books handles accepted received m)
    (hf : ∀ p ∈ m.participants, p.handle = who → Polite p (f p) ∧
      Account accepted' received' m (f p))
    (hother : ∀ p, p ≠ who → accepted' p = accepted p ∧ received' p = received p) :
    Books handles accepted' received' (m.modify who f) := by
  have hhandle : ∀ p ∈ m.participants,
      (if p.handle = who then f p else p).handle = p.handle := by
    intro p hp
    split_ifs with hwho
    · exact (hf p hp hwho).1.handle
    · rfl
  have hattached : Attached (m.modify who f) :=
    Attached.keptByCalls.modify m who f (fun p hp hwho => (hf p hp hwho).1) h.attached
  refine ⟨hattached, ?_, h.slot, fun t ht => ?_, h.durations, fun q hq => ?_⟩
  · rw [← h.same]
    exact (List.map_map ..).trans (List.map_congr_left hhandle)
  · obtain ⟨p, hp, hpt⟩ := h.senders t ht
    exact ⟨_, List.mem_map_of_mem hp, (hhandle p hp).trans hpt⟩
  · obtain ⟨p, hp, rfl⟩ := List.mem_map.1 hq
    split_ifs with hwho
    · obtain ⟨hopen, hqueued, hinOrder, hcomplete⟩ := (hf p hp hwho).2
      exact ⟨hopen, hqueued, hinOrder, hcomplete⟩
    · obtain ⟨hopen, hqueued, hinOrder, hcomplete⟩ := h.accounts p hp
      obtain ⟨hacc, hrec⟩ := hother p.handle hwho
      exact ⟨hopen, hacc ▸ hqueued, hrec ▸ hinOrder, hrec ▸ hcomplete⟩

theorem of_append (who : ℕ) (l l' : List (ℕ × FdFrame)) :
    Ledger.of who (l ++ l') = Ledger.of who l ++ Ledger.of who l' := by
  rw [Ledger.of, List.filter_append, List.map_append]
  rfl

theorem of_self (who : ℕ) (frame : FdFrame) : Ledger.of who [(who, frame)] = [frame] := by
  simp [Ledger.of]

theorem of_other {who p : ℕ} (h : p ≠ who) (frame : FdFrame) : Ledger.of p [(who, frame)] = [] := by
  simp [Ledger.of, h.symm]

variable {books : List (ℕ × FdFrame)}

theorem Books.send {p : VirtualBus} {who : ℕ} (frame : FdFrame)
    (h : Books handles (Ledger.of · books) received m) (hfind : m.find who = some p) :
    Books handles
      (Ledger.of · (books ++
        Ledger.newlyAccepted (.send who frame) (.sent (m.send p frame).2)))
      received (m.send p frame).1 := by
  obtain ⟨hmem, rfl⟩ := find_mem hfind
  have hacc := h.accounts p hmem
  unfold VirtualMedium.send
  split_ifs with hopen hfd hfull
  · rw [hacc.isOpen] at hopen
    cases hopen
  · simpa [Ledger.newlyAccepted] using h
  · have hnew : books ++ Ledger.newlyAccepted (.send p.handle frame)
        (.sent (.error queueFull)) = books := List.append_nil _
    rw [hnew]
    refine h.modify (fun q hq _ => ⟨⟨rfl, fun hc => hc⟩, ?_⟩) fun _ _ => ⟨rfl, rfl⟩
    obtain ⟨hopen, hqueued, hinOrder, hcomplete⟩ := h.accounts q hq
    exact ⟨hopen, hqueued, hinOrder, hcomplete⟩
  · have hnew : ∀ q, Ledger.of q (books ++ Ledger.newlyAccepted (.send p.handle frame)
        (.sent (.ok ()))) = Ledger.of q books ++ Ledger.of q [(p.handle, frame)] :=
      fun q => of_append q _ _
    refine h.modify (fun q hq hwho => ?_) fun q hne => ⟨?_, rfl⟩
    · obtain rfl := h.attached.inj hq hmem hwho
      refine ⟨⟨rfl, fun _ hc => absurd hc hopen⟩, hacc.isOpen, ?_, hacc.inOrder, hacc.complete⟩
      rw [hnew, of_self, hacc.queued, List.append_assoc]
    · rw [hnew, of_other hne, List.append_nil]

theorem Books.take {accepted : ℕ → List FdFrame} {p : VirtualBus} {who : ℕ} (timeout : ℤ)
    (h : Books handles accepted (Ledger.of · books) m) (hmem : p ∈ m.participants)
    (hwho : p.handle = who) :
    Books handles accepted
      (Ledger.of · (books ++
        Ledger.newlyReceived (.receive who timeout) (.received (m.take p).2)))
      (m.take p).1 := by
  subst hwho
  have hacc := h.accounts p hmem
  unfold VirtualMedium.take
  split
  · simpa [Ledger.newlyReceived] using h
  · next frame rest hinbox =>
    have hnew : ∀ q, Ledger.of q (books ++ Ledger.newlyReceived (.receive p.handle timeout)
        (.received (.ok frame))) = Ledger.of q books ++ Ledger.of q [(p.handle, frame)] :=
      fun q => of_append q _ _
    refine h.modify (fun q hq hwho => ?_) fun q hne => ⟨rfl, ?_⟩
    · obtain rfl := h.attached.inj hq hmem hwho
      have hlist : Ledger.of q.handle (books ++ Ledger.newlyReceived (.receive q.handle timeout)
          (.received (.ok frame))) ++ rest = Ledger.of q.handle books ++ q.inbox := by
        rw [hnew, of_self, hinbox, List.append_assoc]
        rfl
      refine ⟨⟨rfl, fun hc => hc⟩, hacc.isOpen, hacc.queued, ?_, fun hall hzero => ?_⟩
      · rw [hlist]
        exact hacc.inOrder
      · rw [hlist]
        exact hacc.complete hall hzero
    · rw [hnew, of_other hne, List.append_nil]

/-- The participant a call names is still there. -/
theorem Books.find {accepted received : ℕ → List FdFrame} (h : Books handles accepted received m)
    {who : ℕ} (hwho : who ∈ handles) : ∃ p, m.find who = some p ∧ p ∈ m.participants ∧
      p.handle = who := by
  rw [← h.same] at hwho
  obtain ⟨p, hp, hpw⟩ := List.mem_map.1 hwho
  cases hfind : m.find who with
  | none =>
    have := List.find?_eq_none.1 hfind p hp
    simp [hpw] at this
  | some q => exact ⟨q, rfl, find_mem hfind⟩

theorem Books.receive {accepted : ℕ → List FdFrame} {p : VirtualBus} {who : ℕ} (timeout : ℤ)
    (h : Books handles accepted (Ledger.of · books) m) (hfind : m.find who = some p) :
    Books handles accepted
      (Ledger.of · (books ++
        Ledger.newlyReceived (.receive who timeout) (.received (m.receive p timeout).2)))
      (m.receive p timeout).1 := by
  obtain ⟨hmem, rfl⟩ := find_mem hfind
  have hwho : p.handle ∈ handles := h.same ▸ List.mem_map_of_mem hmem
  have htake : ∀ m' : VirtualMedium, Books handles accepted (Ledger.of · books) m' →
      Books handles accepted (Ledger.of · (books ++ Ledger.newlyReceived (.receive p.handle timeout)
        (.received (m'.take ((m'.find p.handle).getD p)).2)))
        (m'.take ((m'.find p.handle).getD p)).1 := by
    intro m' h'
    obtain ⟨q, hq, hqmem, hqwho⟩ := h'.find hwho
    rw [hq]
    exact h'.take timeout hqmem hqwho
  unfold VirtualMedium.receive
  split_ifs with hopen hwait
  · rw [(h.accounts p hmem).isOpen] at hopen
    cases hopen
  · exact htake _ (Books.kept.advance h timeout)
  · exact htake _ h

end VirtualMedium

namespace Ledger

variable {m₀ : VirtualMedium} {s s' : Ledger}

/-- The books of a ledger. -/
def Audited (handles : List ℕ) (s : Ledger) : Prop :=
  Books handles (of · s.accepted) (of · s.received) s.medium

theorem audited_step {handles : List ℕ} (h : Audited handles s) {c : Call} (hc : c.IsTraffic)
    (hstep : s.step c = some s') : Audited handles s' := by
  obtain ⟨⟨m, reply⟩, hcall, rfl⟩ := Option.map_eq_some_iff.1 hstep
  cases c with
  | send who frame =>
    obtain ⟨p, hfind, heq⟩ := Option.map_eq_some_iff.1 hcall
    obtain ⟨rfl, rfl⟩ := Prod.mk.inj heq
    have := Books.send frame h hfind
    simpa [Audited, newlyReceived] using this
  | receive who timeout =>
    obtain ⟨p, hfind, heq⟩ := Option.map_eq_some_iff.1 hcall
    obtain ⟨rfl, rfl⟩ := Prod.mk.inj heq
    have := Books.receive timeout h hfind
    simpa [Audited, newlyAccepted] using this
  | advance duration =>
    obtain ⟨rfl, rfl⟩ := Prod.mk.inj (Option.some.inj hcall)
    simpa [Audited, newlyAccepted, newlyReceived] using Books.kept.advance h duration
  | drain maxFrames =>
    obtain ⟨rfl, rfl⟩ := Prod.mk.inj (Option.some.inj hcall)
    simpa [Audited, newlyAccepted, newlyReceived] using Books.kept.drain h maxFrames
  | _ => exact hc.elim

theorem audited_opened (h : Opened m₀) :
    Audited (m₀.participants.map (·.handle)) ⟨m₀, [], []⟩ where
  attached := h.attached
  same := rfl
  slot hfly := by
    rw [h.idle] at hfly
    cases hfly
  senders t ht := by
    rw [h.fresh] at ht
    cases ht
  durations t ht := by
    rw [h.fresh] at ht
    cases ht
  accounts p hp := by
    obtain ⟨hopen, hout, hin, -⟩ := h.ready p hp
    have hoffers : m₀.offers p.handle = [] := by
      rw [offers, completed_of_idle h.idle, h.fresh]
      rfl
    refine ⟨hopen, ?_, ?_, fun _ _ => ?_⟩
    · rw [h.fresh, hout]
      rfl
    · rw [hin, hoffers]
      exact .refl _
    · rw [hin, hoffers]
      rfl

theorem history_eq {handles : List ℕ} (h : Audited handles s) :
    s.medium.history = s.medium.completed ++ s.medium.onBus := by
  cases hfly : s.medium.inFlight with
  | false => rw [completed_of_idle hfly, onBus, if_neg (by simp [hfly]), List.append_nil]
  | true =>
    obtain ⟨earlier, t, hhistory, -⟩ := h.slot hfly
    rw [completed_of_slot hfly hhistory, onBus, if_pos hfly, hhistory, List.getLast?_concat]
    rfl

theorem conserved_of_audited {handles : List ℕ} (h : Audited handles s) : s.Conserved where
  queues p hp := by
    rw [(h.accounts p hp).queued, history_eq h, framesOf_append]
  senders t ht := h.senders t (history_eq h ▸ ht)
  slot := by
    split_ifs with hfly
    · obtain ⟨earlier, t, hhistory, hcurrent, hsender⟩ := h.slot hfly
      refine ⟨t, ?_, hcurrent, hsender⟩
      rw [onBus, if_pos hfly, hhistory, List.getLast?_concat]
      rfl
    · exact if_neg hfly
  inOrder p hp := (h.accounts p hp).inOrder
  complete p hp := (h.accounts p hp).complete

end Ledger

end Transport
end Canforge
