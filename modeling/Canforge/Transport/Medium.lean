/-
# What a call does to the medium

A start of a transmission is decided by one pass over the participants
(`arbitrate_spec`), and `start_cases` says all it can do.  `advance` and `drain`
are made of starts, completions and moves of the clock, so what these three keep
the two loops keep (`Kept.advance`, `Kept.drain`).  `WellFormed` is what every
reachable medium satisfies: the participants stand in the order they were
attached in, one that is closed has nothing queued, and a frame in flight ends
later than now.
-/

import Canforge.Transport.VirtualBus

namespace Canforge
namespace Transport

open Canforge.Core

namespace VirtualBus

theorem head_eq_some_iff {p : VirtualBus} {frame : FdFrame} :
    p.head = some frame ↔ p.isOpen = true ∧ ∃ rest, p.outbox = frame :: rest := by
  unfold head
  split_ifs with h
  · simp [h, List.head?_eq_some_iff]
  · simp [h]

/-- Every head that contends satisfies `P`. -/
def Heads (P : FdFrame → Prop) (ps : List VirtualBus) : Prop :=
  ∀ p ∈ ps, ∀ frame, p.head = some frame → P frame

theorem heads_nil (P : FdFrame → Prop) : Heads P [] := by
  intro p hp
  cases hp

theorem heads_cons_none {P : FdFrame → Prop} {p : VirtualBus} {ps : List VirtualBus}
    (h : p.head = none) : Heads P (p :: ps) ↔ Heads P ps := by
  simp [Heads, h]

theorem heads_cons_some {P : FdFrame → Prop} {p : VirtualBus} {ps : List VirtualBus}
    {frame : FdFrame} (h : p.head = some frame) : Heads P (p :: ps) ↔ P frame ∧ Heads P ps := by
  simp [Heads, h]

/-- `w` wins with `frame`: the first among those with the smallest key. -/
structure Wins (ps : List VirtualBus) (w : VirtualBus) (frame : FdFrame)
    (earlier later : List VirtualBus) : Prop where
  split : ps = earlier ++ w :: later
  head : w.head = some frame
  first : Heads (fun g => frame.id.arbitrationKey < g.id.arbitrationKey) earlier
  least : Heads (fun g => frame.id.arbitrationKey ≤ g.id.arbitrationKey) later

/-- A participant that does not beat the winner may stand in front of it. -/
theorem Wins.cons {ps earlier later : List VirtualBus} {w p : VirtualBus} {frame : FdFrame}
    (h : Wins ps w frame earlier later)
    (hp : ∀ g, p.head = some g → frame.id.arbitrationKey < g.id.arbitrationKey) :
    Wins (p :: ps) w frame (p :: earlier) later where
  split := congrArg _ h.split
  head := h.head
  first := by
    cases hg : p.head with
    | none => exact (heads_cons_none hg).2 h.first
    | some g => exact (heads_cons_some hg).2 ⟨hp g hg, h.first⟩
  least := h.least

/-- The winner so far stays the winner, or a later head with a smaller key replaces it. -/
theorem arbitrate_some {b w : VirtualBus} {best frame : FdFrame} {ps : List VirtualBus}
    (h : arbitrate (some (b, best)) ps = some (w, frame)) :
    (w = b ∧ frame = best ∧
      Heads (fun g => best.id.arbitrationKey ≤ g.id.arbitrationKey) ps) ∨
    (frame.id.arbitrationKey < best.id.arbitrationKey ∧
      ∃ earlier later, Wins ps w frame earlier later) := by
  induction ps generalizing b best with
  | nil =>
    cases h
    exact .inl ⟨rfl, rfl, heads_nil _⟩
  | cons p ps ih =>
    cases hp : p.head with
    | none =>
      simp only [arbitrate, hp] at h
      rcases ih h with ⟨hw, hf, hall⟩ | ⟨hlt, earlier, later, hwins⟩
      · exact .inl ⟨hw, hf, (heads_cons_none hp).2 hall⟩
      · exact .inr ⟨hlt, p :: earlier, later, hwins.cons (by simp [hp])⟩
    | some head =>
      simp only [arbitrate, hp] at h
      split_ifs at h with hlt
      · rcases ih h with ⟨rfl, rfl, hall⟩ | ⟨hlt', earlier, later, hwins⟩
        · exact .inr ⟨hlt, [], ps, rfl, hp, heads_nil _, hall⟩
        · exact .inr ⟨BitVec.lt_trans hlt' hlt, p :: earlier, later,
            hwins.cons fun g hg => Option.some.inj (hp.symm.trans hg) ▸ hlt'⟩
      · have hle : best.id.arbitrationKey ≤ head.id.arbitrationKey := BitVec.not_lt.1 hlt
        rcases ih h with ⟨hw, hf, hall⟩ | ⟨hlt', earlier, later, hwins⟩
        · exact .inl ⟨hw, hf, (heads_cons_some hp).2 ⟨hle, hall⟩⟩
        · exact .inr ⟨hlt', p :: earlier, later, hwins.cons fun g hg =>
            Option.some.inj (hp.symm.trans hg) ▸ Nat.lt_of_lt_of_le hlt' hle⟩

/-- **Who wins.** -/
theorem arbitrate_spec {w : VirtualBus} {frame : FdFrame} {ps : List VirtualBus}
    (h : arbitrate none ps = some (w, frame)) : ∃ earlier later, Wins ps w frame earlier later := by
  induction ps with
  | nil => cases h
  | cons p ps ih =>
    cases hp : p.head with
    | none =>
      simp only [arbitrate, hp] at h
      obtain ⟨earlier, later, hwins⟩ := ih h
      exact ⟨p :: earlier, later, hwins.cons (by simp [hp])⟩
    | some head =>
      simp only [arbitrate, hp] at h
      rcases arbitrate_some h with ⟨rfl, rfl, hall⟩ | ⟨hlt, earlier, later, hwins⟩
      · exact ⟨[], ps, rfl, hp, heads_nil _, hall⟩
      · exact ⟨p :: earlier, later,
          hwins.cons fun g hg => Option.some.inj (hp.symm.trans hg) ▸ hlt⟩

theorem arbitrate_some_ne_none (b : VirtualBus × FdFrame) (ps : List VirtualBus) :
    arbitrate (some b) ps ≠ none := by
  induction ps generalizing b with
  | nil => simp [arbitrate]
  | cons p ps ih =>
    cases hp : p.head with
    | none =>
      simp only [arbitrate, hp]
      exact ih b
    | some head =>
      simp only [arbitrate, hp]
      split_ifs
      · exact ih _
      · exact ih _

/-- Without a winner nobody contends. -/
theorem arbitrate_eq_none_iff {ps : List VirtualBus} :
    arbitrate none ps = none ↔ ∀ p ∈ ps, p.head = none := by
  induction ps with
  | nil => simp [arbitrate]
  | cons p ps ih =>
    cases hp : p.head with
    | none => simp [arbitrate, hp, ih]
    | some head => simp [arbitrate, hp, arbitrate_some_ne_none]

end VirtualBus

namespace VirtualMedium

section

variable (m : VirtualMedium) (now : ℕ)

@[simp] theorem setClock_nowNs : (m.setClock now).nowNs = now := rfl
@[simp] theorem setClock_busyUntilNs : (m.setClock now).busyUntilNs = m.busyUntilNs := rfl
@[simp] theorem setClock_inFlight : (m.setClock now).inFlight = m.inFlight := rfl
@[simp] theorem setClock_participants : (m.setClock now).participants = m.participants := rfl
@[simp] theorem setClock_setClock (now' : ℕ) :
    (m.setClock now).setClock now' = m.setClock now' := rfl
@[simp] theorem setClock_self : m.setClock m.nowNs = m := rfl

end

/-- **All a start of a transmission can do.** -/
theorem start_cases (m : VirtualMedium) :
    (m.startTransmission = (m, false) ∧
      (m.inFlight = true ∨ ∀ p ∈ m.participants, p.head = none)) ∨
    (m.inFlight = false ∧ ∃ w frame earlier later,
      VirtualBus.Wins m.participants w frame earlier later ∧
      m.startTransmission = (m.occupy w frame, true)) := by
  unfold startTransmission
  cases hfly : m.inFlight with
  | true => exact .inl ⟨rfl, .inl rfl⟩
  | false =>
    cases harb : VirtualBus.arbitrate none m.participants with
    | none => exact .inl ⟨rfl, .inr (VirtualBus.arbitrate_eq_none_iff.1 harb)⟩
    | some winner =>
      obtain ⟨earlier, later, hwins⟩ := VirtualBus.arbitrate_spec harb
      exact .inr ⟨rfl, winner.1, winner.2, earlier, later, hwins, rfl⟩

/-! ### The two loops -/

/-- What a start, a completion and a move of the clock keep. -/
structure Kept (P : VirtualMedium → Prop) : Prop where
  start : ∀ m, P m → P m.startTransmission.1
  complete : ∀ m, P m → P m.completeTransmission
  clock : ∀ m now, P m → P (m.setClock now)

variable {P : VirtualMedium → Prop} {m : VirtualMedium}

theorem Kept.completeDue (hP : Kept P) (h : P m) : P m.completeDue := by
  unfold VirtualMedium.completeDue
  split_ifs
  · exact hP.complete m h
  · exact h

theorem Kept.contend (hP : Kept P) (h : P m) : P m.contend := by
  unfold VirtualMedium.contend
  split_ifs
  · exact hP.completeDue h
  · exact hP.start _ (hP.completeDue h)

theorem Kept.round (hP : Kept P) (h : P m) (target : ℕ) : P (m.round target).1 := by
  unfold VirtualMedium.round
  split_ifs
  · exact hP.clock _ _ (hP.contend h)
  · exact hP.completeDue (hP.clock _ _ (hP.contend h))

theorem Kept.rounds (hP : Kept P) (target n : ℕ) (h : P m) : P (m.rounds target n) := by
  induction n generalizing m with
  | zero => exact h
  | succ n ih =>
    have hround := hP.round h target
    rw [VirtualMedium.rounds]
    split
    · next heq => exact ih (by rwa [heq] at hround)
    · next heq => rwa [heq] at hround

/-- **The rule for `advance`.** -/
theorem Kept.advance (hP : Kept P) (h : P m) (duration : ℤ) : P (m.advance duration) :=
  hP.rounds _ _ h

theorem Kept.land (hP : Kept P) (h : P m) : P m.land := by
  unfold VirtualMedium.land
  split_ifs
  · exact hP.complete _ (hP.clock _ _ h)
  · exact h

theorem Kept.drainLoop (hP : Kept P) (n : ℕ) (h : P m) : P (m.drainLoop n) := by
  induction n generalizing m with
  | zero => exact h
  | succ n ih =>
    have hstart := hP.start _ (hP.land h)
    rw [VirtualMedium.drainLoop]
    split
    · next heq => exact ih (by rwa [heq] at hstart)
    · next heq => rwa [heq] at hstart

/-- **The rule for `drain`.** -/
theorem Kept.drain (hP : Kept P) (h : P m) (maxFrames : ℕ) : P (m.drain maxFrames).1 :=
  hP.land (hP.drainLoop maxFrames h)

/-! ### The loop of `advance` ends -/

theorem Wins.mem {ps earlier later : List VirtualBus} {w : VirtualBus} {frame : FdFrame}
    (h : VirtualBus.Wins ps w frame earlier later) : w ∈ ps := by
  rw [h.split]
  simp

theorem occupy_participants (m : VirtualMedium) (w : VirtualBus) (frame : FdFrame) :
    (m.occupy w frame).participants = m.participants.map (m.settled w frame) := rfl

/-- The record of a start of a transmission. -/
def record (m : VirtualMedium) (w : VirtualBus) (frame : FdFrame) : Transmission :=
  ⟨w.handle, frame, m.nowNs, (frameTiming frame m.timing).nanoseconds, m.participants,
    m.participants.map (m.settled w frame)⟩

theorem occupy_history (m : VirtualMedium) (w : VirtualBus) (frame : FdFrame) :
    (m.occupy w frame).history = m.history ++ [m.record w frame] := rfl

theorem settled_outbox (m : VirtualMedium) (w : VirtualBus) (frame : FdFrame) (p : VirtualBus) :
    (m.settled w frame p).outbox = if p.handle = w.handle then p.outbox.tail else p.outbox := by
  unfold settled
  split_ifs <;> rfl

theorem pending_occupy {w : VirtualBus} {frame : FdFrame} {earlier later : List VirtualBus}
    (h : VirtualBus.Wins m.participants w frame earlier later) :
    (m.occupy w frame).pending < m.pending := by
  obtain ⟨-, rest, hout⟩ := VirtualBus.head_eq_some_iff.1 h.head
  unfold pending
  rw [occupy_participants, List.map_map]
  refine List.sum_lt_sum _ _ (fun p _ => ?_) ⟨w, Wins.mem h, ?_⟩
  · simp only [Function.comp, settled_outbox]
    split_ifs
    · exact List.length_tail ▸ Nat.sub_le _ _
    · exact le_rfl
  · simp [settled_outbox, hout]

theorem complete_of_idle (h : m.inFlight = false) : m.completeTransmission = m := if_pos h

@[simp] theorem complete_inFlight (m : VirtualMedium) :
    m.completeTransmission.inFlight = false := by
  cases h : m.inFlight with
  | false => rw [complete_of_idle h, h]
  | true => rw [completeTransmission, if_neg (by simp [h])]; rfl

@[simp] theorem complete_nowNs (m : VirtualMedium) : m.completeTransmission.nowNs = m.nowNs := by
  unfold completeTransmission
  split_ifs <;> rfl

theorem complete_history (m : VirtualMedium) : m.completeTransmission.history = m.history := by
  unfold completeTransmission
  split_ifs <;> rfl

theorem complete_participants (m : VirtualMedium) : m.completeTransmission.participants =
    m.participants.map fun p =>
      if m.inFlight then p.offered m m.current m.currentSender else p := by
  cases h : m.inFlight with
  | false => simp [complete_of_idle h]
  | true =>
    rw [completeTransmission, if_neg (by simp [h])]
    rfl

theorem offered_outbox (m : VirtualMedium) (frame : FdFrame) (sender : Option ℕ) (p : VirtualBus) :
    (p.offered m frame sender).outbox = p.outbox := by
  unfold VirtualBus.offered
  split_ifs <;> rfl

@[simp] theorem pending_complete (m : VirtualMedium) :
    m.completeTransmission.pending = m.pending := by
  unfold pending
  rw [complete_participants, List.map_map]
  refine congrArg _ (List.map_congr_left fun p _ => ?_)
  simp only [Function.comp]
  split_ifs
  · rw [offered_outbox]
  · rfl

theorem completeDue_of_not (h : ¬ (m.inFlight = true ∧ m.busyUntilNs ≤ m.nowNs)) :
    m.completeDue = m := if_neg h

theorem completeDue_of_idle (h : m.inFlight = false) : m.completeDue = m :=
  completeDue_of_not (by simp [h])

/-- Of a round that goes round again: the frame was in flight already, or it started now. -/
theorem contend_cases (m : VirtualMedium) :
    (m.contend = m ∧ m.inFlight = true ∧ ¬ m.busyUntilNs ≤ m.nowNs) ∨
    (m.completeDue.inFlight = false ∧ m.contend = m.completeDue.startTransmission.1) := by
  unfold contend
  cases h : m.completeDue.inFlight with
  | false => exact .inr ⟨rfl, rfl⟩
  | true =>
    rw [if_pos rfl]
    unfold completeDue at h ⊢
    split_ifs at h ⊢ with hdue
    · rw [complete_inFlight] at h
      cases h
    · exact .inl ⟨rfl, h, fun hle => hdue ⟨h, hle⟩⟩

theorem pending_completeDue (m : VirtualMedium) : m.completeDue.pending = m.pending := by
  unfold completeDue
  split_ifs
  · exact pending_complete m
  · rfl

theorem roundsLeft_round {m₁ : VirtualMedium} {target : ℕ} (h : m.round target = (m₁, true)) :
    m₁.roundsLeft < m.roundsLeft := by
  unfold round at h
  split_ifs at h with hc
  · cases h
    have hleft : (m.contend.setClock m.contend.busyUntilNs).roundsLeft =
        2 * m.contend.pending + 1 := by
      rw [roundsLeft, setClock, if_pos hc.1, if_pos le_rfl]
      rfl
    rw [hleft]
    rcases contend_cases m with ⟨heq, hfly, hnot⟩ | ⟨hidle, heq⟩
    · rw [heq, roundsLeft, if_pos hfly, if_neg hnot]
      omega
    · rcases start_cases m.completeDue with ⟨hfail, -⟩ | ⟨-, w, frame, earlier, later, hwins, hstart⟩
      · rw [heq, hfail, hidle] at hc
        cases hc.1
      · have hlt := pending_occupy hwins
        rw [pending_completeDue] at hlt
        have hp : m.contend.pending = (m.completeDue.occupy w frame).pending := by
          rw [heq, hstart]
        rw [roundsLeft]
        omega
  · cases (Prod.mk.inj h).2

theorem round_last {m' : VirtualMedium} {target : ℕ} (h : m.round target = (m', false)) :
    ¬ (m.contend.inFlight = true ∧ m.contend.busyUntilNs ≤ target) ∧
      m' = m.contend.setClock target := by
  unfold round at h
  split_ifs at h with hc
  · cases (Prod.mk.inj h).2
  · exact ⟨hc, (Prod.mk.inj h).1.symm.trans (completeDue_of_not hc)⟩

theorem round_again {m' : VirtualMedium} {target : ℕ} (h : m.round target = (m', true)) :
    (m.contend.inFlight = true ∧ m.contend.busyUntilNs ≤ target) ∧
      m' = m.contend.setClock m.contend.busyUntilNs := by
  unfold round at h
  split_ifs at h with hc
  · exact ⟨hc, (Prod.mk.inj h).1.symm⟩
  · cases (Prod.mk.inj h).2

/-- The loop of `advance` ends in `m'`. -/
inductive Advances (target : ℕ) : VirtualMedium → VirtualMedium → Prop
  | last {m m' : VirtualMedium} (h : m.round target = (m', false)) : Advances target m m'
  | again {m m₁ m' : VirtualMedium} (h : m.round target = (m₁, true))
      (rest : Advances target m₁ m') : Advances target m m'

theorem rounds_advances {target n : ℕ} (h : m.roundsLeft < n) :
    Advances target m (m.rounds target n) := by
  induction n generalizing m with
  | zero => cases h
  | succ n ih =>
    rw [rounds]
    split
    · next heq =>
      have := roundsLeft_round heq
      exact .again heq (ih (by omega))
    · next heq => exact .last heq

/-- **`advance` is its loop.** -/
theorem advance_advances (m : VirtualMedium) (duration : ℤ) :
    Advances (clockAdd m.nowNs duration.toNat) m (m.advance duration) :=
  rounds_advances (Nat.lt_succ_self _)

theorem Advances.unique {target : ℕ} {m₁ m₂ : VirtualMedium} (h₁ : Advances target m m₁)
    (h₂ : Advances target m m₂) : m₁ = m₂ := by
  induction h₁ with
  | last h =>
    cases h₂ with
    | last h' => exact (Prod.mk.inj (h.symm.trans h')).1
    | again h' _ => cases (Prod.mk.inj (h.symm.trans h')).2
  | again h _ ih =>
    cases h₂ with
    | last h' => cases (Prod.mk.inj (h.symm.trans h')).2
    | again h' rest => exact ih ((Prod.mk.inj (h.symm.trans h')).1 ▸ rest)

/-! ### The participants -/

/-- The participants stand in the order of their attachment, and one that is closed has
nothing queued. -/
structure Attached (m : VirtualMedium) : Prop where
  ordered : m.participants.Pairwise fun p q => p.handle < q.handle
  below : ∀ p ∈ m.participants, p.handle < m.attached
  closed : ∀ p ∈ m.participants, p.isOpen = false → p.outbox = []

/-- A change of a participant that keeps its place, and its queue empty when it is closed. -/
structure Polite (p q : VirtualBus) : Prop where
  handle : q.handle = p.handle
  closed : (p.isOpen = false → p.outbox = []) → q.isOpen = false → q.outbox = []

theorem Attached.map {m' : VirtualMedium} {f : VirtualBus → VirtualBus} (h : Attached m)
    (hf : ∀ p ∈ m.participants, Polite p (f p)) (hp : m'.participants = m.participants.map f)
    (ha : m'.attached = m.attached) : Attached m' where
  ordered := by
    rw [hp, List.pairwise_map]
    refine h.ordered.imp_of_mem fun hp hq hlt => ?_
    rwa [(hf _ hp).handle, (hf _ hq).handle]
  below := by
    rw [hp, ha]
    intro q hq
    obtain ⟨p, hp, rfl⟩ := List.mem_map.1 hq
    rw [(hf p hp).handle]
    exact h.below p hp
  closed := by
    rw [hp]
    intro q hq hopen
    obtain ⟨p, hp, rfl⟩ := List.mem_map.1 hq
    exact (hf p hp).closed (h.closed p hp) hopen

theorem settled_polite (m : VirtualMedium) (w : VirtualBus) (frame : FdFrame) (p : VirtualBus) :
    Polite p (m.settled w frame p) where
  handle := by
    unfold settled
    split_ifs <;> rfl
  closed hp hq := by
    have hopen : (m.settled w frame p).isOpen = p.isOpen := by
      unfold settled
      split_ifs <;> rfl
    rw [settled_outbox, hp (hopen ▸ hq)]
    split_ifs <;> rfl

theorem offered_polite (m : VirtualMedium) (frame : FdFrame) (sender : Option ℕ) (p : VirtualBus) :
    Polite p (p.offered m frame sender) where
  handle := by
    unfold VirtualBus.offered
    split_ifs <;> rfl
  closed hp hq := by
    have hopen : (p.offered m frame sender).isOpen = p.isOpen := by
      unfold VirtualBus.offered
      split_ifs <;> rfl
    rw [offered_outbox, hp (hopen ▸ hq)]

theorem complete_attached (m : VirtualMedium) :
    m.completeTransmission.attached = m.attached := by
  unfold completeTransmission
  split_ifs <;> rfl

theorem Attached.kept : Kept Attached where
  start m h := by
    rcases start_cases m with ⟨heq, -⟩ | ⟨-, w, frame, earlier, later, hwins, heq⟩
    · rwa [heq]
    · rw [heq]
      exact h.map (fun p _ => m.settled_polite w frame p) rfl rfl
  complete m h := by
    refine h.map (fun p _ => ?_) (complete_participants m) (complete_attached m)
    split_ifs
    · exact offered_polite m _ _ p
    · exact ⟨rfl, fun hp => hp⟩
  clock m now h := ⟨h.ordered, h.below, h.closed⟩

/-- No two participants have one handle. -/
theorem Attached.inj {p q : VirtualBus} (h : Attached m) (hp : p ∈ m.participants)
    (hq : q ∈ m.participants) (heq : p.handle = q.handle) : p = q :=
  List.inj_on_of_nodup_map (List.pairwise_map.2 (h.ordered.imp fun hlt => hlt.ne)) hp hq heq

theorem find_mem {p : VirtualBus} {who : ℕ} (h : m.find who = some p) :
    p ∈ m.participants ∧ p.handle = who :=
  ⟨List.mem_of_find?_eq_some h, by simpa using List.find?_some h⟩

/-- What all calls keep. -/
structure KeptByCalls (P : VirtualMedium → Prop) : Prop where
  known : ∀ m, P m → Attached m
  advance : ∀ m duration, P m → P (m.advance duration)
  drain : ∀ m maxFrames, P m → P (m.drain maxFrames).1
  attach : ∀ m name, P m → P (m.attach name)
  detach : ∀ m who, P m → P (m.detach who)
  modify : ∀ m who f, (∀ p ∈ m.participants, p.handle = who → Polite p (f p)) → P m →
    P (m.modify who f)
  configure : ∀ m loopback rxLimit txLimit arbitrationLog, P m →
    P { m with loopback, rxLimit, txLimit, arbitrationLog }

theorem Attached.keptByCalls : KeptByCalls Attached where
  known m h := h
  advance m duration h := Attached.kept.advance h duration
  drain m maxFrames h := Attached.kept.drain h maxFrames
  attach m name h :=
    { ordered := by
        refine List.pairwise_append.2 ⟨h.ordered, List.pairwise_singleton _ _, fun p hp q hq => ?_⟩
        rw [List.mem_singleton.1 hq]
        exact h.below p hp
      below := by
        intro p hp
        rcases List.mem_append.1 hp with hp | hp
        · exact Nat.lt_succ_of_lt (h.below p hp)
        · rw [List.mem_singleton.1 hp]
          exact Nat.lt_succ_self _
      closed := by
        intro p hp hopen
        rcases List.mem_append.1 hp with hp | hp
        · exact h.closed p hp hopen
        · rw [List.mem_singleton.1 hp] }
  detach m who h :=
    { ordered := h.ordered.filter _
      below := fun p hp => h.below p (List.mem_of_mem_filter hp)
      closed := fun p hp => h.closed p (List.mem_of_mem_filter hp) }
  modify m who f hf h := by
    refine h.map (fun p hp => ?_) rfl rfl
    split_ifs with hwho
    · exact hf p hp hwho
    · exact ⟨rfl, fun hp => hp⟩
  configure m _ _ _ _ h := ⟨h.ordered, h.below, h.closed⟩

namespace KeptByCalls

theorem send (hP : KeptByCalls P) (h : P m) {p : VirtualBus} {who : ℕ} (hfind : m.find who = some p)
    (frame : FdFrame) : P (m.send p frame).1 := by
  obtain ⟨hmem, -⟩ := find_mem hfind
  unfold VirtualMedium.send
  split_ifs with hopen hfd hfull
  · exact h
  · exact h
  · exact hP.modify m _ _ (fun q _ _ => ⟨rfl, fun hq => hq⟩) h
  · refine hP.modify m _ _ (fun q hq hwho => ⟨rfl, fun _ hclosed => ?_⟩) h
    rw [(hP.known m h).inj hq hmem hwho] at hclosed
    exact absurd hclosed hopen

theorem take (hP : KeptByCalls P) (h : P m) (p : VirtualBus) : P (m.take p).1 := by
  unfold VirtualMedium.take
  split
  · exact h
  · exact hP.modify m _ _ (fun q _ _ => ⟨rfl, fun hq => hq⟩) h

theorem receive (hP : KeptByCalls P) (h : P m) (p : VirtualBus) (timeout : ℤ) :
    P (m.receive p timeout).1 := by
  unfold VirtualMedium.receive
  split_ifs
  · exact h
  · exact hP.take (hP.advance _ timeout h) _
  · exact hP.take h _

/-- **The rule for calls.** -/
theorem step (hP : KeptByCalls P) (h : P m) {c : Call} {m' : VirtualMedium}
    (hstep : m.step c = some m') : P m' := by
  unfold VirtualMedium.step at hstep
  cases c <;>
    simp only [call, Option.map_some, Option.some.injEq, Option.map_eq_some_iff] at hstep
  case attach name => exact hstep ▸ hP.attach m name h
  case detach who =>
    obtain ⟨_, ⟨_, -, rfl⟩, rfl⟩ := hstep
    exact hP.detach m who h
  case openBus who =>
    obtain ⟨_, ⟨_, -, rfl⟩, rfl⟩ := hstep
    exact hP.modify m who _ (fun q _ _ => ⟨rfl, fun _ ho => absurd ho (by simp)⟩) h
  case closeBus who =>
    obtain ⟨_, ⟨_, -, rfl⟩, rfl⟩ := hstep
    exact hP.modify m who _ (fun q _ _ => ⟨rfl, fun _ _ => rfl⟩) h
  case send who frame =>
    obtain ⟨_, ⟨p, hfind, rfl⟩, rfl⟩ := hstep
    exact hP.send h hfind frame
  case receive who timeout =>
    obtain ⟨_, ⟨p, -, rfl⟩, rfl⟩ := hstep
    exact hP.receive h p timeout
  case advance duration => exact hstep ▸ hP.advance m duration h
  case drain maxFrames => exact hstep ▸ hP.drain m maxFrames h
  case setFilters who filters =>
    obtain ⟨_, ⟨_, -, rfl⟩, rfl⟩ := hstep
    exact hP.modify m who _ (fun q _ _ => ⟨rfl, fun hq => hq⟩) h
  case resetStatistics who =>
    obtain ⟨_, ⟨_, -, rfl⟩, rfl⟩ := hstep
    exact hP.modify m who _ (fun q _ _ => ⟨rfl, fun hq => hq⟩) h
  case setLoopback on => exact hstep ▸ hP.configure m on _ _ _ h
  case setReceiveQueueLimit n => exact hstep ▸ hP.configure m _ n _ _ h
  case setTransmitQueueLimit n => exact hstep ▸ hP.configure m _ _ n _ h
  case clearArbitrationLog => exact hstep ▸ hP.configure m _ _ _ [] h

/-- **The rule for runs.** -/
theorem reachable (hP : KeptByCalls P) (h₀ : ∀ timing, P (create timing)) (h : Reachable m) :
    P m := by
  obtain ⟨timing, hreach⟩ := h
  exact hreach.invariant (h₀ timing) fun _ _ _ hs _ hstep => hP.step hs hstep

end KeptByCalls

theorem Attached.of_reachable (h : Reachable m) : Attached m :=
  Attached.keptByCalls.reachable (fun _ => ⟨.nil, by simp [create], by simp [create]⟩) h

end VirtualMedium

end Transport
end Canforge
