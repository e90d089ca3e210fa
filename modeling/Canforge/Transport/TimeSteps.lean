/-
# Time steps of the virtual bus

Advancing by `a` and then by `b` is advancing by `a + b`: where the first loop
stops, the second finds the decision the longer loop makes there
(`round_of_last`).  `drain` jumps from end to end of the transmissions; it
leaves the medium where `advance` leaves it, as long as the end of all that is
queued is still a time on the clock (`drain_spec`, `time_steps`).
-/

import Canforge.Transport.Medium

namespace Canforge
namespace Transport

open Canforge.Core

namespace VirtualMedium

variable {m m₁ m₂ m' : VirtualMedium} {target : ℕ}

theorem contend_of_idle (h : m.inFlight = false) : m.contend = m.startTransmission.1 := by
  rw [contend, completeDue_of_idle h, if_neg (by simp [h])]

/-- With nothing to send, nothing starts. -/
theorem start_of_heads (h : ∀ p ∈ m.participants, p.head = none) :
    m.startTransmission = (m, false) := by
  rcases start_cases m with ⟨heq, -⟩ | ⟨-, w, frame, earlier, later, hwins, -⟩
  · exact heq
  · cases (h w (Wins.mem hwins)).symm.trans hwins.head

/-- The medium is idle in a round because nobody contends. -/
theorem contend_heads (h : m.contend.inFlight = false) :
    ∀ p ∈ m.contend.participants, p.head = none := by
  rcases contend_cases m with ⟨heq, hfly, -⟩ | ⟨hidle, heq⟩
  · rw [heq, hfly] at h
    cases h
  · rcases start_cases m.completeDue with ⟨hfail, hwhy⟩ | ⟨-, w, frame, earlier, later, -, hstart⟩
    · rw [heq, hfail]
      exact hwhy.resolve_left (by simp [hidle])
    · rw [heq, hstart] at h
      cases h

/-! ### Two steps and one -/

/-- **Where a loop stops, a longer one goes on the same way.** -/
theorem round_of_last {target' : ℕ} (h : m.round target = (m₁, false)) :
    m₁.round target' = m.round target' := by
  obtain ⟨hc, rfl⟩ := round_last h
  have hcontend : (m.contend.setClock target).contend = m.contend.setClock target := by
    cases hfly : m.contend.inFlight with
    | true =>
      have hdue : (m.contend.setClock target).completeDue = m.contend.setClock target :=
        completeDue_of_not hc
      rw [contend, hdue, setClock_inFlight, if_pos hfly]
    | false =>
      have hstart : (m.contend.setClock target).startTransmission =
          (m.contend.setClock target, false) := start_of_heads (contend_heads hfly)
      rw [contend_of_idle (m := m.contend.setClock target) hfly, hstart]
  rw [round, round, hcontend]
  rfl

/-- **A loop is the loop to an earlier time and what follows.** -/
theorem Advances.trans {target' : ℕ} (hle : target ≤ target') (h₁ : Advances target m m₁)
    (h₂ : Advances target' m₁ m₂) : Advances target' m m₂ := by
  induction h₁ with
  | last h =>
    cases h₂ with
    | last h' => exact .last ((round_of_last h).symm.trans h')
    | again h' rest => exact .again ((round_of_last h).symm.trans h') rest
  | again h _ ih =>
    refine .again ?_ (ih h₂)
    unfold round at h ⊢
    split_ifs at h with hc
    · rw [if_pos ⟨hc.1, hc.2.trans hle⟩, h]
    · cases (Prod.mk.inj h).2

theorem Advances.nowNs (h : Advances target m m') : m'.nowNs = target := by
  induction h with
  | last h =>
    rw [(round_last h).2]
    rfl
  | again _ _ ih => exact ih

/-- **Two advances are one.** -/
theorem advance_advance {a b : ℕ} (h : m.nowNs + a + b < 2 ^ 64) :
    (m.advance a).advance b = m.advance (a + b : ℕ) := by
  have h₁ : Advances (m.nowNs + a) m (m.advance a) := by
    have := advance_advances m a
    rwa [clockAdd, Int.toNat_natCast, Nat.mod_eq_of_lt (by omega)] at this
  have h₂ := advance_advances (m.advance a) b
  rw [clockAdd, Int.toNat_natCast, h₁.nowNs, Nat.mod_eq_of_lt h] at h₂
  have h₁₂ := advance_advances m (a + b : ℕ)
  rw [clockAdd, Int.toNat_natCast, ← Nat.add_assoc, Nat.mod_eq_of_lt h] at h₁₂
  exact (h₁.trans (Nat.le_add_right _ _) h₂).unique h₁₂

/-! ### Draining -/

/-- The time a list of frames takes. -/
def timeOf (timing : BusTiming) (frames : List FdFrame) : ℕ :=
  (frames.map fun frame => (frameTiming frame timing).nanoseconds).sum

/-- The time of all that is queued. -/
def load (m : VirtualMedium) : ℕ :=
  (m.participants.map fun p => timeOf m.timing p.outbox).sum

/-- The time until everything has been transmitted. -/
def workload (m : VirtualMedium) : ℕ :=
  (if m.inFlight then m.busyUntilNs - m.nowNs else 0) + m.load

/-- A sum over the queues, before and after a start. -/
theorem sum_settled (h : Attached m) {w : VirtualBus} {frame : FdFrame}
    {earlier later : List VirtualBus} (hwins : VirtualBus.Wins m.participants w frame earlier later)
    (size : List FdFrame → ℕ) :
    ((m.participants.map (m.settled w frame)).map fun p => size p.outbox).sum + size w.outbox =
      (m.participants.map fun p => size p.outbox).sum + size w.outbox.tail := by
  have hne : ∀ p ∈ earlier ++ later, p.handle ≠ w.handle := by
    have hordered := hwins.split ▸ h.ordered
    obtain ⟨-, hw, hcross⟩ := List.pairwise_append.1 hordered
    intro p hp
    rcases List.mem_append.1 hp with hp | hp
    · exact (hcross p hp w List.mem_cons_self).ne
    · exact (List.rel_of_pairwise_cons hw hp).ne'
  have hsame : ∀ ps : List VirtualBus, (∀ p ∈ ps, p.handle ≠ w.handle) →
      ((ps.map (m.settled w frame)).map fun p => size p.outbox) = ps.map fun p => size p.outbox := by
    intro ps hps
    rw [List.map_map]
    refine List.map_congr_left fun p hp => ?_
    rw [Function.comp, settled_outbox, if_neg (hps p hp)]
  rw [hwins.split, List.map_append, List.map_append, List.map_append, List.map_cons, List.map_cons,
    List.map_cons, hsame earlier fun p hp => hne p (List.mem_append_left _ hp),
    hsame later fun p hp => hne p (List.mem_append_right _ hp), settled_outbox, if_pos rfl,
    List.sum_append, List.sum_append, List.sum_cons, List.sum_cons]
  omega

theorem load_occupy (h : Attached m) {w : VirtualBus} {frame : FdFrame}
    {earlier later : List VirtualBus}
    (hwins : VirtualBus.Wins m.participants w frame earlier later) :
    (m.occupy w frame).load + (frameTiming frame m.timing).nanoseconds = m.load := by
  obtain ⟨-, rest, hout⟩ := VirtualBus.head_eq_some_iff.1 hwins.head
  have hsum := sum_settled h hwins (timeOf m.timing)
  rw [hout, List.tail_cons] at hsum
  have hcons : timeOf m.timing (frame :: rest) =
      (frameTiming frame m.timing).nanoseconds + timeOf m.timing rest := rfl
  have hload : (m.occupy w frame).load =
      ((m.participants.map (m.settled w frame)).map fun p => timeOf m.timing p.outbox).sum := rfl
  have hload' : m.load = (m.participants.map fun p => timeOf m.timing p.outbox).sum := rfl
  omega

/-- Nobody contends: nothing is queued. -/
theorem load_of_heads (h : Attached m) (hheads : ∀ p ∈ m.participants, p.head = none) :
    m.load = 0 := by
  refine List.sum_eq_zero fun n hn => ?_
  obtain ⟨p, hp, rfl⟩ := List.mem_map.1 hn
  have hempty : p.outbox = [] := by
    cases hopen : p.isOpen with
    | false => exact h.closed p hp hopen
    | true =>
      have hnone := hheads p hp
      rw [VirtualBus.head, if_pos hopen] at hnone
      exact List.head?_eq_none_iff.1 hnone
  rw [hempty]
  rfl

theorem heads_of_pending (h : m.pending = 0) : ∀ p ∈ m.participants, p.head = none := by
  intro p hp
  have hlen : p.outbox.length = 0 :=
    List.sum_eq_zero_iff.1 h _ (List.mem_map_of_mem hp)
  rw [VirtualBus.head, List.length_eq_zero_iff.1 hlen]
  split_ifs <;> rfl

/-! What is in flight lands. -/

@[simp] theorem land_inFlight (m : VirtualMedium) : m.land.inFlight = false := by
  unfold land
  split_ifs with h
  · exact complete_inFlight _
  · simpa using h

theorem land_of_idle (h : m.inFlight = false) : m.land = m := if_neg (by simp [h])

theorem land_nowNs (m : VirtualMedium) :
    m.land.nowNs = if m.inFlight then m.busyUntilNs else m.nowNs := by
  unfold land
  split_ifs
  · rw [complete_nowNs, setClock_nowNs]
  · rfl

theorem complete_load (m : VirtualMedium) : m.completeTransmission.load = m.load := by
  have htiming : m.completeTransmission.timing = m.timing := by
    unfold completeTransmission
    split_ifs <;> rfl
  unfold load
  rw [htiming, complete_participants, List.map_map]
  refine congrArg _ (List.map_congr_left fun p _ => ?_)
  simp only [Function.comp]
  split_ifs
  · rw [offered_outbox]
  · rfl

theorem land_load (m : VirtualMedium) : m.land.load = m.load := by
  unfold land
  split_ifs
  · exact complete_load _
  · rfl

theorem land_pending (m : VirtualMedium) : m.land.pending = m.pending := by
  unfold land
  split_ifs
  · exact pending_complete _
  · rfl

/-! ### The loop of `advance` at the ends of transmissions -/

theorem Advances.of_round (h : m₁.round target = m₂.round target) (h₂ : Advances target m₂ m') :
    Advances target m₁ m' := by
  cases h₂ with
  | last h' => exact .last (h.trans h')
  | again h' rest => exact .again (h.trans h') rest

/-- A frame that is in flight until now is completed first. -/
theorem round_land (hfly : m.inFlight = true) (hdue : m.busyUntilNs = m.nowNs) :
    m.round target = m.land.round target := by
  have hland : m.land = m.completeDue := by
    rw [land, completeDue, if_pos hfly, if_pos ⟨hfly, hdue.le⟩, hdue, setClock_self]
  have hcontend : m.contend = m.land.contend := by
    rw [contend_of_idle m.land_inFlight, contend, ← hland, if_neg (by simp)]
  rw [round, round, hcontend]

/-- A frame in flight is in flight until its end. -/
theorem advances_setClock (hfly : m.inFlight = true) (hnow : m.nowNs ≤ m.busyUntilNs)
    (ht : m.busyUntilNs ≤ target) :
    Advances target m m' ↔ Advances target (m.setClock m.busyUntilNs) m' := by
  rcases Nat.lt_or_eq_of_le hnow with hlt | heq
  · have hcontend : m.contend = m := by
      have hdue : m.completeDue = m := completeDue_of_not (by omega)
      rw [contend, hdue, if_pos hfly]
    have hround : m.round target = (m.setClock m.busyUntilNs, true) := by
      rw [round, hcontend, if_pos ⟨hfly, ht⟩]
    constructor
    · rintro (h | ⟨h, rest⟩)
      · cases (Prod.mk.inj (h.symm.trans hround)).2
      · exact (Prod.mk.inj (h.symm.trans hround)).1 ▸ rest
    · exact .again hround
  · rw [← heq, setClock_self]

theorem Advances.of_land (hnow : m.inFlight = true → m.nowNs ≤ m.busyUntilNs)
    (ht : m.inFlight = true → m.busyUntilNs ≤ target) (h : Advances target m.land m') :
    Advances target m m' := by
  cases hfly : m.inFlight with
  | false => rwa [land_of_idle hfly] at h
  | true =>
    refine (advances_setClock hfly (hnow hfly) (ht hfly)).2 (.of_round (round_land hfly rfl) ?_)
    have hland : (m.setClock m.busyUntilNs).land = m.land := by
      rw [land, land, if_pos hfly, setClock_inFlight, if_pos hfly]
      rfl
    rwa [hland]

theorem Advances.of_start (hidle : m.inFlight = false) (hstart : m.startTransmission = (m₁, true))
    (hfly : m₁.inFlight = true) (hnow : m₁.nowNs ≤ m₁.busyUntilNs) (ht : m₁.busyUntilNs ≤ target)
    (h : Advances target m₁ m') : Advances target m m' := by
  have hcontend : m.contend = m₁ := by rw [contend_of_idle hidle, hstart]
  refine .again ?_ ((advances_setClock hfly hnow ht).1 h)
  rw [round, hcontend, if_pos ⟨hfly, ht⟩]

/-- An idle medium with nothing queued stays as it is. -/
theorem Advances.of_heads (hidle : m.inFlight = false)
    (hheads : ∀ p ∈ m.participants, p.head = none) : Advances m.nowNs m m := by
  have hcontend : m.contend = m := by rw [contend_of_idle hidle, start_of_heads hheads]
  refine .last ?_
  rw [round, hcontend, if_neg (by simp [hidle]), setClock_self, completeDue_of_idle hidle]

/-- The bus is free for the last time when all is transmitted. -/
theorem land_nowNs_add_load (hnow : m.inFlight = true → m.nowNs ≤ m.busyUntilNs) :
    m.land.nowNs + m.land.load = m.nowNs + m.workload := by
  rw [land_nowNs, land_load, workload]
  split_ifs with hfly
  · have := hnow hfly
    omega
  · omega

theorem busyUntilNs_le (hnow : m.inFlight = true → m.nowNs ≤ m.busyUntilNs)
    (hfly : m.inFlight = true) : m.busyUntilNs ≤ m.nowNs + m.workload := by
  have := hnow hfly
  rw [workload, if_pos hfly]
  omega

theorem land_spec (h : Attached m) (hnow : m.inFlight = true → m.nowNs ≤ m.busyUntilNs)
    (hheads : ∀ p ∈ m.land.participants, p.head = none) :
    m.land.nowNs = m.nowNs + m.workload ∧ Advances (m.nowNs + m.workload) m m.land := by
  have hload := load_of_heads (Attached.kept.land h) hheads
  have hsum := land_nowNs_add_load hnow
  have heq : m.land.nowNs = m.nowNs + m.workload := by omega
  refine ⟨heq, .of_land hnow (busyUntilNs_le hnow) ?_⟩
  rw [← heq]
  exact .of_heads m.land_inFlight hheads

/-- **`drain` ends when all is transmitted, where `advance` ends.** -/
theorem drain_spec (n : ℕ) (h : Attached m) (hn : m.pending ≤ n)
    (hnow : m.inFlight = true → m.nowNs ≤ m.busyUntilNs) (hfit : m.nowNs + m.workload < 2 ^ 64) :
    (m.drainLoop n).land.nowNs = m.nowNs + m.workload ∧
      Advances (m.nowNs + m.workload) m (m.drainLoop n).land := by
  induction n generalizing m with
  | zero => exact land_spec h hnow (heads_of_pending (m := m.land) (by rw [land_pending]; omega))
  | succ n ih =>
    have hsum := land_nowNs_add_load hnow
    have hattached : Attached m.land := Attached.kept.land h
    rw [drainLoop]
    rcases start_cases m.land with ⟨hfail, hwhy⟩ | ⟨-, w, frame, earlier, later, hwins, hstart⟩
    · rw [hfail, land_of_idle m.land_inFlight]
      exact land_spec h hnow (hwhy.resolve_left (by simp))
    · -- the next frame starts when the bus is free, and the rest is the same drain one frame later
      have hload := load_occupy hattached hwins
      have hpending := pending_occupy hwins
      have hclock : (m.land.occupy w frame).nowNs = m.land.nowNs := rfl
      have hends : (m.land.occupy w frame).busyUntilNs =
          m.land.nowNs + (frameTiming frame m.land.timing).nanoseconds :=
        Nat.mod_eq_of_lt (by omega)
      have hwork : (m.land.occupy w frame).nowNs + (m.land.occupy w frame).workload =
          m.nowNs + m.workload := by
        have hfly : (m.land.occupy w frame).inFlight = true := rfl
        rw [workload, if_pos hfly]
        omega
      have hkept : Attached (m.land.occupy w frame) := by
        have := Attached.kept.start _ hattached
        rwa [hstart] at this
      rw [land_pending] at hpending
      obtain ⟨hend, hadv⟩ := ih hkept (by omega) (fun _ => by omega) (by omega)
      rw [hstart]
      rw [hwork] at hend hadv
      refine ⟨hend, .of_land hnow (busyUntilNs_le hnow) ?_⟩
      exact .of_start m.land_inFlight hstart rfl (by omega) (by omega) hadv

/-- **`drain` is `advance` by the duration it returns.** -/
theorem advance_drain (n : ℕ) (h : Attached m) (hn : m.pending ≤ n)
    (hnow : m.inFlight = true → m.nowNs ≤ m.busyUntilNs) (hfit : m.nowNs + m.workload < 2 ^ 64)
    (hreturn : m.workload < 2 ^ 63) :
    (m.drain n).2 = m.workload ∧ m.advance (m.drain n).2 = (m.drain n).1 := by
  obtain ⟨hend, hadv⟩ := drain_spec n h hn hnow hfit
  have hduration : (m.drain n).2 = m.workload := by
    have hsub : BitVec.ofNat 64 (m.nowNs + m.workload) - BitVec.ofNat 64 m.nowNs =
        BitVec.ofNat 64 m.workload := by
      refine BitVec.eq_of_toNat_eq ?_
      simp only [BitVec.toNat_sub, BitVec.toNat_ofNat]
      omega
    have htoNat : (BitVec.ofNat 64 m.workload).toNat = m.workload := by
      rw [BitVec.toNat_ofNat, Nat.mod_eq_of_lt (by omega)]
    rw [drain, hend, hsub, BitVec.toInt_eq_toNat_of_lt (by omega), htoNat]
  refine ⟨hduration, ?_⟩
  have hadv' := advance_advances m (m.drain n).2
  rw [hduration, Int.toNat_natCast, clockAdd, Nat.mod_eq_of_lt hfit] at hadv'
  rw [hduration]
  exact hadv'.unique hadv

/-! ### Reachable media -/

/-- After an advance a frame in flight ends later than now. -/
theorem Advances.ahead (h : Advances target m m') (hfly : m'.inFlight = true) :
    m'.nowNs < m'.busyUntilNs := by
  induction h with
  | last h =>
    obtain ⟨hc, rfl⟩ := round_last h
    rw [setClock_nowNs, setClock_busyUntilNs]
    rw [setClock_inFlight] at hfly
    exact Nat.lt_of_not_le fun hle => hc ⟨hfly, hle⟩
  | again _ _ ih => exact ih hfly

theorem ahead_keptByCalls :
    KeptByCalls fun m => Attached m ∧ (m.inFlight = true → m.nowNs < m.busyUntilNs) where
  known m h := h.1
  advance m duration h := ⟨Attached.kept.advance h.1 duration, (advance_advances m duration).ahead⟩
  drain m maxFrames h := ⟨Attached.kept.drain h.1 maxFrames, fun hfly => by
    rw [drain, land_inFlight] at hfly
    cases hfly⟩
  attach m name h := ⟨Attached.keptByCalls.attach m name h.1, h.2⟩
  detach m who h := ⟨Attached.keptByCalls.detach m who h.1, h.2⟩
  modify m who f hf h := ⟨Attached.keptByCalls.modify m who f hf h.1, h.2⟩
  configure m on rx tx log h := ⟨Attached.keptByCalls.configure m on rx tx log h.1, h.2⟩

/-- **Time steps do not matter.** -/
theorem time_steps (h : Reachable m) :
    (∀ a b : ℕ, m.nowNs + a + b < 2 ^ 64 → (m.advance a).advance b = m.advance (a + b : ℕ)) ∧
    ∀ n, m.pending ≤ n → m.nowNs + m.workload < 2 ^ 64 → m.workload < 2 ^ 63 →
      (m.drain n).2 = m.workload ∧ m.advance (m.drain n).2 = (m.drain n).1 := by
  have hnil : ∀ timing, Attached (create timing) ∧
      ((create timing).inFlight = true → (create timing).nowNs < (create timing).busyUntilNs) :=
    fun _ => ⟨⟨.nil, by simp [create], by simp [create]⟩, by simp [create]⟩
  have hahead := ahead_keptByCalls.reachable hnil h
  refine ⟨fun a b => advance_advance, fun n hn hfit hreturn => ?_⟩
  exact advance_drain n hahead.1 hn (fun hfly => (hahead.2 hfly).le) hfit hreturn

/-- A participant with two frames of 270 µs to send, when it is `now`. -/
def twoQueued (now : List ℤ) : List Call :=
  let frame : FdFrame :=
    { id := ⟨0x123, CanId.inRange_standard⟩, dlc := 8, data := List.replicate 64 0,
      data_length := BasicFrame.zeros_length }
  [.attach "a", .openBus 0] ++ now.map .advance ++ [.send 0 frame, .send 0 frame]

theorem time_steps_two : ∃ m, Reachable m ∧
    (m.advance 100000).advance 300000 = m.advance 400000 ∧
    (m.drain 2).2 = 540000 ∧ m.advance (m.drain 2).2 = (m.drain 2).1 := by
  obtain ⟨m, hm, hnow, hpending, hwork⟩ : ∃ m, Lib.Reach step (fun _ _ => True) (create {}) m ∧
      m.nowNs = 0 ∧ m.pending = 2 ∧ m.workload = 540000 :=
    Lib.Reach.exists_of_run (twoQueued []) (by decide +kernel)
  have h := time_steps ⟨_, hm⟩
  obtain ⟨hduration, hdrain⟩ := h.2 2 (by omega) (by omega) (by omega)
  rw [hwork] at hduration
  exact ⟨m, ⟨_, hm⟩, h.1 100000 300000 (by omega), hduration, hdrain⟩

/-- The clock wraps while the second frame is on the bus: `drain` sends both, and `advance` by
the duration it returns sends none. -/
theorem drain_wraps : ∃ m n, Reachable m ∧ m.pending ≤ n ∧
    m.advance (m.drain n).2 ≠ (m.drain n).1 := by
  obtain ⟨m, hm, h⟩ : ∃ m, Lib.Reach step (fun _ _ => True) (create {}) m ∧
      m.pending ≤ 2 ∧ m.advance (m.drain 2).2 ≠ (m.drain 2).1 :=
    Lib.Reach.exists_of_run (twoQueued [2 ^ 63 - 1, 2 ^ 63 - 299999]) (by decide +kernel)
  exact ⟨m, 2, ⟨_, hm⟩, h⟩

end VirtualMedium

end Transport
end Canforge
