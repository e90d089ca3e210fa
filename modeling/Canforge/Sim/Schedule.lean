/-
# The schedule of a node

A node that is polled: `step` asks each of its messages in turn, and a message has one frame for a
step at most (`Ecu.step_eq`).  A cyclic message without jitter is a periodic timer as long as no
due time overflows 64 bits, which is when its next due time is later than the step; then it keeps
its cycle exactly under steps less than a cycle apart (`cyclic_schedule_iff`).
-/

import Canforge.Lib.Periodic
import Canforge.Sim.Runnable

namespace Canforge
namespace Sim

open Canforge.Core IsoTp Lib

variable {G R : Type} [Scalar R] [Engine G R]

/-! ### Runs of a node -/

/-- The arguments of `step`. -/
structure Poll (R : Type) [Scalar R] where
  now : ℕ
  plant : Option (Vehicle R) := none

namespace Ecu

/-- The loop of `step` with a frame or none for each message. -/
def stepEach (plant : Option (Vehicle R)) (now : ℕ) :
    List (Slot G R) → G → Option (List (Option Frame) × List (Slot G R) × G)
  | [], rng => some ([], [], rng)
  | slot :: rest, rng => do
    let (sent, slot, rng) ← slot.step plant now rng
    let (more, rest, rng) ← stepEach plant now rest rng
    return (sent :: more, slot :: rest, rng)

variable (ecu : Ecu G R)

/-- `step` with a frame or none for each message. -/
def sends (poll : Poll R) : Option (List (Option Frame) × Ecu G R) :=
  if !ecu.running then some (ecu.slots.map fun _ => none, ecu)
  else do
    let (sent, slots, rng) ← stepEach poll.plant poll.now ecu.slots ecu.rng
    return (sent, { ecu with slots, rng })

/-- Some steps, with what each sends. -/
def run (ecu : Ecu G R) : List (Poll R) → Option (List (List (Option Frame)) × Ecu G R)
  | [] => some ([], ecu)
  | poll :: polls => do
    let (sent, ecu) ← ecu.sends poll
    let (records, ecu) ← run ecu polls
    return (sent :: records, ecu)

/-- `P` of every step that is made. -/
def EachStep (P : Ecu G R → Poll R → List (Option Frame) → Ecu G R → Prop) :
    Ecu G R → List (Poll R) → Prop
  | _, [] => True
  | ecu, poll :: polls => ∀ sent next, ecu.sends poll = some (sent, next) →
      P ecu poll sent next ∧ EachStep P next polls

variable {ecu}

theorem stepSlots_eq (plant : Option (Vehicle R)) (now : ℕ) (slots : List (Slot G R)) (rng : G) :
    stepSlots plant now slots rng = (stepEach plant now slots rng).map
      fun (sent, slots, rng) => (sent.flatMap (·.toList), slots, rng) := by
  induction slots generalizing rng with
  | nil => rfl
  | cons slot rest ih =>
    rw [stepSlots, stepEach]
    cases slot.step plant now rng with
    | none => rfl
    | some r =>
      obtain ⟨sent, slot, rng⟩ := r
      simp only [Option.bind_eq_bind, Option.bind_some, ih]
      cases stepEach plant now rest rng with
      | none => rfl
      | some r => rfl

/-- **A step sends at most one frame of each message**, in the order of the messages. -/
theorem step_eq (ecu : Ecu G R) (poll : Poll R) : ecu.step poll.now poll.plant =
    (ecu.sends poll).map fun (sent, next) => (sent.flatMap (·.toList), next) := by
  unfold step sends
  split_ifs
  · simp
  · rw [stepSlots_eq]
    cases stepEach poll.plant poll.now ecu.slots ecu.rng with
    | none => rfl
    | some r => rfl

theorem stepEach_get {plant : Option (Vehicle R)} {now i : ℕ} {slots slots' : List (Slot G R)}
    {rng rng' : G} {sent : List (Option Frame)} {slot : Slot G R}
    (h : stepEach plant now slots rng = some (sent, slots', rng')) (hslot : slots[i]? = some slot) :
    ∃ g g' f slot', slot.step plant now g = some (f, slot', g') ∧ slots'[i]? = some slot' ∧
      sent[i]? = some f := by
  induction slots generalizing i rng sent slots' with
  | nil => cases hslot
  | cons s rest ih =>
    rw [stepEach] at h
    obtain ⟨⟨f, s', g⟩, hs, h⟩ := Option.bind_eq_some_iff.1 h
    obtain ⟨⟨more, rest', g'⟩, hrest, hdone⟩ := Option.bind_eq_some_iff.1 h
    cases hdone
    cases i with
    | zero =>
      cases hslot
      exact ⟨_, _, f, s', hs, rfl, rfl⟩
    | succ i =>
      obtain ⟨g₁, g₂, f', slot', hstep, hget, hsent⟩ := ih hrest hslot
      exact ⟨g₁, g₂, f', slot', hstep, hget, hsent⟩

theorem stepEach_length {plant : Option (Vehicle R)} {now : ℕ} {slots slots' : List (Slot G R)}
    {rng rng' : G} {sent : List (Option Frame)}
    (h : stepEach plant now slots rng = some (sent, slots', rng')) : sent.length = slots.length := by
  induction slots generalizing rng sent slots' with
  | nil =>
    cases h
    rfl
  | cons s rest ih =>
    rw [stepEach] at h
    obtain ⟨⟨f, s', g⟩, -, h⟩ := Option.bind_eq_some_iff.1 h
    obtain ⟨⟨more, rest', g'⟩, hrest, hdone⟩ := Option.bind_eq_some_iff.1 h
    cases hdone
    rw [List.length_cons, List.length_cons, ih hrest]

theorem sends_length {poll : Poll R} {sent : List (Option Frame)} {next : Ecu G R}
    (h : ecu.sends poll = some (sent, next)) : sent.length = ecu.slots.length := by
  unfold sends at h
  split_ifs at h
  · cases h
    exact List.length_map _
  · obtain ⟨⟨sent, slots, rng⟩, hslots, hdone⟩ := Option.bind_eq_some_iff.1 h
    cases hdone
    exact stepEach_length hslots

/-- **A step polls each message of a running node.** -/
theorem sends_get {poll : Poll R} {sent : List (Option Frame)} {next : Ecu G R} {i : ℕ}
    {slot : Slot G R} (hrunning : ecu.running = true) (h : ecu.sends poll = some (sent, next))
    (hslot : ecu.slots[i]? = some slot) :
    next.running = true ∧ ∃ g g' f slot', slot.step poll.plant poll.now g = some (f, slot', g') ∧
      next.slots[i]? = some slot' ∧ sent[i]? = some f := by
  unfold sends at h
  rw [hrunning] at h
  obtain ⟨⟨sent, slots, rng⟩, hslots, hdone⟩ := Option.bind_eq_some_iff.1 h
  cases hdone
  exact ⟨rfl, stepEach_get hslots hslot⟩

/-- Whether the message sent something, step by step. -/
def sentBy (i : ℕ) (records : List (List (Option Frame))) : List Bool :=
  records.map fun sent => (sent.getD i none).isSome

end Ecu

/-! ### A cyclic message -/

namespace Slot

variable {slot built : Slot G R} {plant : Option (Vehicle R)} {now : ℕ} {rng : G}

/-- What `build` changes of a slot. -/
theorem build_eq {frame : Frame} (h : slot.build plant now = some (frame, built)) :
    ∃ bindings, built =
      { tx := { slot.tx with bindings }, rt := { slot.rt with counter := slot.rt.counter + 1 } } := by
  unfold build at h
  dsimp only at h
  obtain ⟨f₀, -, h⟩ := Option.bind_eq_some_iff.1 h
  obtain ⟨⟨f₁, bindings⟩, -, h⟩ := Option.bind_eq_some_iff.1 h
  obtain ⟨f₂, -, h⟩ := Option.bind_eq_some_iff.1 h
  obtain ⟨f₃, -, hdone⟩ := Option.bind_eq_some_iff.1 h
  cases hdone
  exact ⟨bindings, rfl⟩

/-- A cyclic message without jitter. -/
structure Cyclic (slot : Slot G R) : Prop where
  mode : slot.tx.mode = .cyclic
  jitter : slot.tx.jitterNs = 0
  cycle : slot.tx.cycleNs ≠ 0

/-- When it is due, its next due time does not overflow. -/
def Fits (slot : Slot G R) (now : ℕ) : Prop :=
  slot.rt.nextDueNs ≤ now → nextTime slot.tx.cycleNs.toNat slot.rt.nextDueNs now < 2 ^ 64

omit [Scalar R] [Engine G R] in
theorem Cyclic.pos (h : slot.Cyclic) : 0 < slot.tx.cycleNs.toNat := by
  have := h.cycle
  rw [Ne, ← BitVec.toNat_inj] at this
  exact Nat.pos_of_ne_zero this

omit [Scalar R] in
theorem nextDue_fst {tx : TxMessage G R} (hjitter : tx.jitterNs = 0) (due now : ℕ) (rng : G) :
    (nextDue tx due now rng).1 =
      if addNs due tx.cycleNs.toNat ≤ now then addNs now tx.cycleNs.toNat
      else addNs due tx.cycleNs.toNat := by
  unfold nextDue
  dsimp only
  rw [if_pos hjitter]

omit [Scalar R] in
/-- **Without overflow the message is a timer.** -/
theorem nextDue_eq {tx : TxMessage G R} (hjitter : tx.jitterNs = 0) {due now : ℕ}
    (hfits : nextTime tx.cycleNs.toNat due now < 2 ^ 64) (hdue : due ≤ now) (rng : G) :
    (nextDue tx due now rng).1 = nextTime tx.cycleNs.toNat due now := by
  rw [nextDue_fst hjitter]
  unfold addNs
  unfold nextTime at *
  split_ifs at * <;> omega

omit [Scalar R] in
/-- **An overflow makes it due at once.** -/
theorem nextDue_le {tx : TxMessage G R} (hjitter : tx.jitterNs = 0) {due now : ℕ}
    (hnow : now < 2 ^ 64) (hover : 2 ^ 64 ≤ nextTime tx.cycleNs.toNat due now) (hdue : due ≤ now)
    (rng : G) : (nextDue tx due now rng).1 ≤ now := by
  have hcycle := tx.cycleNs.isLt
  rw [nextDue_fst hjitter]
  unfold addNs
  unfold nextTime at hover
  split_ifs at * <;> omega

/-- **A step of a cyclic message.** -/
theorem Cyclic.step {slot' : Slot G R} {f : Option Frame} {rng' : G} (h : slot.Cyclic)
    (hstep : slot.step plant now rng = some (f, slot', rng')) :
    slot'.Cyclic ∧ slot'.tx.cycleNs = slot.tx.cycleNs ∧
      (slot.rt.nextDueNs ≤ now ∧ f.isSome = true ∧
          slot'.rt.nextDueNs = (nextDue slot'.tx slot.rt.nextDueNs now rng).1 ∨
        now < slot.rt.nextDueNs ∧ f = none ∧ slot'.rt.nextDueNs = slot.rt.nextDueNs) := by
  have hpoll : slot.poll now = (decide (slot.rt.nextDueNs ≤ now), slot) := by
    unfold poll
    rw [h.mode]
  unfold Slot.step at hstep
  rw [hpoll] at hstep
  dsimp only at hstep
  by_cases hdue : slot.rt.nextDueNs ≤ now
  · rw [if_neg (by simp [hdue])] at hstep
    obtain ⟨⟨frame, built⟩, hbuild, hstep⟩ := Option.bind_eq_some_iff.1 hstep
    obtain ⟨bindings, rfl⟩ := build_eq hbuild
    dsimp only at hstep
    rw [if_neg (by simp [h.mode]), if_neg (by simp [h.mode])] at hstep
    cases hstep
    exact ⟨⟨h.mode, h.jitter, h.cycle⟩, rfl, .inl ⟨hdue, rfl, rfl⟩⟩
  · rw [if_pos (by simp [hdue])] at hstep
    cases hstep
    exact ⟨h, rfl, .inr ⟨Nat.not_le.1 hdue, rfl, rfl⟩⟩

/-- **The next due time is later than the step exactly if it does not overflow.** -/
theorem Cyclic.fits_iff {slot' : Slot G R} {f : Option Frame} {rng' : G} (h : slot.Cyclic)
    (hnow : now < 2 ^ 64) (hstep : slot.step plant now rng = some (f, slot', rng')) :
    slot.Fits now ↔ now < slot'.rt.nextDueNs := by
  obtain ⟨h', hcycle, ⟨hdue, -, hnext⟩ | ⟨hdue, -, hnext⟩⟩ := h.step hstep
  · rw [hnext]
    constructor
    · intro hfits
      rw [nextDue_eq h'.jitter (by rw [hcycle]; exact hfits hdue) hdue]
      exact lt_nextTime h'.pos
    · intro hlater _
      by_contra hover
      rw [← hcycle] at hover
      have hle := nextDue_le h'.jitter hnow (Nat.not_lt.1 hover) hdue rng
      omega
  · rw [hnext]
    exact ⟨fun _ => hdue, fun _ hle => absurd hle (Nat.not_le.2 hdue)⟩

end Slot

namespace Ecu

variable {ecu last : Ecu G R} {i : ℕ} {slot : Slot G R} {polls : List (Poll R)}
  {records : List (List (Option Frame))}

/-- A step sends at most one frame of a message, and message `i` is due again after it. -/
def KeepsCycle (i : ℕ) (before : Ecu G R) (poll : Poll R) (sent : List (Option Frame))
    (after : Ecu G R) : Prop :=
  before.step poll.now poll.plant = some (sent.flatMap (·.toList), after) ∧
    sent.length = before.slots.length ∧
    ∀ s, after.slots[i]? = some s → poll.now < s.rt.nextDueNs

/-- The due times of the message `i` do not overflow in a step. -/
def FitsAt (i : ℕ) (before : Ecu G R) (poll : Poll R) (_ : List (Option Frame)) (_ : Ecu G R) :
    Prop :=
  ∀ s, before.slots[i]? = some s → s.Fits poll.now

/-- **A message whose due times fit is a timer.** -/
theorem sentBy_eq_fires (hrunning : ecu.running = true) (hslot : ecu.slots[i]? = some slot)
    (hcyclic : slot.Cyclic) (hfits : EachStep (FitsAt i) ecu polls)
    (hrun : ecu.run polls = some (records, last)) : sentBy i records =
      fires slot.tx.cycleNs.toNat slot.rt.nextDueNs (polls.map (·.now)) := by
  induction polls generalizing ecu slot records with
  | nil =>
    cases hrun
    rfl
  | cons poll polls ih =>
    rw [run] at hrun
    obtain ⟨⟨sent, next⟩, hsends, hrun⟩ := Option.bind_eq_some_iff.1 hrun
    obtain ⟨⟨more, last'⟩, hmore, hdone⟩ := Option.bind_eq_some_iff.1 hrun
    cases hdone
    obtain ⟨hfit, hrest⟩ := hfits sent next hsends
    obtain ⟨hnext, g, g', f, slot', hstep, hget, hsent⟩ := sends_get hrunning hsends hslot
    obtain ⟨hcyclic', hcycle, hcase⟩ := hcyclic.step hstep
    have htail := ih hnext hget hcyclic' hrest hmore
    have hhead : (sent.getD i none).isSome = f.isSome := by
      rw [List.getD_eq_getElem?_getD, hsent]
      rfl
    rw [sentBy, List.map_cons, hhead, ← sentBy, htail, hcycle, List.map_cons, fires]
    obtain ⟨hdue, hsome, hnextDue⟩ | ⟨hdue, rfl, hnextDue⟩ := hcase
    · have htime := Slot.nextDue_eq hcyclic'.jitter
        (by rw [hcycle]; exact hfit slot hslot hdue) hdue g
      rw [if_pos hdue, hsome, hnextDue, htime, hcycle]
    · rw [if_neg (Nat.not_le.2 hdue), hnextDue]
      rfl

/-- The same in a run. -/
theorem keepsCycle_iff (hrunning : ecu.running = true) (hslot : ecu.slots[i]? = some slot)
    (hcyclic : slot.Cyclic) (htimes : ∀ poll ∈ polls, poll.now < 2 ^ 64) :
    EachStep (FitsAt i) ecu polls ↔ EachStep (KeepsCycle i) ecu polls := by
  induction polls generalizing ecu slot with
  | nil => exact Iff.rfl
  | cons poll polls ih =>
    obtain ⟨htime, htimes⟩ := List.forall_mem_cons.1 htimes
    refine forall_congr' fun sent => forall_congr' fun next => forall_congr' fun hsends => ?_
    obtain ⟨hnext, g, g', f, slot', hstep, hget, -⟩ := sends_get hrunning hsends hslot
    refine and_congr ?_ (ih hnext hget (hcyclic.step hstep).1 htimes)
    have hone : ecu.step poll.now poll.plant = some (sent.flatMap (·.toList), next) := by
      rw [step_eq, hsends]
      rfl
    have hfits := hcyclic.fits_iff htime hstep
    constructor
    · intro hfit
      refine ⟨hone, sends_length hsends, fun s hs => ?_⟩
      obtain rfl : slot' = s := Option.some.inj (hget.symm.trans hs)
      exact hfits.1 (hfit slot hslot)
    · rintro ⟨-, -, hlater⟩ s hs
      obtain rfl : slot = s := Option.some.inj (hslot.symm.trans hs)
      exact hfits.2 (hlater slot' hget)

/-- **A cyclic message keeps its cycle**: it is sent for the `k`-th time at the first step at or
after its phase and `k` cycles, under steps less than a cycle apart; and under any steps it is sent
at most once in each and due again after it.  That is so exactly in the runs in which none of its
due times overflows. -/
theorem cyclic_schedule_iff (hrunning : ecu.running = true) (hslot : ecu.slots[i]? = some slot)
    (hcyclic : slot.Cyclic) (htimes : ∀ poll ∈ polls, poll.now < 2 ^ 64)
    (hrun : ecu.run polls = some (records, last)) :
    EachStep (FitsAt i) ecu polls ↔
      EachStep (KeepsCycle i) ecu polls ∧
        (Fine slot.tx.cycleNs.toNat slot.rt.nextDueNs (polls.map (·.now)) → ∀ k,
          (firings 0 (sentBy i records))[k]? = (polls.map (·.now)).findIdx?
            (slot.rt.nextDueNs + k * slot.tx.cycleNs.toNat ≤ ·)) := by
  constructor
  · intro hfits
    refine ⟨(keepsCycle_iff hrunning hslot hcyclic htimes).1 hfits, fun hfine k => ?_⟩
    rw [sentBy_eq_fires hrunning hslot hcyclic hfits hrun, firings_fires hfine]
    simp
  · exact fun h => (keepsCycle_iff hrunning hslot hcyclic htimes).2 h.1

/-- A message of some phase and cycle. -/
def cyclicMessage (phaseNs cycleNs : BitVec 64) : TxMessage ℕ ℚ :=
  { message := { name := ascii "Status", id := ⟨0x123, CanId.inRange_standard⟩, dlc := 1 }
    phaseNs, cycleNs }

/-- A node with one of these. -/
def cyclicEcu (phaseNs cycleNs : BitVec 64) : Ecu ℕ ℚ :=
  (create ℚ (ascii "ECM")).add (cyclicMessage phaseNs cycleNs)

/-- Some steps without a vehicle. -/
def pollsAt (times : List ℕ) : List (Poll ℚ) := times.map fun now => { now }

theorem cyclic_schedule_late :
    ∃ (records : List (List (Option Frame))) (last : Ecu ℕ ℚ),
      (cyclicEcu 3 10).run (pollsAt [0, 4, 9, 16, 23]) = some (records, last) ∧
        (EachStep (FitsAt 0) (cyclicEcu 3 10) (pollsAt [0, 4, 9, 16, 23]) ↔
          EachStep (KeepsCycle 0) (cyclicEcu 3 10) (pollsAt [0, 4, 9, 16, 23]) ∧
            (Fine 10 3 [0, 4, 9, 16, 23] → ∀ k, (firings 0 (sentBy 0 records))[k]? =
              [0, 4, 9, 16, 23].findIdx? (3 + k * 10 ≤ ·))) := by
  have hruns : ((cyclicEcu 3 10).run (pollsAt [0, 4, 9, 16, 23])).isSome = true := by
    decide +kernel
  obtain ⟨⟨records, last⟩, hrun⟩ := Option.isSome_iff_exists.1 hruns
  have hslot : (cyclicEcu 3 10).slots[0]? =
      some { tx := cyclicMessage 3 10, rt := { nextDueNs := 3 } } :=
    rfl
  exact ⟨records, last, hrun,
    cyclic_schedule_iff rfl hslot ⟨rfl, rfl, by decide⟩ (by decide) hrun⟩

/-- A message that is due once in 584 years is sent at every step from its phase on. -/
theorem cycle_wraps : ∃ (records : List (List (Option Frame))) (last : Ecu ℕ ℚ) (s : Slot ℕ ℚ),
    (cyclicEcu 2000000000 18446744072709551616).run
        (pollsAt [2000000000, 3000000000, 4000000000]) = some (records, last) ∧
      Fine 18446744072709551616 2000000000 [2000000000, 3000000000, 4000000000] ∧
      firings 0 (sentBy 0 records) = [0, 1, 2] ∧
      [2000000000, 3000000000, 4000000000].findIdx?
        (2000000000 + 1 * 18446744072709551616 ≤ ·) = none ∧
      last.slots[0]? = some s ∧ s.rt.nextDueNs ≤ 4000000000 := by
  have hcheck : (match (cyclicEcu 2000000000 18446744072709551616).run
        (pollsAt [2000000000, 3000000000, 4000000000]) with
      | some (records, last) =>
        match last.slots[0]? with
        | some s =>
          decide (firings 0 (sentBy 0 records) = [0, 1, 2] ∧ s.rt.nextDueNs ≤ 4000000000)
        | none => false
      | none => false) = true := by
    decide +kernel
  split at hcheck
  · rename_i records last hrun
    split at hcheck
    · rename_i s hs
      obtain ⟨hsent, hdue⟩ := of_decide_eq_true hcheck
      exact ⟨records, last, s, hrun, by decide, hsent, by decide, hs, hdue⟩
    · cases hcheck
  · cases hcheck

end Ecu

end Sim
end Canforge
