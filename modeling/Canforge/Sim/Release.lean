/-
# What a simulation releases

A frame of a node passes the faults and is scheduled, and the queue of the simulator is a timed
queue, so the library says when the frame is released.  What is left to show is what the faults
make of a frame: it is dropped and counted, or due as much later as the delays that apply to it
add up to (`process_spec`).  `releases_in_order` puts the two together for the runs of a
simulator with any switching of faults between the steps.
-/

import Canforge.Sim.Simulator

namespace Canforge
namespace Sim

open Canforge.Core IsoTp Lib

variable {G R : Type} [Scalar R] [Engine G R]

/-! ### What the faults make of a frame -/

/-- The delay that the faults add up to for a frame of a node. -/
def delayOf (faults : List (Fault R)) (node : Text) (id : CanId) : ℕ :=
  ((faults.filter fun f => f.applies node id && decide (f.kind = .delayMessage)).map
    (·.delayNs)).sum

namespace FaultInjector

variable {inj inj' : FaultInjector G R} {f : Fault R} {message : Option (Message R)} {id : CanId}
  {p p' : Passage G R} {node : Text} {frame : Frame} {now : ℕ} {db : Database R}

/-- A fault that changes the payload at most. -/
structure Keeps (p p' : Passage G R) : Prop where
  whenNs : p'.whenNs = p.whenNs
  faults : p'.injector.faults = p.injector.faults
  seed : p'.injector.seed = p.injector.seed
  dropped : p'.injector.dropped = p.injector.dropped

omit [Engine G R] in
theorem freeze_keeps (h : freeze f message id p = some p') : Keeps p p' := by
  unfold freeze at h
  split at h
  · cases h
    constructor <;> rfl
  split_ifs at h
  · split at h
    · obtain ⟨_, -, h⟩ := Option.bind_eq_some_iff.1 h
      cases h
      constructor <;> rfl
    · obtain ⟨_, -, h⟩ := Option.bind_eq_some_iff.1 h
      obtain ⟨_, -, h⟩ := Option.bind_eq_some_iff.1 h
      cases h
      constructor <;> rfl
  · cases h
    constructor <;> rfl

omit [Engine G R] in
theorem forceOutOfRange_keeps (h : forceOutOfRange f message p = some p') : Keeps p p' := by
  unfold forceOutOfRange at h
  split at h
  · cases h
    constructor <;> rfl
  split_ifs at h
  · obtain ⟨_, -, h⟩ := Option.bind_eq_some_iff.1 h
    split at h
    · cases h
      constructor <;> rfl
    · cases h
      constructor <;> rfl
  · cases h
    constructor <;> rfl

theorem bitFlip_keeps (h : bitFlip f p = some p') : Keeps p p' := by
  unfold bitFlip at h
  dsimp only at h
  split_ifs at h
  · obtain ⟨_, -, h⟩ := Option.bind_eq_some_iff.1 h
    cases h
    constructor <;> rfl
  · cases h
    constructor <;> rfl

/-- What a fault does that lets the frame pass. -/
structure Passes (f : Fault R) (p p' : Passage G R) : Prop where
  whenNs : p'.whenNs = if f.kind = .delayMessage then addNs p.whenNs f.delayNs else p.whenNs
  faults : p'.injector.faults = p.injector.faults
  seed : p'.injector.seed = p.injector.seed
  dropped : p'.injector.dropped = p.injector.dropped

omit [Scalar R] [Engine G R] in
theorem Keeps.passes (h : Keeps p p') (hkind : f.kind ≠ .delayMessage) : Passes f p p' :=
  ⟨h.whenNs.trans (if_neg hkind).symm, h.faults, h.seed, h.dropped⟩

/-- What a fault does that drops it. -/
structure Drops (p : Passage G R) (inj : FaultInjector G R) : Prop where
  faults : inj.faults = p.injector.faults
  seed : inj.seed = p.injector.seed
  dropped : inj.dropped = p.injector.dropped + 1

/-- **One fault.** -/
theorem pass_spec {x : Passage G R ⊕ FaultInjector G R} (h : pass f message id p = some x) :
    (∃ p', x = .inl p' ∧ Passes f p p') ∨ ∃ inj, x = .inr inj ∧ Drops p inj := by
  unfold pass at h
  split at h
  all_goals rename_i hkind
  · cases h
    exact .inl ⟨p, rfl, Keeps.passes ⟨rfl, rfl, rfl, rfl⟩ (by simp [hkind])⟩
  · dsimp only at h
    split_ifs at h
    · cases h
      exact .inr ⟨_, rfl, rfl, rfl, rfl⟩
    · cases h
      exact .inl ⟨_, rfl, Keeps.passes ⟨rfl, rfl, rfl, rfl⟩ (by simp [hkind])⟩
  · cases h
    exact .inl ⟨_, rfl, (if_pos hkind).symm, rfl, rfl, rfl⟩
  · obtain ⟨p', hp, rfl⟩ := Option.map_eq_some_iff.1 h
    exact .inl ⟨p', rfl, (freeze_keeps hp).passes (by simp [hkind])⟩
  · obtain ⟨p', hp, rfl⟩ := Option.map_eq_some_iff.1 h
    exact .inl ⟨p', rfl, (forceOutOfRange_keeps hp).passes (by simp [hkind])⟩
  · obtain ⟨p', hp, rfl⟩ := Option.map_eq_some_iff.1 h
    exact .inl ⟨p', rfl, (bitFlip_keeps hp).passes (by simp [hkind])⟩

/-- What `process` makes of a frame: it is dropped and counted, or due after its delays. -/
structure Processed (met : List (Fault R)) (inj : FaultInjector G R) (node : Text) (id : CanId)
    (whenNs : ℕ) (passed : Option ScheduledFrame) (inj' : FaultInjector G R) : Prop where
  faults : inj'.faults = inj.faults
  seed : inj'.seed = inj.seed
  dropped : inj'.dropped = inj.dropped + if passed.isNone then 1 else 0
  atNs : whenNs + delayOf met node id < 2 ^ 64 →
    ∀ s ∈ passed, s.atNs = whenNs + delayOf met node id

omit [Scalar R] in
theorem delayOf_cons (f : Fault R) (faults : List (Fault R)) :
    delayOf (f :: faults) node id =
      (if f.applies node id ∧ f.kind = .delayMessage then f.delayNs else 0) +
        delayOf faults node id := by
  unfold delayOf
  rw [List.filter_cons]
  by_cases h : f.applies node id ∧ f.kind = .delayMessage
  · rw [if_pos h, if_pos (by simpa using h), List.map_cons, List.sum_cons]
  · rw [if_neg h, if_neg (by simpa using h), Nat.zero_add]

theorem passAll_spec {faults : List (Fault R)} {passed : Option ScheduledFrame}
    (h : passAll node message id faults p = some (passed, inj')) :
    Processed faults p.injector node id p.whenNs passed inj' := by
  induction faults generalizing p with
  | nil =>
    cases h
    constructor
    · rfl
    · rfl
    · rfl
    · intro _ s hs
      cases hs
      rfl
  | cons f faults ih =>
    rw [passAll] at h
    split_ifs at h with happlies
    · obtain ⟨x, hx, h⟩ := Option.bind_eq_some_iff.1 h
      obtain ⟨p', rfl, hp⟩ | ⟨inj, rfl, hd⟩ := pass_spec hx
      · have hrest := ih h
        refine ⟨hrest.faults.trans hp.faults, hrest.seed.trans hp.seed, ?_, fun hfit s hs => ?_⟩
        · rw [hrest.dropped, hp.dropped]
        · rw [delayOf_cons] at hfit ⊢
          by_cases hkind : f.kind = .delayMessage
          · rw [if_pos ⟨happlies, hkind⟩] at hfit ⊢
            have hwhen : p'.whenNs = p.whenNs + f.delayNs := by
              rw [hp.whenNs, if_pos hkind]
              exact Nat.mod_eq_of_lt (by omega)
            rw [hrest.atNs (by omega) s hs]
            omega
          · rw [if_neg fun hboth => hkind hboth.2] at hfit ⊢
            have hwhen : p'.whenNs = p.whenNs := hp.whenNs.trans (if_neg hkind)
            rw [hrest.atNs (by omega) s hs]
            omega
      · cases h
        exact ⟨hd.faults, hd.seed, hd.dropped, by rintro _ s ⟨⟩⟩
    · have hrest := ih h
      refine ⟨hrest.faults, hrest.seed, hrest.dropped, ?_⟩
      rw [delayOf_cons, if_neg fun hboth => happlies hboth.1, Nat.zero_add]
      exact hrest.atNs

/-- **What the faults make of a frame.** -/
theorem process_spec {passed : Option ScheduledFrame}
    (h : inj.process node frame now db = some (passed, inj')) :
    Processed inj.faults inj node frame.id now passed inj' := by
  unfold process at h
  split_ifs at h
  · cases h
    exact ⟨rfl, rfl, rfl, by rintro _ s ⟨⟩⟩
  · exact passAll_spec h

end FaultInjector

/-! ### A step -/

namespace Simulator

variable {sim sim₀ next last : Simulator G R} {config : SimConfig R} {db : Database R}
  {node : Text} {now : ℕ} {inj inj' : FaultInjector G R} {outcomes : List Outcome}

/-- A frame that passed is due after its delays. -/
def Timely (faults : List (Fault R)) (now : ℕ) (o : Outcome) : Prop :=
  now + delayOf faults o.node o.frame.id < 2 ^ 64 →
    ∀ s ∈ o.passed, s.atNs = now + delayOf faults o.node o.frame.id

/-- The frames that were dropped. -/
def dropped (outcomes : List Outcome) : ℕ := outcomes.countP (·.passed.isNone)

/-- What is known of the frames the faults were applied to one after the other. -/
structure Books (inj : FaultInjector G R) (now : ℕ) (outcomes : List Outcome)
    (inj' : FaultInjector G R) : Prop where
  faults : inj'.faults = inj.faults
  seed : inj'.seed = inj.seed
  dropped : inj'.dropped = inj.dropped + dropped outcomes
  timely : ∀ o ∈ outcomes, Timely inj.faults now o

omit [Scalar R] [Engine G R] in
theorem Books.nil : Books inj now [] inj := by
  constructor
  · rfl
  · rfl
  · rfl
  · intro o ho
    cases ho

omit [Scalar R] [Engine G R] in
theorem Books.append {inj'' : FaultInjector G R} {more : List Outcome}
    (h : Books inj now outcomes inj') (h' : Books inj' now more inj'') :
    Books inj now (outcomes ++ more) inj'' := by
  constructor
  · rw [h'.faults, h.faults]
  · rw [h'.seed, h.seed]
  · rw [h'.dropped, h.dropped, Simulator.dropped, Simulator.dropped, Simulator.dropped,
      List.countP_append, Nat.add_assoc]
  · intro o ho
    rcases List.mem_append.1 ho with ho | ho
    · exact h.timely o ho
    · exact h.faults ▸ h'.timely o ho

theorem processAll_books {frames : List Frame}
    (h : processAll db node now frames inj = some (outcomes, inj')) :
    Books inj now outcomes inj' := by
  induction frames generalizing inj outcomes with
  | nil =>
    cases h
    exact Books.nil
  | cons frame frames ih =>
    rw [processAll] at h
    obtain ⟨⟨passed, middle⟩, hone, h⟩ := Option.bind_eq_some_iff.1 h
    obtain ⟨⟨more, rest⟩, hmore, h⟩ := Option.bind_eq_some_iff.1 h
    cases h
    have hspec := FaultInjector.process_spec hone
    have hfirst : Books inj now [⟨node, frame, passed⟩] middle := by
      constructor
      · exact hspec.faults
      · exact hspec.seed
      · rw [hspec.dropped, Simulator.dropped, List.countP_singleton]
      · intro o ho
        obtain rfl := List.mem_singleton.1 ho
        exact hspec.atNs
    exact hfirst.append (ih hmore)

theorem produce_books {plant : Option (Vehicle R)} {ecus : List (Ecu G R)} {made : Produced G R}
    (h : produce db plant now ecus inj = some made) :
    Books inj now made.outcomes made.faults := by
  induction ecus generalizing inj made with
  | nil =>
    cases h
    exact Books.nil
  | cons ecu ecus ih =>
    rw [produce] at h
    obtain ⟨⟨frames, ecu'⟩, -, h⟩ := Option.bind_eq_some_iff.1 h
    obtain ⟨⟨outcomes, middle⟩, hone, h⟩ := Option.bind_eq_some_iff.1 h
    obtain ⟨more, hmore, h⟩ := Option.bind_eq_some_iff.1 h
    cases h
    exact (processAll_books hone).append (ih hmore)

/-- The frame as it is released. -/
def stamp (now : ℕ) (s : ScheduledFrame) : Frame := s.frame.setTimestampNs now

omit [Engine G R] in
theorem moveTo_frame (sim : Simulator G R) (now : ℕ) :
    (sim.moveTo now).faults = sim.faults ∧ (sim.moveTo now).pending = sim.pending ∧
      (sim.moveTo now).produced = sim.produced :=
  ⟨rfl, rfl, rfl⟩

/-- What one step does. -/
structure Stepped (sim : Simulator G R) (now : ℕ) (outcomes : List Outcome)
    (released : List Frame) (next : Simulator G R) : Prop where
  released : released =
    (release ScheduledFrame.atNs now (sim.pending ++ scheduled outcomes)).1.map (stamp now)
  pending : next.pending =
    (release ScheduledFrame.atNs now (sim.pending ++ scheduled outcomes)).2
  produced : next.produced = sim.produced + outcomes.length
  books : Books sim.faults now outcomes next.faults

/-- **A step.** -/
theorem step_spec {made : Produced G R} {released : List Frame} (hmade : sim.make now = some made)
    (h : sim.step now = some (released, next)) : Stepped sim now made.outcomes released next := by
  obtain ⟨hfaults, hpending, hproduced⟩ := moveTo_frame sim now
  have hbooks := produce_books (G := G) hmade
  unfold step at h
  rw [hmade] at h
  cases h
  constructor
  · simp only [hpending]
    rfl
  · simp only [hpending]
    rfl
  · simp only [hproduced]
  · rwa [hfaults] at hbooks

/-! ### A run -/

/-- A step of a run as a round of the queue. -/
def Record.round (r : Record R) : Round ScheduledFrame := ⟨r.now, scheduled r.outcomes⟩

/-- The frames of a run whose time comes in its step `i`, by their due time; those of step `j`
wait for the first step from `j` on that is not before it. -/
def dueIn (records : List (Record R)) (i : ℕ) : List ScheduledFrame :=
  stableSort (·.atNs) (((arrivals (records.map (·.round))).filter fun a =>
    leaves (records.map (·.round)) a.1 a.2.atNs = some i).map Prod.snd)

/-- The frames of a run that are still waiting at its end. -/
def waiting (records : List (Record R)) : List ScheduledFrame :=
  stableSort (·.atNs) (((arrivals (records.map (·.round))).filter fun a =>
    leaves (records.map (·.round)) a.1 a.2.atNs = none).map Prod.snd)

/-- What a run adds up to. -/
structure Ledger (sim : Simulator G R) (records : List (Record R)) (last : Simulator G R) :
    Prop where
  released : records.map (·.released) = List.zipWith (fun r due => due.map (stamp r.now)) records
    (releases ScheduledFrame.atNs sim.pending (records.map (·.round))).1
  pending : last.pending = (releases ScheduledFrame.atNs sim.pending (records.map (·.round))).2
  produced : last.produced = sim.produced + (records.map (·.outcomes.length)).sum
  dropped : last.faults.dropped = sim.faults.dropped + (records.map (dropped ·.outcomes)).sum
  timely : ∀ r ∈ records, ∀ o ∈ r.outcomes, Timely r.faults r.now o

omit [Engine G R] in
theorem control_frame (sim : Simulator G R) (c : Control) :
    (sim.control c).pending = sim.pending ∧ (sim.control c).produced = sim.produced ∧
      (sim.control c).faults.dropped = sim.faults.dropped := by
  cases c <;> exact ⟨rfl, rfl, rfl⟩

/-- **A run.** -/
theorem run_ledger {events : List Event} {records : List (Record R)}
    (h : sim.run events = some (records, last)) : Ledger sim records last := by
  induction events generalizing sim records with
  | nil =>
    cases h
    constructor
    · rfl
    · rfl
    · rfl
    · rfl
    · intro r hr
      cases hr
  | cons event events ih =>
    cases event with
    | control c =>
      obtain ⟨hpending, hproduced, hdropped⟩ := control_frame sim c
      have hrest := @ih (sim.control c) records h
      rw [run] at h
      constructor
      · rw [hrest.released, hpending]
      · rw [hrest.pending, hpending]
      · rw [hrest.produced, hproduced]
      · rw [hrest.dropped, hdropped]
      · exact hrest.timely
    | step now =>
      rw [run] at h
      obtain ⟨made, hmade, h⟩ := Option.bind_eq_some_iff.1 h
      obtain ⟨⟨released, next⟩, hstep, h⟩ := Option.bind_eq_some_iff.1 h
      obtain ⟨⟨more, end_⟩, hrun, h⟩ := Option.bind_eq_some_iff.1 h
      cases h
      have hone := step_spec hmade hstep
      have hrest := ih hrun
      constructor
      · rw [List.map_cons, List.map_cons, releases, List.zipWith_cons_cons, hrest.released,
          hone.pending, hone.released]
        rfl
      · rw [hrest.pending, hone.pending]
        rfl
      · rw [hrest.produced, hone.produced, List.map_cons, List.sum_cons, Nat.add_assoc]
      · rw [hrest.dropped, hone.books.dropped, List.map_cons, List.sum_cons, Nat.add_assoc]
      · intro r hr
        rcases List.mem_cons.1 hr with rfl | hr
        · exact hone.books.timely
        · exact hrest.timely r hr

/-- Everything a run releases, in the order it does. -/
def whole (records : List (Record R)) : List ScheduledFrame :=
  (List.range records.length).flatMap (dueIn records)

omit [Scalar R] in
theorem releases_records (records : List (Record R)) :
    (releases ScheduledFrame.atNs [] (records.map (·.round))).1 =
      (List.range records.length).map (dueIn records) := by
  rw [releases_eq, List.length_map]
  rfl

/-- A new simulator has an empty queue and clean books. -/
theorem build_spec (h : build config db = .ok sim₀) :
    sim₀.pending = [] ∧ sim₀.produced = 0 ∧ sim₀.faults.dropped = 0 := by
  have hadd : ∀ (fs : List (Fault R)) (inj : FaultInjector G R),
      (fs.foldl FaultInjector.add inj).dropped = inj.dropped := by
    intro fs
    induction fs with
    | nil => exact fun _ => rfl
    | cons f fs ih => exact fun inj => ih (inj.add f)
  unfold build at h
  split at h
  · cases h
  · cases h
    exact ⟨rfl, rfl, hadd _ _⟩

/-- **A simulation releases what its faults let through, once, in time and in order.** -/
theorem releases_in_order {events : List Event} {records : List (Record R)}
    (hbuild : build config db = .ok sim₀) (hrun : sim₀.run events = some (records, last))
    (htimes : records.Pairwise fun r s => r.now ≤ s.now)
    (hfit : ∀ r ∈ records, ∀ o ∈ r.outcomes, o.passed.isSome →
      r.now + delayOf r.faults o.node o.frame.id < 2 ^ 64) :
    (∀ r ∈ records, ∀ o ∈ r.outcomes, ∀ s ∈ o.passed,
        s.atNs = r.now + delayOf r.faults o.node o.frame.id) ∧
      last.produced = (records.map (·.outcomes.length)).sum ∧
      last.faults.dropped = (records.map (dropped ·.outcomes)).sum ∧
      (∀ i r, records[i]? = some r → r.released = (dueIn records i).map (stamp r.now)) ∧
      last.pending = waiting records ∧
      SortedBy (·.atNs) (whole records) ∧
      ∀ t, (whole records).filter (·.atNs = t) =
        (records.flatMap (scheduled ·.outcomes)).filter fun s =>
          hasCome (records.map (·.round)) s.atNs && s.atNs = t := by
  obtain ⟨hpending, hproduced, hdropped⟩ := build_spec hbuild
  have hledger := run_ledger hrun
  have hat : ∀ r ∈ records, ∀ o ∈ r.outcomes, ∀ s ∈ o.passed,
      s.atNs = r.now + delayOf r.faults o.node o.frame.id :=
    fun r hr o ho s hs =>
      hledger.timely r hr o ho (hfit r hr o ho (Option.isSome_iff_exists.2 ⟨s, hs⟩)) s hs
  have hrounds : (records.map (·.round)).Pairwise fun r s => r.now ≤ s.now :=
    List.pairwise_map.2 htimes
  have hdue : ∀ r ∈ records.map (·.round), ∀ s ∈ r.arrivals, r.now ≤ s.atNs := by
    intro r hr s hs
    obtain ⟨record, hrecord, rfl⟩ := List.mem_map.1 hr
    obtain ⟨o, ho, hpassed⟩ := List.mem_filterMap.1 hs
    rw [hat record hrecord o ho s hpassed]
    exact Nat.le_add_right _ _
  have hwhole : whole records = stableSort (·.atNs)
      ((records.flatMap (scheduled ·.outcomes)).filter fun s =>
        hasCome (records.map (·.round)) s.atNs) := by
    have := @flatten_releases _ _ [] _ hrounds hdue
    rw [releases_records, ← List.flatMap_def] at this
    rw [whole, this, List.nil_append, List.flatMap_map]
    rfl
  refine ⟨hat, ?_, ?_, ?_, ?_, ?_, ?_⟩
  · rw [hledger.produced, hproduced, Nat.zero_add]
  · rw [hledger.dropped, hdropped, Nat.zero_add]
  · intro i r hr
    have hi := congrArg (·[i]?) hledger.released
    rw [hpending, releases_records] at hi
    obtain ⟨hlt, rfl⟩ := List.getElem?_eq_some_iff.1 hr
    simpa [List.getElem?_zipWith, hlt] using hi
  · rw [hledger.pending, hpending, releases_rest List.Pairwise.nil]
    rfl
  · rw [hwhole]
    exact sortedBy_stableSort _ _
  · intro t
    rw [hwhole, filter_key_stableSort, List.filter_filter]
    simp only [Bool.and_comm]

/-- Two messages, the first of which may be late and either of which may be lost. -/
def lateDatabase : Database ℚ :=
  { messages :=
      [{ name := ascii "Slow", id := ⟨0x123, CanId.inRange_standard⟩, dlc := 1 },
       { name := ascii "Fast", id := ⟨0x80000004, CanId.inRange_extended⟩, dlc := 2 }] }

def lateConfig : SimConfig ℚ :=
  { nodes :=
      [{ name := ascii "ECM"
         transmits := [{ message := ascii "Slow", cycleNs := 10 },
                       { message := ascii "Fast", cycleNs := 10 }] }]
    faults :=
      [{ kind := .delayMessage, name := ascii "late", value := 0, probability := 0, hasId := true,
         id := ⟨0x123, CanId.inRange_standard⟩, delayNs := 15 },
       { kind := .dropFrames, name := ascii "loss", value := 0, probability := 9 / 10 }] }

def lateEvents : List Event :=
  [.step 0, .control (.toggle (ascii "late")), .step 10, .step 20,
   .control (.toggle (ascii "loss")), .step 30, .step 45]

/-- Two late frames are overtaken, and three of the last four frames are lost. -/
theorem late_frames : ∃ (sim₀ : Simulator ℕ ℚ) (records : List (Record ℚ)) (last : Simulator ℕ ℚ),
    build lateConfig lateDatabase = .ok sim₀ ∧ sim₀.run lateEvents = some (records, last) ∧
      records.map (·.released.map (·.id.packed)) =
        [[0x123, 0x80000004], [0x80000004], [0x80000004], [0x123, 0x80000004], [0x123]] ∧
      SortedBy (·.atNs) (whole records) := by
  have hcheck : (match (build lateConfig lateDatabase : Result (Simulator ℕ ℚ)) with
      | .ok sim₀ =>
        match sim₀.run lateEvents with
        | some (records, _) => decide (
            (records.Pairwise fun r s => r.now ≤ s.now) ∧
            (∀ r ∈ records, ∀ o ∈ r.outcomes, o.passed.isSome →
              r.now + delayOf r.faults o.node o.frame.id < 2 ^ 64) ∧
            records.map (·.released.map (·.id.packed)) =
              [[0x123, 0x80000004], [0x80000004], [0x80000004], [0x123, 0x80000004], [0x123]])
        | none => false
      | .error _ => false) = true := by
    decide +kernel
  split at hcheck
  · rename_i sim₀ hbuild
    split at hcheck
    · rename_i records last hrun
      obtain ⟨htimes, hfit, hreleased⟩ := of_decide_eq_true hcheck
      refine ⟨sim₀, records, last, hbuild, hrun, hreleased, ?_⟩
      exact (releases_in_order hbuild hrun htimes hfit).2.2.2.2.2.1
    · cases hcheck
  · cases hcheck

end Simulator

end Sim
end Canforge
