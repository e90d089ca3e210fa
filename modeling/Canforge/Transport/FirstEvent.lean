/-
# The first event of a participant

What a participant sees of a run are the starts of its own transmissions and the
ends of the frames it receives.  `callEvents` are the times of these in one call,
and `Observed` is a medium beside those of each participant since its statistics
were reset.  `first_timestamp_ns` is set by an event that finds it zero
(`noted`), so it is the first time that is not zero (`Records`).  It is the time
of the first event in every state of a run if and only if no participant whose
first event is at the time zero has one at another time (`first_timestamp_iff`).
-/

import Canforge.Transport.Medium

namespace Canforge
namespace Transport

open Canforge.Core

/-! ### Events -/

/-- The frame that ends is put in the queue of the participant. -/
def VirtualBus.receives (m : VirtualMedium) (p : VirtualBus) : Bool :=
  decide ((p.offered m m.current m.currentSender).inbox ≠ p.inbox)

namespace VirtualMedium

/-- The end of the frame in flight, if the participant `who` receives it. -/
def completeEvents (m : VirtualMedium) (who : ℕ) : List ℕ :=
  if m.inFlight then
    match m.find who with
    | some p => if p.receives m then [m.current.timestampNs] else []
    | none => []
  else []

/-- The start of a transmission, if it is one of the participant `who`. -/
def startEvents (m : VirtualMedium) (who : ℕ) : List ℕ :=
  if m.startTransmission.2 ∧ m.startTransmission.1.currentSender = some who then [m.nowNs] else []

/-- The events of `completeDue`. -/
def completeDueEvents (m : VirtualMedium) (who : ℕ) : List ℕ :=
  if m.inFlight ∧ m.busyUntilNs ≤ m.nowNs then m.completeEvents who else []

/-- The events of `contend`. -/
def contendEvents (m : VirtualMedium) (who : ℕ) : List ℕ :=
  m.completeDueEvents who ++ if m.completeDue.inFlight then [] else m.completeDue.startEvents who

/-- The events of `round`. -/
def roundEvents (target : ℕ) (m : VirtualMedium) (who : ℕ) : List ℕ :=
  m.contendEvents who ++
    if m.contend.inFlight ∧ m.contend.busyUntilNs ≤ target then []
    else (m.contend.setClock target).completeDueEvents who

/-- The events of `rounds`. -/
def roundsEvents (target : ℕ) : ℕ → VirtualMedium → ℕ → List ℕ
  | 0, _, _ => []
  | n + 1, m, who =>
    m.roundEvents target who ++
      if (m.round target).2 then roundsEvents target n (m.round target).1 who else []

/-- The events of `advance`. -/
def advanceEvents (m : VirtualMedium) (duration : ℤ) (who : ℕ) : List ℕ :=
  m.roundsEvents (clockAdd m.nowNs duration.toNat) (m.roundsLeft + 1) who

/-- The events of `land`. -/
def landEvents (m : VirtualMedium) (who : ℕ) : List ℕ :=
  if m.inFlight then (m.setClock m.busyUntilNs).completeEvents who else []

/-- The events of `drainLoop`. -/
def drainLoopEvents : ℕ → VirtualMedium → ℕ → List ℕ
  | 0, _, _ => []
  | left + 1, m, who =>
    m.landEvents who ++ m.land.startEvents who ++
      if m.land.startTransmission.2 then drainLoopEvents left m.land.startTransmission.1 who else []

/-- The events of `drain`. -/
def drainEvents (m : VirtualMedium) (maxFrames who : ℕ) : List ℕ :=
  m.drainLoopEvents maxFrames who ++ (m.drainLoop maxFrames).landEvents who

/-- The events of a call. -/
def callEvents (m : VirtualMedium) (c : Call) (who : ℕ) : List ℕ :=
  match c with
  | .receive caller timeout =>
    match m.find caller with
    | some p =>
      if p.isOpen = true ∧ p.inbox = [] ∧ 0 < timeout then m.advanceEvents timeout who else []
    | none => []
  | .advance duration => m.advanceEvents duration who
  | .drain maxFrames => m.drainEvents maxFrames who
  | _ => []

end VirtualMedium

/-! ### What the events leave in the statistics -/

/-- `first_timestamp_ns` behind an event at the time `t`. -/
def noted (first t : ℕ) : ℕ := if first = 0 then t else first

theorem foldl_noted_of_ne {first : ℕ} (h : first ≠ 0) (ts : List ℕ) : ts.foldl noted first = first := by
  induction ts with
  | nil => rfl
  | cons t ts ih => rw [List.foldl_cons, noted, if_neg h, ih]

theorem foldl_noted_eq_zero {ts : List ℕ} : ts.foldl noted 0 = 0 ↔ ∀ t ∈ ts, t = 0 := by
  induction ts with
  | nil => simp
  | cons t ts ih =>
    rw [List.foldl_cons, noted, if_pos rfl, List.forall_mem_cons]
    constructor
    · intro h
      by_cases ht : t = 0
      · subst ht
        exact ⟨rfl, ih.1 h⟩
      · rw [foldl_noted_of_ne ht] at h
        exact absurd h ht
    · rintro ⟨rfl, h⟩
      exact ih.2 h

/-- **The first time is noted just where it is not zero, or all times are.** -/
theorem foldl_noted_eq_head {t : ℕ} {ts : List ℕ} (h : ts.head? = some t) :
    ts.foldl noted 0 = t ↔ (t = 0 → ∀ x ∈ ts, x = 0) := by
  by_cases ht : t = 0
  · rw [ht, foldl_noted_eq_zero]
    exact ⟨fun hall _ => hall, fun hall => hall rfl⟩
  · obtain ⟨rest, rfl⟩ := List.head?_eq_some_iff.1 h
    rw [List.foldl_cons, noted, if_pos rfl, foldl_noted_of_ne ht]
    exact ⟨fun _ hzero => absurd hzero ht, fun _ => rfl⟩

namespace VirtualMedium

variable {m m₁ m' : VirtualMedium} {events events' : ℕ → List ℕ}

/-- **From `m` to `m'` each participant saw its `events`**, and nobody else any. -/
structure Records (m : VirtualMedium) (events : ℕ → List ℕ) (m' : VirtualMedium) : Prop where
  firsts : m'.participants.map (fun p => (p.handle, p.stats.firstTimestampNs)) =
    m.participants.map fun p => (p.handle, (events p.handle).foldl noted p.stats.firstTimestampNs)
  others : ∀ who, (∀ p ∈ m.participants, p.handle ≠ who) → events who = []
  attached : m'.attached = m.attached

theorem Records.refl (m : VirtualMedium) : Records m (fun _ => []) m := ⟨rfl, fun _ _ => rfl, rfl⟩

theorem Records.handles (h : Records m events m') :
    m'.participants.map (·.handle) = m.participants.map (·.handle) := by
  have hfst := congrArg (List.map Prod.fst) h.firsts
  rwa [List.map_map, List.map_map] at hfst

theorem Records.trans (h : Records m events m₁) (h' : Records m₁ events' m') :
    Records m (fun who => events who ++ events' who) m' where
  firsts := by
    have hmap := congrArg
      (List.map fun p : ℕ × ℕ => (p.1, (events' p.1).foldl noted p.2)) h.firsts
    rw [List.map_map, List.map_map] at hmap
    rw [h'.firsts]
    refine hmap.trans (List.map_congr_left fun p _ => ?_)
    simp only [Function.comp, List.foldl_append]
  others who hwho := by
    have hwho' : ∀ p ∈ m₁.participants, p.handle ≠ who := by
      rintro p hp rfl
      have hmem := List.mem_map_of_mem (f := (·.handle)) hp
      rw [h.handles] at hmem
      obtain ⟨q, hq, heq⟩ := List.mem_map.1 hmem
      exact hwho q hq heq
    rw [h.others who hwho, h'.others who hwho', List.append_nil]
  attached := h'.attached.trans h.attached

theorem Records.of_eq (h : Records m events m') (heq : ∀ who, events who = events' who) :
    Records m events' m' := funext heq ▸ h

theorem Records.setClock (h : Records m events m') (now : ℕ) :
    Records m events (m'.setClock now) := ⟨h.firsts, h.others, h.attached⟩

/-- A start is an event of the winner. -/
theorem records_start (m : VirtualMedium) : Records m m.startEvents m.startTransmission.1 := by
  rcases start_cases m with ⟨heq, -⟩ | ⟨-, w, frame, earlier, later, hwins, heq⟩
  · have hnone : ∀ who, m.startEvents who = [] := by
      intro who
      rw [startEvents, heq]
      exact if_neg fun h => Bool.false_ne_true h.1
    rw [heq]
    exact (Records.refl m).of_eq fun who => (hnone who).symm
  · have hsome : ∀ who, m.startEvents who = if who = w.handle then [m.nowNs] else [] := by
      intro who
      rw [startEvents, heq]
      refine if_congr ?_ rfl rfl
      exact ⟨fun h => (Option.some.inj h.2).symm, fun h => ⟨rfl, congrArg some h.symm⟩⟩
    rw [heq]
    refine ⟨?_, fun who hwho => ?_, rfl⟩
    · rw [occupy_participants, List.map_map]
      refine List.map_congr_left fun p _ => ?_
      simp only [Function.comp, hsome, settled]
      split_ifs <;> rfl
    · rw [hsome, if_neg fun h => hwho w (Wins.mem hwins) h.symm]

/-- A completion is an event of those who receive the frame. -/
theorem records_complete (h : Attached m) : Records m m.completeEvents m.completeTransmission := by
  refine ⟨?_, fun who hwho => ?_, complete_attached m⟩
  · rw [complete_participants, List.map_map]
    refine List.map_congr_left fun p hp => ?_
    have hfind : m.find p.handle = some p := by
      cases hfind : m.find p.handle with
      | none => exact absurd (List.find?_eq_none.1 hfind p hp) (by simp)
      | some q =>
        obtain ⟨hq, hhandle⟩ := find_mem hfind
        rw [h.inj hq hp hhandle]
    simp only [Function.comp, completeEvents, hfind]
    cases m.inFlight with
    | false => rfl
    | true =>
      simp only [if_true, VirtualBus.receives]
      unfold VirtualBus.offered
      split_ifs <;> simp_all [noted]
  · have hnone : m.find who = none :=
      List.find?_eq_none.2 fun p hp => by simpa using hwho p hp
    rw [completeEvents, hnone]
    exact ite_self _

theorem records_completeDue (h : Attached m) : Records m m.completeDueEvents m.completeDue := by
  unfold VirtualMedium.completeDue
  split_ifs with hdue
  · exact (records_complete h).of_eq fun _ => (if_pos hdue).symm
  · exact (Records.refl m).of_eq fun _ => (if_neg hdue).symm

theorem records_contend (h : Attached m) : Records m m.contendEvents m.contend := by
  have hdue := records_completeDue h
  unfold VirtualMedium.contend
  split_ifs with hfly
  · refine hdue.of_eq fun who => ?_
    rw [contendEvents, if_pos hfly, List.append_nil]
  · refine (hdue.trans (records_start _)).of_eq fun who => ?_
    rw [contendEvents, if_neg hfly]

theorem records_round (h : Attached m) (target : ℕ) :
    Records m (m.roundEvents target) (m.round target).1 := by
  have hcontend := records_contend h
  unfold VirtualMedium.round
  split_ifs with hagain
  · refine (hcontend.setClock _).of_eq fun who => ?_
    rw [roundEvents, if_pos hagain, List.append_nil]
  · have hclock := Attached.kept.clock _ target (Attached.kept.contend h)
    refine ((hcontend.setClock target).trans (records_completeDue hclock)).of_eq fun who => ?_
    rw [roundEvents, if_neg hagain]

theorem records_rounds (target n : ℕ) (h : Attached m) :
    Records m (m.roundsEvents target n) (m.rounds target n) := by
  induction n generalizing m with
  | zero => exact Records.refl m
  | succ n ih =>
    have hround := records_round h target
    have hattached := Attached.kept.round h target
    cases hcase : m.round target with
    | mk m₁ again =>
      rw [hcase] at hround hattached
      rw [rounds, hcase]
      cases again with
      | false =>
        refine hround.of_eq fun who => ?_
        rw [roundsEvents, hcase, if_neg Bool.false_ne_true, List.append_nil]
      | true =>
        refine (hround.trans (ih hattached)).of_eq fun who => ?_
        rw [roundsEvents, hcase, if_pos rfl]

/-- **The events of `advance`.** -/
theorem records_advance (h : Attached m) (duration : ℤ) :
    Records m (m.advanceEvents duration) (m.advance duration) := records_rounds _ _ h

theorem records_land (h : Attached m) : Records m m.landEvents m.land := by
  unfold VirtualMedium.land
  split_ifs with hfly
  · have hclock := Attached.kept.clock m m.busyUntilNs h
    refine (((Records.refl m).setClock _).trans (records_complete hclock)).of_eq fun who => ?_
    rw [landEvents, if_pos hfly, List.nil_append]
  · exact (Records.refl m).of_eq fun _ => (if_neg hfly).symm

theorem records_drainLoop (n : ℕ) (h : Attached m) :
    Records m (m.drainLoopEvents n) (m.drainLoop n) := by
  induction n generalizing m with
  | zero => exact Records.refl m
  | succ n ih =>
    have hstart := (records_land h).trans (records_start m.land)
    have hattached := Attached.kept.start _ (Attached.kept.land h)
    cases hcase : m.land.startTransmission with
    | mk m₁ started =>
      rw [hcase] at hstart hattached
      rw [drainLoop, hcase]
      cases started with
      | false =>
        refine hstart.of_eq fun who => ?_
        rw [drainLoopEvents, hcase, if_neg Bool.false_ne_true, List.append_nil]
      | true =>
        refine (hstart.trans (ih hattached)).of_eq fun who => ?_
        rw [drainLoopEvents, hcase, if_pos rfl]

/-- **The events of `drain`.** -/
theorem records_drain (h : Attached m) (maxFrames : ℕ) :
    Records m (m.drainEvents maxFrames) (m.drain maxFrames).1 :=
  (records_drainLoop maxFrames h).trans (records_land (Attached.kept.drainLoop maxFrames h))

/-! ### The calls that let the medium run -/

/-- A change of the participants that is none of their first times. -/
theorem Records.modify (h : Records m events m') (who : ℕ) {f : VirtualBus → VirtualBus}
    (hf : ∀ p, (f p).handle = p.handle ∧ (f p).stats.firstTimestampNs = p.stats.firstTimestampNs) :
    Records m events (m'.modify who f) := by
  refine ⟨?_, h.others, h.attached⟩
  rw [← h.firsts]
  refine (List.map_map ..).trans (List.map_congr_left fun p _ => ?_)
  simp only [Function.comp]
  split_ifs
  · rw [(hf p).1, (hf p).2]
  · rfl

theorem Records.take (h : Records m events m') (p : VirtualBus) :
    Records m events (m'.take p).1 := by
  unfold VirtualMedium.take
  split
  · exact h
  · exact h.modify _ fun _ => ⟨rfl, rfl⟩

theorem Records.send (h : Records m events m') (p : VirtualBus) (frame : FdFrame) :
    Records m events (m'.send p frame).1 := by
  unfold VirtualMedium.send
  split_ifs
  · exact h
  · exact h
  · exact h.modify _ fun _ => ⟨rfl, rfl⟩
  · exact h.modify _ fun _ => ⟨rfl, rfl⟩

/-- **The events of `receive`.** -/
theorem records_receive (h : Attached m) {who : ℕ} {p : VirtualBus} (hfind : m.find who = some p)
    (timeout : ℤ) :
    Records m (m.callEvents (.receive who timeout)) (m.receive p timeout).1 := by
  have hevents : ∀ other, m.callEvents (.receive who timeout) other =
      if p.isOpen = true ∧ p.inbox = [] ∧ 0 < timeout then m.advanceEvents timeout other else [] := by
    intro other
    rw [callEvents, hfind]
  unfold VirtualMedium.receive
  split_ifs with hopen hwait
  · refine (Records.refl m).of_eq fun other => ?_
    rw [hevents, if_neg (by simp [hopen])]
  · refine ((records_advance h timeout).take _).of_eq fun other => ?_
    rw [hevents, if_pos ⟨by simpa using hopen, hwait⟩]
  · refine ((Records.refl m).take _).of_eq fun other => ?_
    rw [hevents, if_neg fun hc => hwait hc.2]

/-- The participants behind a call that is no event for anyone: each was there before, with the
same statistics or new ones, or it is new. -/
def Settled (m : VirtualMedium) (c : Call) (m' : VirtualMedium) : Prop :=
  m.attached ≤ m'.attached ∧ ∀ q ∈ m'.participants,
    (∃ p ∈ m.participants, p.handle = q.handle ∧
      q.stats.firstTimestampNs =
        if c = .resetStatistics q.handle then 0 else p.stats.firstTimestampNs) ∨
    (m.attached ≤ q.handle ∧ q.stats.firstTimestampNs = 0 ∧ c ≠ .resetStatistics q.handle)

theorem settled_of_forall {c : Call} (hattached : m.attached ≤ m'.attached)
    (hc : ∀ who, c ≠ .resetStatistics who)
    (h : ∀ q ∈ m'.participants, ∃ p ∈ m.participants, p.handle = q.handle ∧
      q.stats.firstTimestampNs = p.stats.firstTimestampNs) : Settled m c m' := by
  refine ⟨hattached, fun q hq => ?_⟩
  obtain ⟨p, hp, hhandle, hfirst⟩ := h q hq
  exact .inl ⟨p, hp, hhandle, by rw [if_neg (hc _), hfirst]⟩

theorem settled_modify {c : Call} (who : ℕ) {f : VirtualBus → VirtualBus}
    (hc : ∀ who, c ≠ .resetStatistics who)
    (hf : ∀ p, (f p).handle = p.handle ∧ (f p).stats.firstTimestampNs = p.stats.firstTimestampNs) :
    Settled m c (m.modify who f) := by
  refine settled_of_forall le_rfl hc fun q hq => ?_
  obtain ⟨p, hp, rfl⟩ := List.mem_map.1 hq
  refine ⟨p, hp, ?_⟩
  split_ifs
  · exact ⟨(hf p).1.symm, (hf p).2⟩
  · exact ⟨rfl, rfl⟩

/-- **What a call does to the first times**: the medium runs, or nobody sees an event. -/
theorem call_firsts (h : Attached m) {c : Call} (hstep : m.step c = some m') :
    (Records m (m.callEvents c) m' ∧ ∀ who, c ≠ .resetStatistics who) ∨
      ((∀ who, m.callEvents c who = []) ∧ Settled m c m') := by
  unfold VirtualMedium.step at hstep
  cases c <;>
    simp only [call, Option.map_some, Option.some.injEq, Option.map_eq_some_iff] at hstep
  case attach name =>
    subst hstep
    refine .inr ⟨fun _ => rfl, Nat.le_succ _, fun q hq => ?_⟩
    rcases List.mem_append.1 hq with hq | hq
    · exact .inl ⟨q, hq, rfl, (if_neg (by simp)).symm⟩
    · rw [List.mem_singleton.1 hq]
      exact .inr ⟨le_rfl, rfl, by simp⟩
  case detach who =>
    obtain ⟨_, ⟨_, -, rfl⟩, rfl⟩ := hstep
    exact .inr ⟨fun _ => rfl, settled_of_forall le_rfl (by simp)
      fun q hq => ⟨q, List.mem_of_mem_filter hq, rfl, rfl⟩⟩
  case openBus who =>
    obtain ⟨_, ⟨_, -, rfl⟩, rfl⟩ := hstep
    exact .inr ⟨fun _ => rfl, settled_modify who (by simp) fun _ => ⟨rfl, rfl⟩⟩
  case closeBus who =>
    obtain ⟨_, ⟨_, -, rfl⟩, rfl⟩ := hstep
    exact .inr ⟨fun _ => rfl, settled_modify who (by simp) fun _ => ⟨rfl, rfl⟩⟩
  case send who frame =>
    obtain ⟨_, ⟨p, -, rfl⟩, rfl⟩ := hstep
    exact .inl ⟨(Records.refl m).send p frame, by simp⟩
  case receive who timeout =>
    obtain ⟨_, ⟨p, hfind, rfl⟩, rfl⟩ := hstep
    exact .inl ⟨records_receive h hfind timeout, by simp⟩
  case advance duration =>
    subst hstep
    exact .inl ⟨records_advance h duration, by simp⟩
  case drain maxFrames =>
    subst hstep
    exact .inl ⟨records_drain h maxFrames, by simp⟩
  case setFilters who filters =>
    obtain ⟨_, ⟨_, -, rfl⟩, rfl⟩ := hstep
    exact .inr ⟨fun _ => rfl, settled_modify who (by simp) fun _ => ⟨rfl, rfl⟩⟩
  case resetStatistics who =>
    obtain ⟨_, ⟨_, -, rfl⟩, rfl⟩ := hstep
    refine .inr ⟨fun _ => rfl, le_rfl, fun q hq => ?_⟩
    obtain ⟨p, hp, rfl⟩ := List.mem_map.1 hq
    by_cases hwho : p.handle = who
    · exact .inl ⟨p, hp, by simp [hwho], by simp [hwho]⟩
    · have hne : ¬Call.resetStatistics who = .resetStatistics p.handle := by
        simpa using Ne.symm hwho
      rw [if_neg hwho]
      exact .inl ⟨p, hp, rfl, (if_neg hne).symm⟩
  all_goals
    subst hstep
    exact .inr ⟨fun _ => rfl, settled_of_forall le_rfl (by simp) fun q hq => ⟨q, hq, rfl, rfl⟩⟩

end VirtualMedium

open VirtualMedium

/-! ### Runs -/

/-- A medium, and the times of the events of each participant since its statistics were reset. -/
structure Observed where
  medium : VirtualMedium
  seen : ℕ → List ℕ := fun _ => []

namespace Observed

/-- One call. -/
def step (s : Observed) (c : Call) : Option Observed :=
  (s.medium.step c).map fun m =>
    { medium := m
      seen := fun who =>
        if c = .resetStatistics who then [] else s.seen who ++ s.medium.callEvents c who }

/-- **The statistics span the observation**: `first_timestamp_ns` of everyone who has seen an event
is the time of the first. -/
def Spans (s : Observed) : Prop :=
  ∀ p ∈ s.medium.participants, ∀ first ∈ (s.seen p.handle).head?,
    p.stats.firstTimestampNs = first

/-- The events of a call are at the time zero for everyone whose first event is. -/
def Timed (s : Observed) (c : Call) : Prop :=
  ∀ p ∈ s.medium.participants,
    (s.seen p.handle ++ s.medium.callEvents c p.handle).head? = some 0 →
      ∀ t ∈ s.medium.callEvents c p.handle, t = 0

/-- What holds in every run. -/
structure Recorded (s : Observed) : Prop where
  attached : Attached s.medium
  firsts : ∀ p ∈ s.medium.participants,
    p.stats.firstTimestampNs = (s.seen p.handle).foldl noted 0
  fresh : ∀ who, s.medium.attached ≤ who → s.seen who = []

variable {s t : Observed} {c : Call}

theorem Recorded.spans_iff (h : Recorded s) : s.Spans ↔ ∀ p ∈ s.medium.participants,
    (s.seen p.handle).head? = some 0 → ∀ t ∈ s.seen p.handle, t = 0 := by
  refine forall₂_congr fun p hp => ?_
  rw [h.firsts p hp]
  constructor
  · intro hfirst hzero
    exact (foldl_noted_eq_head hzero).1 (hfirst 0 hzero) rfl
  · intro hall first hhead
    refine (foldl_noted_eq_head hhead).2 fun hzero => hall ?_
    rw [← hzero]
    exact hhead

/-- The state behind a call that lets the medium run. -/
def ran (s : Observed) (c : Call) (m : VirtualMedium) : Observed :=
  { medium := m, seen := fun who => s.seen who ++ s.medium.callEvents c who }

/-- The state behind a call that is no event for anyone. -/
def quiet (s : Observed) (c : Call) (m : VirtualMedium) : Observed :=
  { medium := m, seen := fun who => if c = .resetStatistics who then [] else s.seen who }

variable {m : VirtualMedium}

theorem Recorded.ran (h : Recorded s) (hattached : Attached m)
    (hrecords : Records s.medium (s.medium.callEvents c) m) : Recorded (s.ran c m) := by
  refine ⟨hattached, fun q hq => ?_, fun who hwho => ?_⟩
  · have hmem := List.mem_map_of_mem
      (f := fun p : VirtualBus => (p.handle, p.stats.firstTimestampNs)) hq
    rw [Observed.ran, hrecords.firsts] at hmem
    obtain ⟨p, hp, heq⟩ := List.mem_map.1 hmem
    obtain ⟨hhandle, hfirst⟩ := Prod.mk.inj heq
    rw [Observed.ran, List.foldl_append, ← hfirst, ← hhandle, h.firsts p hp]
  · have hnew : ∀ p ∈ s.medium.participants, p.handle ≠ who := by
      intro p hp
      have hbelow := h.attached.below p hp
      have heq : m.attached = s.medium.attached := hrecords.attached
      change m.attached ≤ who at hwho
      omega
    have hold : s.seen who = [] := h.fresh who (hrecords.attached ▸ hwho)
    rw [Observed.ran]
    dsimp only
    rw [hold, hrecords.others who hnew, List.append_nil]

/-- **The statistics span a call that lets the medium run if it is timed.** -/
theorem Recorded.spans_ran (h : Recorded s) (hspans : s.Spans) (hattached : Attached m)
    (hrecords : Records s.medium (s.medium.callEvents c) m) :
    (s.ran c m).Spans ↔ s.Timed c := by
  rw [h.spans_iff] at hspans
  rw [(h.ran hattached hrecords).spans_iff, Observed.ran]
  dsimp only
  constructor
  · intro hall p hp hzero x hx
    have hmem := List.mem_map_of_mem (f := (·.handle)) hp
    rw [← hrecords.handles] at hmem
    obtain ⟨q, hq, hhandle⟩ := List.mem_map.1 hmem
    rw [← hhandle] at hzero hx
    exact hall q hq hzero x (List.mem_append_right _ hx)
  · intro htimed q hq hzero x hx
    have hmem := List.mem_map_of_mem (f := (·.handle)) hq
    rw [hrecords.handles] at hmem
    obtain ⟨p, hp, hhandle⟩ := List.mem_map.1 hmem
    rw [← hhandle] at hzero hx
    rcases List.mem_append.1 hx with hx | hx
    · refine hspans p hp ?_ x hx
      obtain ⟨first, rest, hcons⟩ := List.exists_cons_of_ne_nil (List.ne_nil_of_mem hx)
      rw [hcons] at hzero ⊢
      exact hzero
    · exact htimed p hp hzero x hx

theorem Recorded.quiet (h : Recorded s) (hattached : Attached m)
    (hsettled : Settled s.medium c m) : Recorded (s.quiet c m) := by
  refine ⟨hattached, fun q hq => ?_, fun who hwho => ?_⟩
  · rw [Observed.quiet]
    dsimp only
    rcases hsettled.2 q hq with ⟨p, hp, hhandle, hfirst⟩ | ⟨hnew, hfirst, hreset⟩
    · rw [hfirst, h.firsts p hp, hhandle]
      split_ifs <;> rfl
    · rw [hfirst, if_neg hreset, h.fresh _ hnew]
      rfl
  · have hold : s.seen who = [] := h.fresh who (hsettled.1.trans hwho)
    rw [Observed.quiet]
    dsimp only
    rw [hold, ite_self]

/-- The statistics span a call that is no event for anyone. -/
theorem Recorded.spans_quiet (h : Recorded s) (hspans : s.Spans) (hattached : Attached m)
    (hsettled : Settled s.medium c m) : (s.quiet c m).Spans := by
  rw [h.spans_iff] at hspans
  rw [(h.quiet hattached hsettled).spans_iff, Observed.quiet]
  dsimp only
  intro q hq hzero x hx
  rcases hsettled.2 q hq with ⟨p, hp, hhandle, -⟩ | ⟨hnew, -, -⟩
  · split_ifs at hzero hx
    · cases hx
    · rw [← hhandle] at hzero hx
      exact hspans p hp hzero x hx
  · rw [h.fresh _ hnew, ite_self] at hx
    cases hx

/-- **A call keeps the books, and the statistics span what they spanned if it is timed.** -/
theorem Recorded.step (h : Recorded s) (hspans : s.Spans) (hstep : s.step c = some t) :
    Recorded t ∧ (t.Spans ↔ s.Timed c) := by
  obtain ⟨m, hm, rfl⟩ := Option.map_eq_some_iff.1 hstep
  have hattached := Attached.keptByCalls.step h.attached hm
  rcases call_firsts h.attached hm with ⟨hrecords, hreset⟩ | ⟨hnone, hsettled⟩
  · have hseen : (fun who => if c = .resetStatistics who then []
        else s.seen who ++ s.medium.callEvents c who) = (s.ran c m).seen :=
      funext fun who => if_neg (hreset who)
    rw [hseen]
    exact ⟨h.ran hattached hrecords, h.spans_ran hspans hattached hrecords⟩
  · have hseen : (fun who => if c = .resetStatistics who then []
        else s.seen who ++ s.medium.callEvents c who) = (s.quiet c m).seen := by
      funext who
      rw [hnone, List.append_nil]
      rfl
    have htimed : s.Timed c := by
      intro p _ _ x hx
      rw [hnone] at hx
      cases hx
    rw [hseen]
    exact ⟨h.quiet hattached hsettled,
      iff_of_true (h.spans_quiet hspans hattached hsettled) htimed⟩

theorem along_iff (h : Recorded s) (hspans : s.Spans) (calls : List Call) :
    Lib.Along step (fun _ _ t => t.Spans) s calls ↔
      Lib.Along step (fun s c _ => s.Timed c) s calls := by
  induction calls generalizing s with
  | nil => exact Iff.rfl
  | cons c calls ih =>
    refine forall₂_congr fun t hstep => ?_
    obtain ⟨hbooks, hiff⟩ := h.step hspans hstep
    exact (and_congr_right fun hnext => ih hbooks hnext).trans (and_congr_left fun _ => hiff)

/-- **The statistics span the whole observation, in every state of a run, if and only if no
participant whose first event is at the time zero has one at another time.** -/
theorem first_timestamp_iff (timing : BusTiming) (calls : List Call) :
    Lib.Along step (fun _ _ t => t.Spans) { medium := create timing } calls ↔
      Lib.Along step (fun s c _ => s.Timed c) { medium := create timing } calls := by
  refine along_iff ⟨?_, fun p hp => ?_, fun _ _ => rfl⟩ (fun p hp => ?_) calls
  · exact Attached.of_reachable ⟨timing, .refl⟩
  · cases hp
  · cases hp

/-- A frame without data. -/
def emptyFrame : FdFrame :=
  ⟨0, ⟨0x123, CanId.inRange_standard⟩, 0, FrameFlags.none, List.replicate 64 0,
    BasicFrame.zeros_length⟩

/-- **A transmission that starts with the clock is forgotten**: the end of the frame, which the
sender hears as everyone, is noted over its start. -/
theorem start_at_zero_forgotten :
    ∃ s ∈ Lib.run step (fun _ _ => True) { medium := create {} }
        [.attach "a", .openBus 0, .send 0 emptyFrame, .advance 1000000],
      s.seen 0 = [0, 110000] ∧
        s.medium.participants.map (fun p => (p.handle, p.stats.firstTimestampNs)) = [(0, 110000)] := by
  decide +kernel

end Observed

end Transport
end Canforge
