/-
# Looped replay

A looped recording starts over when it is exhausted, and the clock goes on: what
was due in the first pass is due at once in every later one.  `Playing` is a bus
beside the frames it has returned.  Two of them are apart as their records are
due, and a later pass begins later, if and only if no call comes to the end of
the recording behind a frame, and none returns a frame behind one that was late
(`looped_pacing_iff`); a frame can be late in the first pass when the start
offset, which is not scaled, lies behind its due time.
-/

import Canforge.Lib.Transition
import Canforge.Transport.Replay

namespace Canforge
namespace Transport

open Canforge.Core LogReplayBus

/-- When the record at a place is due. -/
def LogReplayBus.dueAt (b : LogReplayBus ℚ) (i : ℕ) : ℕ := (b.records[i]?.map b.due).getD 0

/-- A bus, and the places and times of the frames it has returned, the last one first. -/
structure Playing where
  bus : LogReplayBus ℚ
  played : List (ℕ × ℕ) := []

namespace Playing

/-- The rounds a call needs when nothing is filtered out: one to start over and one for a frame. -/
def enough : ℕ := 2

/-- What a call that returns `result` leaves. -/
def heard (s : Playing) (result : Result FdFrame) (bus : LogReplayBus ℚ) : Playing :=
  match result with
  | .ok frame => { bus, played := (bus.index - 1, frame.timestampNs) :: s.played }
  | .error _ => { bus, played := s.played }

/-- One call of `receive`. -/
def step (s : Playing) (timeout : ℤ) : Option Playing :=
  (s.bus.receive enough timeout).map fun returned => s.heard returned.1 returned.2

/-- A frame that is returned behind another: as much later as it is due in one pass, and later in
the next. -/
def Follows (b : LogReplayBus ℚ) (later earlier : ℕ × ℕ) : Prop :=
  if later.1 = earlier.1 + 1 then later.2 + b.dueAt earlier.1 = earlier.2 + b.dueAt later.1
  else earlier.2 < later.2

/-- **The pacing is kept.** -/
def Spaced (s : Playing) : Prop := s.played.IsChain (Follows s.bus)

instance (b : LogReplayBus ℚ) (later earlier : ℕ × ℕ) : Decidable (Follows b later earlier) :=
  inferInstanceAs (Decidable (ite (later.1 = earlier.1 + 1)
    (later.2 + b.dueAt earlier.1 = earlier.2 + b.dueAt later.1) (earlier.2 < later.2)))

instance (s : Playing) : Decidable s.Spaced := inferInstanceAs (Decidable (List.IsChain _ _))

/-- Behind a frame there is another, and if the call returns it the frame was returned when it was
due, or both are due at once and the clock has not moved. -/
def Timed (s : Playing) (timeout : ℤ) : Prop :=
  ∀ last ∈ s.played.head?, s.bus.index < s.bus.records.length ∧
    (s.bus.dueAt s.bus.index ≤ s.bus.deadline timeout →
      last.2 = s.bus.dueAt last.1 ∨
        s.bus.dueAt s.bus.index = s.bus.dueAt last.1 ∧ s.bus.virtualNowNs = last.2)

instance (s : Playing) (timeout : ℤ) : Decidable (s.Timed timeout) :=
  inferInstanceAs (Decidable (∀ last ∈ s.played.head?, _ ∧ (_ → _ ∨ _ ∧ _)))

/-- What holds of a bus that plays without filters. -/
structure Looping (b : LogReplayBus ℚ) : Prop where
  loop : b.options.loop = true
  isOpen : b.isOpen = true
  filters : b.filters = []
  /-- The recording begins with a frame that is due at once. -/
  first : b.dueAt 0 = 0
  ordered : ∀ i j, i ≤ j → j < b.records.length → b.dueAt i ≤ b.dueAt j

/-- What holds behind a frame: it was not early, and the clock shows its time or has not come to
the next. -/
structure Behind (b : LogReplayBus ℚ) (last : ℕ × ℕ) : Prop where
  index : b.index = last.1 + 1
  within : last.1 < b.records.length
  due_le : b.dueAt last.1 ≤ last.2
  clock : b.virtualNowNs = last.2 ∨
    b.index < b.records.length ∧ b.virtualNowNs < b.dueAt b.index

/-- What holds in every run. -/
structure Sound (s : Playing) : Prop where
  looping : Looping s.bus
  behind : ∀ last ∈ s.played.head?, Behind s.bus last

end Playing

/-! ### One call -/

namespace LogReplayBus

variable {b b' : LogReplayBus ℚ} {timeout : ℤ} {result : Result FdFrame} {record : LogRecord}

theorem dueAt_of_getElem? {i : ℕ} (h : b.records[i]? = some record) : b.dueAt i = b.due record := by
  rw [dueAt, h]
  rfl

/-- Without filters a round at a record is the last one. -/
theorem round_at {d : ℕ} (hfilters : b.filters = []) (hat : b.records[b.index]? = some record) :
    b.round d =
      if d < b.dueAt b.index then (some (.error notDue), { b with virtualNowNs := d })
      else (some (.ok ((b.passed record).stamped record)),
        { b.passed record with
          stats := (b.passed record).counted ((b.passed record).stamped record) }) := by
  have haccepted : acceptedBy (b.passed record).filters record.frame.id = true := by
    rw [passed, hfilters]
    rfl
  rw [round, hat, dueAt_of_getElem? hat]
  dsimp only
  split_ifs with hdue hfilter
  · rfl
  · rw [haccepted] at hfilter
    cases hfilter
  · rfl

end LogReplayBus

namespace Playing

variable {s t : Playing} {timeout : ℤ}

/-- **What a call does**: it waits, returns the frame behind the last one, starts over, or finds
nothing to play. -/
inductive Outcome (s : Playing) (timeout : ℤ) : Playing → Prop
  | waits (hinside : s.bus.index < s.bus.records.length)
      (hearly : s.bus.deadline timeout < s.bus.dueAt s.bus.index) :
      Outcome s timeout
        { s with bus := { s.bus with virtualNowNs := s.bus.deadline timeout } }
  | next (stats : BusStatistics) (hinside : s.bus.index < s.bus.records.length)
      (hdue : s.bus.dueAt s.bus.index ≤ s.bus.deadline timeout) :
      Outcome s timeout
        { bus := { s.bus with
            virtualNowNs := max s.bus.virtualNowNs (s.bus.dueAt s.bus.index)
            index := s.bus.index + 1
            stats }
          played := (s.bus.index, max s.bus.virtualNowNs (s.bus.dueAt s.bus.index)) :: s.played }
  | again (stats : BusStatistics) (hend : s.bus.records.length ≤ s.bus.index)
      (hne : s.bus.records ≠ []) :
      Outcome s timeout
        { bus := { s.bus with index := 1, stats }
          played := (0, s.bus.virtualNowNs) :: s.played }
  | nothing (hempty : s.bus.records = []) :
      Outcome s timeout
        { s with bus := { s.bus with virtualNowNs := s.bus.deadline timeout } }

/-- A call that ends in its first round. -/
theorem step_of_round {result : Result FdFrame} {bus : LogReplayBus ℚ} (h : Looping s.bus)
    (hround : s.bus.round (s.bus.deadline timeout) = (some result, bus)) :
    s.step timeout = some (s.heard result bus) := by
  rw [step, receive, h.isOpen, if_neg (by decide), enough, rounds, hround]
  rfl

/-- A call that ends in its second round. -/
theorem step_of_rounds {result : Result FdFrame} {bus bus' : LogReplayBus ℚ} (h : Looping s.bus)
    (hagain : s.bus.round (s.bus.deadline timeout) = (none, bus))
    (hround : bus.round (s.bus.deadline timeout) = (some result, bus')) :
    s.step timeout = some (s.heard result bus') := by
  rw [step, receive, h.isOpen, if_neg (by decide), enough, rounds, hagain]
  dsimp only
  rw [rounds, hround]
  rfl

/-- **Every call returns, and this is what it does.** -/
theorem exists_step (h : Looping s.bus) (timeout : ℤ) :
    ∃ t, s.step timeout = some t ∧ s.Outcome timeout t := by
  cases hat : s.bus.records[s.bus.index]? with
  | some record =>
    have hinside := (List.getElem?_eq_some_iff.1 hat).choose
    have hdue := dueAt_of_getElem? hat
    have hround := @round_at s.bus record (s.bus.deadline timeout) h.filters hat
    split_ifs at hround with hearly
    · exact ⟨_, step_of_round h hround, .waits hinside hearly⟩
    · refine ⟨_, step_of_round h hround, ?_⟩
      rw [heard, stamped, passed, ← hdue]
      exact .next _ hinside (Nat.not_lt.1 hearly)
  | none =>
    have hend := List.getElem?_eq_none_iff.1 hat
    by_cases hempty : s.bus.records = []
    · have hround := @round_exhausted ℚ _ s.bus (s.bus.deadline timeout) hat
        fun hlast => hlast.2 hempty
      exact ⟨_, step_of_round h hround, .nothing hempty⟩
    · -- it starts over, and the first record is due at once
      have hagain := @round_wraps ℚ _ s.bus (s.bus.deadline timeout) hat h.loop hempty
      obtain ⟨record, hfirst⟩ : ∃ record, s.bus.records[0]? = some record :=
        ⟨_, List.getElem?_eq_getElem (List.length_pos_iff.2 hempty)⟩
      have hzero : s.bus.due record = 0 := (dueAt_of_getElem? hfirst).symm.trans h.first
      have hround := @round_at { s.bus with index := 0 } record (s.bus.deadline timeout)
        h.filters hfirst
      have hearly : ¬s.bus.deadline timeout < dueAt { s.bus with index := 0 } 0 := by
        have := h.first
        change ¬s.bus.deadline timeout < s.bus.dueAt 0
        omega
      rw [if_neg hearly] at hround
      refine ⟨_, step_of_rounds h hagain hround, ?_⟩
      have hnow : max s.bus.virtualNowNs (s.bus.due record) = s.bus.virtualNowNs := by
        rw [hzero, Nat.max_zero]
      change s.Outcome timeout
        { bus := { s.bus with
            virtualNowNs := max s.bus.virtualNowNs (s.bus.due record)
            index := 1
            stats := _ }
          played := (0, max s.bus.virtualNowNs (s.bus.due record)) :: s.played }
      rw [hnow]
      exact .again _ hend hempty

/-- A call that waits comes to no frame. -/
theorem Sound.waits (h : s.Sound) (hinside : s.bus.index < s.bus.records.length)
    (hearly : s.bus.deadline timeout < s.bus.dueAt s.bus.index) :
    Sound { s with bus := { s.bus with virtualNowNs := s.bus.deadline timeout } } ∧
      (s.Spaced →
        (Spaced { s with bus := { s.bus with virtualNowNs := s.bus.deadline timeout } } ↔
          s.Timed timeout)) := by
  refine ⟨⟨⟨h.looping.loop, h.looping.isOpen, h.looping.filters, h.looping.first,
    h.looping.ordered⟩, fun last hlast => ?_⟩,
    fun hspaced => iff_of_true hspaced fun last hlast => ?_⟩
  · have hbehind := h.behind last hlast
    exact ⟨hbehind.index, hbehind.within, hbehind.due_le, .inr ⟨hinside, hearly⟩⟩
  · exact ⟨hinside, fun hdue => absurd hearly (Nat.not_lt.2 hdue)⟩

/-- A frame behind another. -/
theorem Behind.follows_iff {b : LogReplayBus ℚ} {last : ℕ × ℕ} (h : Behind b last)
    (hlooping : Looping b) (hinside : b.index < b.records.length) :
    Follows b (b.index, max b.virtualNowNs (b.dueAt b.index)) last ↔
      last.2 = b.dueAt last.1 ∨ b.dueAt b.index = b.dueAt last.1 ∧ b.virtualNowNs = last.2 := by
  have hle : b.dueAt last.1 ≤ b.dueAt b.index :=
    hlooping.ordered last.1 b.index (by rw [h.index]; exact Nat.le_succ _) hinside
  have hnot_early := h.due_le
  rw [Follows, if_pos h.index]
  dsimp only
  rcases h.clock with hclock | ⟨-, hclock⟩
  · rw [hclock]
    omega
  · rw [max_eq_right hclock.le]
    omega

/-- The frame behind the last one. -/
theorem Sound.next (h : s.Sound) (stats : BusStatistics)
    (hinside : s.bus.index < s.bus.records.length)
    (hdue : s.bus.dueAt s.bus.index ≤ s.bus.deadline timeout) :
    Sound
        { bus := { s.bus with
            virtualNowNs := max s.bus.virtualNowNs (s.bus.dueAt s.bus.index)
            index := s.bus.index + 1
            stats }
          played := (s.bus.index, max s.bus.virtualNowNs (s.bus.dueAt s.bus.index)) :: s.played } ∧
      (s.Spaced → (Spaced
        { bus := { s.bus with
            virtualNowNs := max s.bus.virtualNowNs (s.bus.dueAt s.bus.index)
            index := s.bus.index + 1
            stats }
          played := (s.bus.index, max s.bus.virtualNowNs (s.bus.dueAt s.bus.index)) :: s.played } ↔
        s.Timed timeout)) := by
  refine ⟨⟨⟨h.looping.loop, h.looping.isOpen, h.looping.filters, h.looping.first,
    h.looping.ordered⟩, fun last hlast => ?_⟩, fun hspaced => ?_⟩
  · obtain rfl := Option.some.inj hlast
    exact ⟨rfl, hinside, le_max_right _ _, .inl rfl⟩
  · refine List.isChain_cons.trans ((and_iff_left hspaced).trans ?_)
    refine forall₂_congr fun last hlast => ?_
    rw [and_iff_right hinside, imp_iff_right hdue]
    exact (h.behind last hlast).follows_iff h.looping hinside

/-- The first frame again. -/
theorem Sound.again (h : s.Sound) (stats : BusStatistics)
    (hend : s.bus.records.length ≤ s.bus.index) (hne : s.bus.records ≠ []) :
    Sound
        { bus := { s.bus with index := 1, stats }
          played := (0, s.bus.virtualNowNs) :: s.played } ∧
      (s.Spaced → (Spaced
        { bus := { s.bus with index := 1, stats }
          played := (0, s.bus.virtualNowNs) :: s.played } ↔ s.Timed timeout)) := by
  refine ⟨⟨⟨h.looping.loop, h.looping.isOpen, h.looping.filters, h.looping.first,
    h.looping.ordered⟩, fun last hlast => ?_⟩, fun hspaced => ?_⟩
  · obtain rfl := Option.some.inj hlast
    exact ⟨rfl, List.length_pos_iff.2 hne, h.looping.first.le.trans (Nat.zero_le _), .inl rfl⟩
  · refine List.isChain_cons.trans ((and_iff_left hspaced).trans ?_)
    refine forall₂_congr fun last hlast => ?_
    -- the clock shows the time of the last frame, and the first one is returned at it again
    have hbehind := h.behind last hlast
    have hclock : s.bus.virtualNowNs = last.2 :=
      hbehind.clock.resolve_right fun hinside => absurd hinside.1 (Nat.not_lt.2 hend)
    have hfollows : ¬Follows s.bus (0, s.bus.virtualNowNs) last := by
      rw [Follows, if_neg (Nat.succ_ne_zero _).symm, hclock]
      exact lt_irrefl _
    exact iff_of_false hfollows fun htimed => absurd htimed.1 (Nat.not_lt.2 hend)

/-- **Every call keeps what holds in every run, and the timed ones exactly keep the pacing.** -/
theorem Sound.outcome (h : s.Sound) (hout : s.Outcome timeout t) :
    t.Sound ∧ (s.Spaced → (t.Spaced ↔ s.Timed timeout)) := by
  cases hout with
  | waits hinside hearly => exact h.waits hinside hearly
  | next stats hinside hdue => exact h.next stats hinside hdue
  | again stats hend hne => exact h.again stats hend hne
  | nothing hempty =>
    have hnone : ∀ last ∈ s.played.head?, False := by
      intro last hlast
      have hwithin := (h.behind last hlast).within
      rw [hempty] at hwithin
      exact Nat.not_lt_zero _ hwithin
    exact ⟨⟨⟨h.looping.loop, h.looping.isOpen, h.looping.filters, h.looping.first,
      h.looping.ordered⟩, fun last hlast => (hnone last hlast).elim⟩,
      fun hspaced => iff_of_true hspaced fun last hlast => (hnone last hlast).elim⟩

/-- **Every sequence of calls returns.** -/
theorem exists_run (h : s.Sound) (timeouts : List ℤ) :
    ∃ t, t ∈ Lib.run step (fun _ _ => True) s timeouts := by
  induction timeouts generalizing s with
  | nil => exact ⟨s, rfl⟩
  | cons timeout timeouts ih =>
    obtain ⟨u, hstep, hout⟩ := exists_step h.looping timeout
    obtain ⟨t, hrun⟩ := ih (h.outcome hout).1
    refine ⟨t, ?_⟩
    rw [Lib.run, if_pos trivial, hstep]
    exact hrun

theorem along_iff (h : s.Sound) (hspaced : s.Spaced) (timeouts : List ℤ) :
    Lib.Along step (fun _ _ t => t.Spaced) s timeouts ↔
      Lib.Along step (fun s timeout _ => s.Timed timeout) s timeouts := by
  induction timeouts generalizing s with
  | nil => exact Iff.rfl
  | cons timeout timeouts ih =>
    refine forall₂_congr fun t hstep => ?_
    obtain ⟨t', hstep', hout⟩ := exists_step h.looping timeout
    obtain rfl : t' = t := Option.some.inj (hstep'.symm.trans hstep)
    obtain ⟨hsound, hiff⟩ := h.outcome hout
    exact (and_congr_right fun hnext => ih hsound hnext).trans
      (and_congr_left fun _ => hiff hspaced)

/-! ### A recording that is looped -/

variable {records : List LogRecord} {options : ReplayOptions ℚ}

/-- The bus that plays a recording without filters, in front of the first call. -/
def start (records : List LogRecord) (options : ReplayOptions ℚ) : Playing :=
  { bus := player records options [] }

theorem player_speed_pos (records : List LogRecord) (options : ReplayOptions ℚ) :
    0 < (player records options []).options.speed := by
  obtain ⟨-, -, -, -, -, -, hspeed⟩ := player_spec records options []
  rw [hspeed]
  split_ifs with hkept
  · exact one_pos
  · have hle : ¬options.speed ≤ 0 := by simpa [Scalar.le, Scalar.lit] using hkept
    exact not_le.1 hle

/-- A record is due when its offset is, scaled and rounded down. -/
theorem player_due (records : List LogRecord) (options : ReplayOptions ℚ) (record : LogRecord) :
    (player records options []).due record =
      ⌊((record.frame.timestampNs - origin records : ℕ) : ℚ) /
        (player records options []).options.speed⌋₊ := by
  rw [due, offset, (player_spec records options []).2.1]
  exact toNat_eq_floor (div_nonneg (Nat.cast_nonneg _) (player_speed_pos records options).le)

theorem looping_player (hloop : options.loop = true) : Looping (player records options []) := by
  obtain ⟨hrecords, -, hloop', hopen, hfilters, -, -⟩ := player_spec records options []
  refine ⟨hloop'.trans hloop, hopen, hfilters, ?_, fun i j hij hj => ?_⟩
  · cases hfirst : (player records options []).records[0]? with
    | none => rw [dueAt, hfirst]; rfl
    | some record =>
      have horigin : origin records = record.frame.timestampNs := by
        rw [hrecords] at hfirst
        rw [origin]
        cases hsorted : sorted records with
        | nil => rw [hsorted] at hfirst; cases hfirst
        | cons head tail =>
          rw [hsorted] at hfirst
          rw [← Option.some.inj hfirst]
      rw [dueAt_of_getElem? hfirst, player_due, horigin, Nat.sub_self, Nat.cast_zero, zero_div,
        Nat.floor_zero]
  · have hi := List.getElem?_eq_getElem (lt_of_le_of_lt hij hj)
    have hj' := List.getElem?_eq_getElem hj
    have hsorted : Lib.SortedBy (·.frame.timestampNs) (player records options []).records := by
      rw [hrecords]
      exact Lib.sortedBy_stableSort _ _
    have htimes : (player records options []).records[i].frame.timestampNs ≤
        (player records options []).records[j].frame.timestampNs := by
      rcases hij.eq_or_lt with rfl | hlt
      · exact le_rfl
      · exact List.pairwise_iff_getElem.1 hsorted i j _ hj hlt
    rw [dueAt_of_getElem? hi, dueAt_of_getElem? hj', player_due, player_due]
    have hspeed := (player_speed_pos records options).le
    gcongr

theorem sound_start (hloop : options.loop = true) : (start records options).Sound :=
  ⟨looping_player hloop, fun last hlast => by cases hlast⟩

/-- **A looped recording keeps its pacing, in every state of a run, if and only if every call
behind a frame comes to another of the same pass, and returns it only if that frame was returned
when it was due**, or if both are due at once and the clock has not moved.  Every call returns. -/
theorem looped_pacing_iff (records : List LogRecord) (options : ReplayOptions ℚ)
    (hloop : options.loop = true) (timeouts : List ℤ) :
    (∃ t, t ∈ Lib.run step (fun _ _ => True) (start records options) timeouts) ∧
      (Lib.Along step (fun _ _ t => t.Spaced) (start records options) timeouts ↔
        Lib.Along step (fun s timeout _ => s.Timed timeout) (start records options) timeouts) :=
  ⟨exists_run (sound_start hloop) timeouts, along_iff (sound_start hloop) .nil timeouts⟩

/-- Two frames, 5 ns apart, played again and again. -/
def twoLooped : Playing := start twoFrames { loop := true }

/-- One pass, and the second frame is waited for. -/
theorem looped_pacing_one_pass :
    Lib.Along step (fun _ _ t => t.Spaced) twoLooped [0, 2, 9] :=
  (looped_pacing_iff twoFrames { loop := true } rfl [0, 2, 9]).2.2 (by decide +kernel)

/-- **In the second pass there is no gap left**: both frames are returned at 5 ns, where the first
pass ended. -/
theorem looped_pacing_lost :
    ∃ s ∈ Lib.run step (fun _ _ => True) twoLooped [100, 100, 100, 100],
      s.played = [(1, 5), (0, 5), (1, 5), (0, 0)] ∧ s.bus.dueAt 0 = 0 ∧ s.bus.dueAt 1 = 5 ∧
        ¬s.Spaced := by
  decide +kernel

end Playing

end Transport
end Canforge
