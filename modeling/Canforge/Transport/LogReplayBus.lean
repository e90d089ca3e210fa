/-
# Replaying a log

`transport/include/canforge/transport/LogReplayBus.hpp` and
`transport/src/LogReplayBus.cpp`: a recording played against a virtual clock.
The offsets of the frames are scaled with numbers of the type `R`, of which
nothing is assumed here, and the sleep of the realtime mode changes no state.

The loop of `receive` has a fuel: `Returns` is a call that ends.  It ends unless
a looped recording has no frame that passes the filters and all of them are due
(`receive_returns_iff`).
-/

import Canforge.Core.Scalar
import Canforge.Lib.StableSort
import Canforge.Transport.Bus
import Canforge.Transport.LogFormat

namespace Canforge
namespace Transport

open Canforge.Core

variable {R : Type} [Scalar R]

/-- `ReplayOptions`. -/
structure ReplayOptions (R : Type) [Scalar R] where
  speed : R := Scalar.lit 1
  realtime : Bool := false
  loop : Bool := false
  startOffset : ℤ := 0
  timing : BusTiming := {}

/-- `LogReplayBus`. -/
structure LogReplayBus (R : Type) [Scalar R] where
  records : List LogRecord
  options : ReplayOptions R
  filters : List Filter := []
  stats : BusStatistics := {}
  firstNs : ℕ := 0
  virtualNowNs : ℕ := 0
  index : ℕ := 0
  isOpen : Bool := false

namespace LogReplayBus

/-- The nanoseconds of a record behind the first. -/
def offset (b : LogReplayBus R) (record : LogRecord) : ℕ := record.frame.timestampNs - b.firstNs

/-- The start offset, none when it is negative. -/
def skip (b : LogReplayBus R) : ℕ := b.options.startOffset.toNat

/-- `rewind`. -/
def rewind (b : LogReplayBus R) : LogReplayBus R :=
  { b with
    index := (b.records.takeWhile fun record => b.offset record < b.skip).length
    virtualNowNs := b.skip }

/-- `LogReplayBus::from_records`. -/
def fromRecords (records : List LogRecord) (options : ReplayOptions R) : LogReplayBus R :=
  let options :=
    if Scalar.le options.speed (Scalar.lit 0) then { options with speed := Scalar.lit 1 }
    else options
  let records := Lib.stableSort (·.frame.timestampNs) records
  let firstNs :=
    match records with
    | [] => 0
    | record :: _ => record.frame.timestampNs
  rewind { records, options, firstNs }

/-- `open`. -/
def openBus (b : LogReplayBus R) : LogReplayBus R := { b with isOpen := true }

/-- `set_filters`. -/
def setFilters (b : LogReplayBus R) (filters : List Filter) : LogReplayBus R := { b with filters }

/-- When a record is due. -/
def due (b : LogReplayBus R) (record : LogRecord) : ℕ :=
  Scalar.toNat (Scalar.ofNat (b.offset record) / b.options.speed)

/-- The time a call of `receive` may wait until. -/
def deadline (b : LogReplayBus R) (timeout : ℤ) : ℕ := (b.virtualNowNs + timeout.toNat) % 2 ^ 64

/-- What `receive` reports. -/
def closed : Error := ⟨.transportNotOpen, "the replay bus is not open", (0, 0)⟩
def exhausted : Error := ⟨.logEndOfFile, "the recording is exhausted", (0, 0)⟩
def notDue : Error := ⟨.transportTimeout, "the next recorded frame is not due yet", (0, 0)⟩

/-- The statistics behind a frame. -/
def counted (b : LogReplayBus R) (frame : FdFrame) : BusStatistics :=
  { b.stats with
    framesReceived := b.stats.framesReceived + 1
    bytesReceived := b.stats.bytesReceived + frame.size
    wireBits := b.stats.wireBits + (frameTiming frame b.options.timing).totalBits
    errorFrames := b.stats.errorFrames + frame.isErrorFrame.toNat
    firstTimestampNs :=
      if b.stats.framesReceived + 1 = 1 then b.virtualNowNs else b.stats.firstTimestampNs
    lastTimestampNs := b.virtualNowNs }

/-- The frame of a record, received now. -/
def stamped (b : LogReplayBus R) (record : LogRecord) : FdFrame :=
  { record.frame with timestampNs := b.virtualNowNs }

/-- The bus behind the record under its cursor. -/
def passed (b : LogReplayBus R) (record : LogRecord) : LogReplayBus R :=
  { b with virtualNowNs := max b.virtualNowNs (b.due record), index := b.index + 1 }

/-- One round of the loop of `receive`; without a result it goes round again. -/
def round (deadline : ℕ) (b : LogReplayBus R) : Option (Result FdFrame) × LogReplayBus R :=
  match b.records[b.index]? with
  | none =>
    if b.options.loop ∧ b.records ≠ [] then (none, { b with index := 0 })
    else (some (.error exhausted), { b with virtualNowNs := deadline })
  | some record =>
    if deadline < b.due record then (some (.error notDue), { b with virtualNowNs := deadline })
    else
      let b := b.passed record
      if acceptedBy b.filters record.frame.id = false then (none, b)
      else
        let frame := b.stamped record
        (some (.ok frame), { b with stats := b.counted frame })

/-- The loop of `receive`, in at most so many rounds. -/
def rounds (deadline : ℕ) : ℕ → LogReplayBus R → Option (Result FdFrame × LogReplayBus R)
  | 0, _ => none
  | fuel + 1, b =>
    match b.round deadline with
    | (some result, b) => some (result, b)
    | (none, b) => rounds deadline fuel b

/-- `receive`. -/
def receive (fuel : ℕ) (b : LogReplayBus R) (timeout : ℤ) :
    Option (Result FdFrame × LogReplayBus R) :=
  if b.isOpen = false then some (.error closed, b) else b.rounds (b.deadline timeout) fuel

/-- **A call that ends**, with its result and the bus it leaves. -/
def Returns (b : LogReplayBus R) (timeout : ℤ) (result : Result FdFrame) (b' : LogReplayBus R) :
    Prop := ∃ fuel, b.receive fuel timeout = some (result, b')

variable {b b' : LogReplayBus R} {d : ℕ} {result : Result FdFrame}

/-- The loop ends from here. -/
def Ends (d : ℕ) (b : LogReplayBus R) (result : Result FdFrame) (b' : LogReplayBus R) : Prop :=
  ∃ fuel, b.rounds d fuel = some (result, b')

theorem returns_iff (hopen : b.isOpen = true) {timeout : ℤ} :
    b.Returns timeout result b' ↔ b.Ends (b.deadline timeout) result b' := by
  simp only [Returns, Ends, receive, hopen, Bool.true_eq_false, if_false]

theorem rounds_succ {fuel : ℕ} (h : b.rounds d fuel = some (result, b')) :
    b.rounds d (fuel + 1) = some (result, b') := by
  induction fuel generalizing b with
  | zero => cases h
  | succ fuel ih =>
    rw [rounds] at h ⊢
    split at h
    · exact h
    · exact ih h

/-- More fuel gives the same result. -/
theorem rounds_mono {fuel more : ℕ} (hle : fuel ≤ more) (h : b.rounds d fuel = some (result, b')) :
    b.rounds d more = some (result, b') := by
  induction more, hle using Nat.le_induction with
  | base => exact h
  | succ more _ ih => exact rounds_succ ih

/-- **A call has one result.** -/
theorem Returns.unique {timeout : ℤ} {result' : Result FdFrame} {b'' : LogReplayBus R}
    (h : b.Returns timeout result b') (h' : b.Returns timeout result' b'') :
    result = result' ∧ b' = b'' := by
  obtain ⟨fuel, h⟩ := h
  obtain ⟨fuel', h'⟩ := h'
  unfold receive at h h'
  split_ifs at h h' with hopen
  · obtain ⟨rfl, rfl⟩ := Prod.mk.inj (Option.some.inj (h.symm.trans h'))
    exact ⟨rfl, rfl⟩
  · have hleft := rounds_mono (le_max_left fuel fuel') h
    have hright := rounds_mono (le_max_right fuel fuel') h'
    obtain ⟨rfl, rfl⟩ := Prod.mk.inj (Option.some.inj (hleft.symm.trans hright))
    exact ⟨rfl, rfl⟩

/-! ### The rounds of the loop -/

theorem Ends.of_round (h : b.round d = (some result, b')) : b.Ends d result b' :=
  ⟨1, by rw [rounds, h]⟩

theorem Ends.of_again {b₁ : LogReplayBus R} (h : b.round d = (none, b₁))
    (hrest : b₁.Ends d result b') : b.Ends d result b' := by
  obtain ⟨fuel, hfuel⟩ := hrest
  exact ⟨fuel + 1, by rw [rounds, h]; exact hfuel⟩

/-- A record ends the loop. -/
def Stops (d : ℕ) (b : LogReplayBus R) (record : LogRecord) : Prop :=
  acceptedBy b.filters record.frame.id = true ∨ d < b.due record

/-- At a record that stops it the loop ends. -/
theorem round_stops {record : LogRecord} (hat : b.records[b.index]? = some record)
    (hstops : b.Stops d record) : ∃ result b', b.round d = (some result, b') := by
  rw [round, hat]
  dsimp only
  split_ifs with hdue hfilter
  · exact ⟨_, _, rfl⟩
  · rcases hstops with hstops | hstops
    · exact absurd (hstops.symm.trans hfilter) (by decide)
    · exact absurd hstops hdue
  · exact ⟨_, _, rfl⟩

/-- Over any other record it goes. -/
theorem round_passes {record : LogRecord} (hat : b.records[b.index]? = some record)
    (hstops : ¬b.Stops d record) : b.round d = (none, b.passed record) := by
  obtain ⟨hfilter, hdue⟩ := not_or.1 hstops
  rw [round, hat]
  dsimp only
  rw [if_neg hdue, if_pos (by simpa [passed] using hfilter)]

/-- At the end of a looped recording it starts over. -/
theorem round_wraps (hat : b.records[b.index]? = none) (hloop : b.options.loop = true)
    (hne : b.records ≠ []) : b.round d = (none, { b with index := 0 }) := by
  rw [round, hat]
  exact if_pos ⟨hloop, hne⟩

/-- At the end of any other recording it ends. -/
theorem round_exhausted (hat : b.records[b.index]? = none)
    (hlast : ¬(b.options.loop = true ∧ b.records ≠ [])) :
    b.round d = (some (.error exhausted), { b with virtualNowNs := d }) := by
  rw [round, hat]
  exact if_neg hlast

/-! ### Whether the loop ends -/

/-- From in front of a record that stops it the loop ends, by induction on the records between. -/
theorem ends_before {record : LogRecord} {n : ℕ} (hat : b.records[b.index + n]? = some record)
    (hstops : b.Stops d record) : ∃ result b', b.Ends d result b' := by
  induction n generalizing b with
  | zero =>
    obtain ⟨result, b', h⟩ := round_stops hat hstops
    exact ⟨result, b', .of_round h⟩
  | succ n ih =>
    have hlt : b.index < b.records.length := by
      have := (List.getElem?_eq_some_iff.1 hat).choose
      omega
    have hhere : b.records[b.index]? = some b.records[b.index] := List.getElem?_eq_getElem hlt
    by_cases hstop : b.Stops d b.records[b.index]
    · obtain ⟨result, b', h⟩ := round_stops hhere hstop
      exact ⟨result, b', .of_round h⟩
    · have hnext : (b.passed b.records[b.index]).records[b.index + 1 + n]? = some record := by
        rw [← hat]
        exact congrArg (b.records[·]?) (by omega)
      obtain ⟨result, b', h⟩ := ih hnext hstops
      exact ⟨result, b', h.of_again (round_passes hhere hstop)⟩

/-- The loop ends, or comes to the end of the recording with nothing but its clock changed. -/
theorem ends_or_exhausts (b : LogReplayBus R) (d : ℕ) :
    (∃ result b', b.Ends d result b') ∨ ∃ now index, b.records.length ≤ index ∧
      ∀ result b', { b with virtualNowNs := now, index }.Ends d result b' → b.Ends d result b' := by
  obtain ⟨n, hn⟩ : ∃ n, b.records.length ≤ b.index + n := ⟨b.records.length, by omega⟩
  induction n generalizing b with
  | zero => exact .inr ⟨b.virtualNowNs, b.index, hn, fun _ _ h => h⟩
  | succ n ih =>
    rcases Nat.lt_or_ge b.index b.records.length with hlt | hge
    · have hhere : b.records[b.index]? = some b.records[b.index] := List.getElem?_eq_getElem hlt
      by_cases hstop : b.Stops d b.records[b.index]
      · obtain ⟨result, b', h⟩ := round_stops hhere hstop
        exact .inl ⟨result, b', .of_round h⟩
      · have hround := round_passes hhere hstop
        rcases ih (b.passed b.records[b.index]) (by
            change b.records.length ≤ b.index + 1 + n
            omega) with
          ⟨result, b', h⟩ | ⟨now, index, hend, h⟩
        · exact .inl ⟨result, b', h.of_again hround⟩
        · exact .inr ⟨now, index, hend, fun result b' hends => (h result b' hends).of_again hround⟩
    · exact .inr ⟨b.virtualNowNs, b.index, hge, fun _ _ h => h⟩

/-- **The calls that never end**: the recording is looped, none of its frames passes the filters,
and all of them are due. -/
def Spins (b : LogReplayBus R) (timeout : ℤ) : Prop :=
  b.isOpen = true ∧ b.options.loop = true ∧ b.records ≠ [] ∧
    ∀ record ∈ b.records, acceptedBy b.filters record.frame.id = false ∧
      b.due record ≤ b.deadline timeout

/-- Nothing stops a loop that none of its records stops. -/
theorem rounds_spin (hloop : b.options.loop = true) (hne : b.records ≠ [])
    (hnone : ∀ record ∈ b.records, ¬b.Stops d record) (fuel : ℕ) : b.rounds d fuel = none := by
  induction fuel generalizing b with
  | zero => rfl
  | succ fuel ih =>
    cases hat : b.records[b.index]? with
    | none =>
      rw [rounds, round_wraps hat hloop hne]
      exact ih hloop hne hnone
    | some record =>
      rw [rounds, round_passes hat (hnone record (List.mem_of_getElem? hat))]
      exact ih hloop hne hnone

/-- **`receive` returns, unless it spins.** -/
theorem receive_returns_iff (b : LogReplayBus R) (timeout : ℤ) :
    (∃ result b', b.Returns timeout result b') ↔ ¬b.Spins timeout := by
  constructor
  · rintro ⟨result, b', fuel, h⟩ ⟨hopen, hloop, hne, hall⟩
    have hnone : ∀ record ∈ b.records, ¬b.Stops (b.deadline timeout) record := by
      rintro record hmem (haccepted | hlate)
      · exact absurd (haccepted.symm.trans (hall record hmem).1) (by decide)
      · exact absurd (hall record hmem).2 (Nat.not_le.2 hlate)
    rw [receive, hopen, if_neg (by decide), rounds_spin hloop hne hnone] at h
    cases h
  · intro hspins
    cases hopen : b.isOpen with
    | false => exact ⟨.error closed, b, 0, if_pos hopen⟩
    | true =>
      simp only [returns_iff hopen]
      rcases ends_or_exhausts b (b.deadline timeout) with hends | ⟨now, index, hend, hback⟩
      · exact hends
      have hat : b.records[index]? = none := List.getElem?_eq_none hend
      by_cases hlast : b.options.loop = true ∧ b.records ≠ []
      · -- the recording starts over, and comes to a record that stops it
        obtain ⟨record, hmem, hstops⟩ :
            ∃ record ∈ b.records, b.Stops (b.deadline timeout) record := by
          by_contra! hnone
          refine hspins ⟨hopen, hlast.1, hlast.2, fun record hmem => ?_⟩
          obtain ⟨hfilter, hdue⟩ := not_or.1 (hnone record hmem)
          exact ⟨by simpa using hfilter, Nat.not_lt.1 hdue⟩
        obtain ⟨n, hn⟩ := List.mem_iff_getElem?.1 hmem
        obtain ⟨result, b', h⟩ := @ends_before R _
          { b with virtualNowNs := now, index := 0 } (b.deadline timeout) record n
          (by rw [Nat.zero_add]; exact hn) hstops
        have hround : round (b.deadline timeout) { b with virtualNowNs := now, index } =
            (none, { b with virtualNowNs := now, index := 0 }) := round_wraps hat hlast.1 hlast.2
        exact ⟨result, b', hback result b' (h.of_again hround)⟩
      · exact ⟨_, _, hback _ _ (.of_round (round_exhausted hat hlast))⟩

/-! ### A recording that is filtered out -/

/-- A record of one frame, `at` nanoseconds into the recording. -/
def recordAt (id : BitVec 32) (hid : CanId.InRange id) (timestampNs : ℕ) : LogRecord where
  frame := { id := ⟨id, hid⟩, timestampNs, data := List.replicate 64 0,
             data_length := BasicFrame.zeros_length }

/-- A looped recording of one frame, and a filter for another. -/
def filteredOut : LogReplayBus ℚ :=
  ((fromRecords [recordAt 0x123 CanId.inRange_standard 5] { loop := true }).openBus).setFilters
    [{ id := 0x100, mask := 0x7FF }]

/-- **A call on a looped recording that is filtered out never returns**, whatever its timeout. -/
theorem filteredOut_never_returns :
    filteredOut.isOpen = true ∧
      ∀ (fuel : ℕ) (timeout : ℤ), filteredOut.receive fuel timeout = none := by
  refine ⟨by decide +kernel, fun fuel timeout => ?_⟩
  have hrecords : filteredOut.records = [recordAt 0x123 CanId.inRange_standard 5] := by
    decide +kernel
  have hdue : filteredOut.due (recordAt 0x123 CanId.inRange_standard 5) = 0 := by decide +kernel
  have hfilter : acceptedBy filteredOut.filters
      (recordAt 0x123 CanId.inRange_standard 5).frame.id = false := by decide +kernel
  rw [receive, if_neg (by decide +kernel)]
  refine rounds_spin (by decide +kernel) (by rw [hrecords]; simp) (fun record hmem => ?_) fuel
  rw [hrecords, List.mem_singleton] at hmem
  subst hmem
  rintro (haccepted | hlate)
  · exact absurd (haccepted.symm.trans hfilter) (by decide)
  · rw [hdue] at hlate
    omega

end LogReplayBus

end Transport
end Canforge
