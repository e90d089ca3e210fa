/-
# What a replay returns

A call of `receive` on a recording that is not looped returns the next frame
that passes the filters, or waits as long as it may, or finds the recording
exhausted (`ends_cases`).  So a run of calls returns the accepted frames from
the start offset on, one after the other and none before it is due
(`replay_once`).
-/

import Canforge.Transport.LogReplayBus

namespace Canforge
namespace Transport

open Canforge.Core

namespace LogReplayBus

variable {R : Type} [Scalar R] {b b₁ b' : LogReplayBus R} {d : ℕ} {result : Result FdFrame}

/-! ### One call -/

/-- A frame of the recording passes the filters. -/
def accepts (b : LogReplayBus R) (record : LogRecord) : Bool := acceptedBy b.filters record.frame.id

/-- The accepted records that are still to come. -/
def pending (b : LogReplayBus R) : List LogRecord := (b.records.drop b.index).filter b.accepts

/-- What no call changes; the cursor only moves on. -/
structure Keeps (b b' : LogReplayBus R) : Prop where
  records : b'.records = b.records
  options : b'.options = b.options
  filters : b'.filters = b.filters
  firstNs : b'.firstNs = b.firstNs
  isOpen : b'.isOpen = b.isOpen
  index : b.index ≤ b'.index

theorem Keeps.refl (b : LogReplayBus R) : b.Keeps b := ⟨rfl, rfl, rfl, rfl, rfl, le_rfl⟩

theorem Keeps.trans (h : b.Keeps b₁) (h' : b₁.Keeps b') : b.Keeps b' :=
  ⟨h'.records.trans h.records, h'.options.trans h.options, h'.filters.trans h.filters,
    h'.firstNs.trans h.firstNs, h'.isOpen.trans h.isOpen, h.index.trans h'.index⟩

theorem Keeps.due (h : b.Keeps b') (record : LogRecord) : b'.due record = b.due record := by
  rw [LogReplayBus.due, LogReplayBus.due, offset, offset, h.firstNs, h.options]

/-- A frame is returned: the next that is accepted, at a time it is due. -/
structure Gives (d : ℕ) (b : LogReplayBus R) (result : Result FdFrame) (b' : LogReplayBus R)
    (record : LogRecord) : Prop where
  result_eq : result = .ok (b'.stamped record)
  pending_eq : b.pending = record :: b'.pending
  due_le : b.due record ≤ b'.virtualNowNs
  now_le : b.virtualNowNs ≤ b'.virtualNowNs
  le_deadline : b'.virtualNowNs ≤ d
  index_lt : b.index < b'.index

/-- Time is up. -/
structure Waits (d : ℕ) (b : LogReplayBus R) (result : Result FdFrame) (b' : LogReplayBus R) :
    Prop where
  result_eq : result = .error notDue
  pending_eq : b'.pending = b.pending
  now_eq : b'.virtualNowNs = d
  early : ∃ record ∈ b.records, d < b.due record

/-- The recording is at its end. -/
structure Exhausts (d : ℕ) (b : LogReplayBus R) (result : Result FdFrame)
    (b' : LogReplayBus R) : Prop where
  result_eq : result = .error exhausted
  pending_eq : b.pending = []
  pending_eq' : b'.pending = []
  now_eq : b'.virtualNowNs = d

theorem pending_of_getElem? {record : LogRecord} (hat : b.records[b.index]? = some record) :
    b.pending = if b.accepts record then record :: (b.passed record).pending
      else (b.passed record).pending := by
  obtain ⟨hlt, hget⟩ := List.getElem?_eq_some_iff.1 hat
  rw [pending, List.drop_eq_getElem_cons hlt, hget, List.filter_cons]
  rfl

/-- **What a call on a recording that is not looped does**, by induction on its rounds. -/
theorem ends_cases (hloop : b.options.loop = false) (hnow : b.virtualNowNs ≤ d)
    (hends : b.Ends d result b') :
    b.Keeps b' ∧ ((∃ record, b.Gives d result b' record) ∨ b.Waits d result b' ∨
      b.Exhausts d result b') := by
  obtain ⟨fuel, hrounds⟩ := hends
  induction fuel generalizing b with
  | zero => cases hrounds
  | succ fuel ih =>
    cases hat : b.records[b.index]? with
    | none =>
      rw [rounds, round_exhausted hat (by simp [hloop])] at hrounds
      obtain ⟨rfl, rfl⟩ := Prod.mk.inj (Option.some.inj hrounds)
      have hnil : b.records.drop b.index = [] :=
        List.drop_eq_nil_iff.2 (List.getElem?_eq_none_iff.1 hat)
      have hpending : b.pending = [] := by rw [pending, hnil, List.filter_nil]
      exact ⟨⟨rfl, rfl, rfl, rfl, rfl, le_rfl⟩, .inr (.inr ⟨rfl, hpending, hpending, rfl⟩)⟩
    | some record =>
      have hpending := pending_of_getElem? hat
      by_cases hdue : d < b.due record
      · have hround : b.round d = (some (.error notDue), { b with virtualNowNs := d }) := by
          rw [round, hat]
          exact if_pos hdue
        rw [rounds, hround] at hrounds
        obtain ⟨rfl, rfl⟩ := Prod.mk.inj (Option.some.inj hrounds)
        exact ⟨⟨rfl, rfl, rfl, rfl, rfl, le_rfl⟩,
          .inr (.inl ⟨rfl, rfl, rfl, record, List.mem_of_getElem? hat, hdue⟩)⟩
      have hclock : (b.passed record).virtualNowNs ≤ d := max_le hnow (Nat.not_lt.1 hdue)
      by_cases haccept : b.accepts record = true
      · have hround : b.round d = (some (.ok ((b.passed record).stamped record)),
            { b.passed record with
              stats := (b.passed record).counted ((b.passed record).stamped record) }) := by
          rw [round, hat]
          dsimp only
          rw [if_neg hdue, if_neg (by simpa [passed, accepts] using haccept)]
        rw [rounds, hround] at hrounds
        obtain ⟨rfl, rfl⟩ := Prod.mk.inj (Option.some.inj hrounds)
        rw [if_pos haccept] at hpending
        exact ⟨⟨rfl, rfl, rfl, rfl, rfl, Nat.le_succ _⟩, .inl ⟨record, rfl, hpending,
          le_max_right _ _, le_max_left _ _, hclock, Nat.lt_succ_self _⟩⟩
      · have hstops : ¬b.Stops d record := by
          rintro (haccepted | hlate)
          · exact haccept haccepted
          · exact hdue hlate
        rw [rounds, round_passes hat hstops] at hrounds
        rw [if_neg haccept] at hpending
        have hpassed : b.Keeps (b.passed record) := ⟨rfl, rfl, rfl, rfl, rfl, Nat.le_succ _⟩
        obtain ⟨hkeeps, hcases⟩ := ih (b := b.passed record) hloop hclock hrounds
        refine ⟨hpassed.trans hkeeps, ?_⟩
        rcases hcases with ⟨next, hgives⟩ | hwaits | hexhausts
        · exact .inl ⟨next, hgives.result_eq, hpending.trans hgives.pending_eq, hgives.due_le,
            (le_max_left _ _).trans hgives.now_le, hgives.le_deadline,
            (Nat.lt_succ_self _).trans hgives.index_lt⟩
        · exact .inr (.inl ⟨hwaits.result_eq, hwaits.pending_eq.trans hpending.symm,
            hwaits.now_eq, hwaits.early⟩)
        · exact .inr (.inr ⟨hexhausts.result_eq, hpending.trans hexhausts.pending_eq,
            hexhausts.pending_eq', hexhausts.now_eq⟩)

/-! ### Runs -/

/-- **A run**: calls with these timeouts, what they return, and the bus they leave. -/
inductive Run : LogReplayBus R → List ℤ → List (Result FdFrame) → LogReplayBus R → Prop
  | nil {b : LogReplayBus R} : Run b [] [] b
  | cons {b b₁ b' : LogReplayBus R} {timeout : ℤ} {timeouts : List ℤ} {result : Result FdFrame}
      {results : List (Result FdFrame)} (hreturns : b.Returns timeout result b₁)
      (hrest : Run b₁ timeouts results b') : Run b (timeout :: timeouts) (result :: results) b'

/-- The frames among some results. -/
def framesOf (results : List (Result FdFrame)) : List FdFrame :=
  results.filterMap Except.toOption

/-- The time some timeouts add up to. -/
def budget (timeouts : List ℤ) : ℕ := (timeouts.map Int.toNat).sum

/-- A frame is that of a record, at a time it is due. -/
structure Matches (due : LogRecord → ℕ) (frame : FdFrame) (record : LogRecord) : Prop where
  id : frame.id = record.frame.id
  dlc : frame.dlc = record.frame.dlc
  flags : frame.flags = record.frame.flags
  data : frame.data = record.frame.data
  due_le : due record ≤ frame.timestampNs

/-- **What a run returned** of the records `expected`, when the clock shows `now`. -/
structure Replayed (due : LogRecord → ℕ) (expected : List LogRecord)
    (results : List (Result FdFrame)) (now : ℕ) : Prop where
  /-- The frames are the first of the records, all of them at the end of the recording. -/
  frames : ∃ returned rest, expected = returned ++ rest ∧
    List.Forall₂ (Matches due) (framesOf results) returned ∧
    (.error exhausted ∈ results → rest = [])
  /-- Their times do not decrease. -/
  ordered : (framesOf results).Pairwise fun f g => f.timestampNs ≤ g.timestampNs
  /-- A frame that is returned shows the clock. -/
  clock : ∀ frame, results.getLast? = some (.ok frame) → frame.timestampNs = now

theorem deadline_eq {timeout : ℤ} (hfits : b.virtualNowNs + timeout.toNat < 2 ^ 64) :
    b.deadline timeout = b.virtualNowNs + timeout.toNat := Nat.mod_eq_of_lt hfits

/-- One call of a run. -/
theorem returns_cases {timeout : ℤ} (hloop : b.options.loop = false) (hopen : b.isOpen = true)
    (hfits : b.virtualNowNs + timeout.toNat < 2 ^ 64) (h : b.Returns timeout result b') :
    b.Keeps b' ∧ ((∃ record, b.Gives (b.virtualNowNs + timeout.toNat) result b' record) ∨
      b.Waits (b.virtualNowNs + timeout.toNat) result b' ∨
      b.Exhausts (b.virtualNowNs + timeout.toNat) result b') := by
  rw [returns_iff hopen, deadline_eq hfits] at h
  exact ends_cases hloop (Nat.le_add_right _ _) h

/-- What a call leaves of the clock and of the recording. -/
theorem returns_progress {timeout : ℤ} (hloop : b.options.loop = false) (hopen : b.isOpen = true)
    (hfits : b.virtualNowNs + timeout.toNat < 2 ^ 64) (h : b.Returns timeout result b') :
    b'.options.loop = false ∧ b'.isOpen = true ∧ b.virtualNowNs ≤ b'.virtualNowNs ∧
      b'.virtualNowNs ≤ b.virtualNowNs + timeout.toNat := by
  obtain ⟨hkeeps, hcases⟩ := returns_cases hloop hopen hfits h
  refine ⟨hkeeps.options ▸ hloop, hkeeps.isOpen.trans hopen, ?_⟩
  rcases hcases with ⟨record, hgives⟩ | hwaits | hexhausts
  · exact ⟨hgives.now_le, hgives.le_deadline⟩
  · have := hwaits.now_eq
    omega
  · have := hexhausts.now_eq
    omega

/-- A call on a recording that is not looped returns. -/
theorem exists_returns (hloop : b.options.loop = false) (hopen : b.isOpen = true) (timeout : ℤ) :
    ∃ result b', b.Returns timeout result b' := by
  simp only [returns_iff hopen]
  rcases ends_or_exhausts b (b.deadline timeout) with hends | ⟨now, index, hend, hback⟩
  · exact hends
  · have hround := @round_exhausted R _ { b with virtualNowNs := now, index } (b.deadline timeout)
      (List.getElem?_eq_none hend) (by simp [hloop])
    exact ⟨_, _, hback _ _ (.of_round hround)⟩

theorem budget_cons (timeout : ℤ) (timeouts : List ℤ) :
    budget (timeout :: timeouts) = timeout.toNat + budget timeouts := List.sum_cons

/-- **Every sequence of calls returns.** -/
theorem exists_run (hloop : b.options.loop = false) (hopen : b.isOpen = true) {timeouts : List ℤ}
    (hfits : b.virtualNowNs + budget timeouts < 2 ^ 64) :
    ∃ results b', b.Run timeouts results b' := by
  induction timeouts generalizing b with
  | nil => exact ⟨[], b, .nil⟩
  | cons timeout timeouts ih =>
    rw [budget_cons] at hfits
    obtain ⟨result, b₁, hreturns⟩ := exists_returns hloop hopen timeout
    obtain ⟨hloop₁, hopen₁, -, hle⟩ := returns_progress hloop hopen (by omega) hreturns
    obtain ⟨results, b', hrest⟩ := ih hloop₁ hopen₁ (by omega)
    exact ⟨result :: results, b', .cons hreturns hrest⟩

/-- What holds of a run. -/
structure Progress (b : LogReplayBus R) (results : List (Result FdFrame)) (b' : LogReplayBus R)
    (returned : List LogRecord) : Prop where
  pending_eq : b.pending = returned ++ b'.pending
  frames : List.Forall₂ (Matches b.due) (framesOf results) returned
  finished : .error exhausted ∈ results → b'.pending = []
  ordered : (framesOf results).Pairwise fun f g => f.timestampNs ≤ g.timestampNs
  later : ∀ frame ∈ framesOf results, b.virtualNowNs ≤ frame.timestampNs
  clock : ∀ frame, results.getLast? = some (.ok frame) → frame.timestampNs = b'.virtualNowNs

/-- A call that returns no frame, in front of a run. -/
theorem Progress.cons_error {returned : List LogRecord} {results : List (Result FdFrame)} {e : Error}
    (h : b₁.Progress results b' returned) (hkeeps : b.Keeps b₁)
    (hnow : b.virtualNowNs ≤ b₁.virtualNowNs) (hpending : b.pending = b₁.pending)
    (hfinished : e = exhausted → b.pending = []) :
    b.Progress (.error e :: results) b' returned where
  pending_eq := hpending.trans h.pending_eq
  frames := (funext hkeeps.due : b₁.due = b.due) ▸ h.frames
  finished hmem := by
    rcases List.mem_cons.1 hmem with heq | hmem
    · have hnil := hfinished (Except.error.inj heq).symm
      rw [hpending, h.pending_eq] at hnil
      exact (List.append_eq_nil_iff.1 hnil).2
    · exact h.finished hmem
  ordered := h.ordered
  later frame hmem := hnow.trans (h.later frame hmem)
  clock frame hlast := by
    cases results with
    | nil => cases hlast
    | cons result results => exact h.clock frame hlast

/-- A frame, in front of a run. -/
theorem Progress.cons_frame {returned : List LogRecord} {results : List (Result FdFrame)}
    {record : LogRecord} (h : b₁.Progress results b' returned) (hrun : results = [] → b' = b₁)
    (hkeeps : b.Keeps b₁) (hgives : b.Gives d result b₁ record) :
    b.Progress (result :: results) b' (record :: returned) := by
  have hframes : framesOf (result :: results) = b₁.stamped record :: framesOf results := by
    rw [framesOf, List.filterMap_cons, hgives.result_eq]
    rfl
  refine ⟨?_, ?_, fun hmem => ?_, ?_, fun frame hmem => ?_, fun frame hlast => ?_⟩
  · rw [hgives.pending_eq, h.pending_eq, List.cons_append]
  · rw [hframes]
    exact .cons ⟨rfl, rfl, rfl, rfl, hgives.due_le⟩ ((funext hkeeps.due : b₁.due = b.due) ▸ h.frames)
  · rcases List.mem_cons.1 hmem with heq | hmem
    · rw [hgives.result_eq] at heq
      cases heq
    · exact h.finished hmem
  · rw [hframes]
    exact List.pairwise_cons.2 ⟨h.later, h.ordered⟩
  · rw [hframes] at hmem
    rcases List.mem_cons.1 hmem with rfl | hmem
    · exact hgives.now_le
    · exact hgives.now_le.trans (h.later frame hmem)
  · cases results with
    | nil =>
      rw [hgives.result_eq] at hlast
      obtain rfl := Except.ok.inj (Option.some.inj hlast)
      rw [hrun rfl]
      rfl
    | cons next results => exact h.clock frame hlast

/-- **What a run returns**, by induction on its calls. -/
theorem Run.progress {timeouts : List ℤ} {results : List (Result FdFrame)}
    (hrun : b.Run timeouts results b') (hloop : b.options.loop = false) (hopen : b.isOpen = true)
    (hfits : b.virtualNowNs + budget timeouts < 2 ^ 64) :
    ∃ returned, b.Progress results b' returned := by
  induction hrun with
  | nil =>
    refine ⟨[], rfl, .nil, fun hmem => ?_, .nil, fun _ hmem => ?_, fun _ hlast => ?_⟩
    · cases hmem
    · cases hmem
    · cases hlast
  | @cons b b₁ b' timeout timeouts result results hreturns hrest ih =>
    rw [budget_cons] at hfits
    obtain ⟨hloop₁, hopen₁, hnow, hle⟩ := returns_progress hloop hopen (by omega) hreturns
    obtain ⟨returned, h⟩ := ih hloop₁ hopen₁ (by omega)
    obtain ⟨hkeeps, hcases⟩ := returns_cases hloop hopen (by omega) hreturns
    rcases hcases with ⟨record, hgives⟩ | hwaits | hexhausts
    · refine ⟨record :: returned, h.cons_frame (fun hnil => ?_) hkeeps hgives⟩
      subst hnil
      cases hrest
      rfl
    · rw [hwaits.result_eq]
      exact ⟨returned, h.cons_error hkeeps hnow hwaits.pending_eq.symm
        fun heq => absurd heq (by decide)⟩
    · rw [hexhausts.result_eq]
      exact ⟨returned, h.cons_error hkeeps hnow (hexhausts.pending_eq.trans hexhausts.pending_eq'.symm)
        fun _ => hexhausts.pending_eq⟩

/-! ### A run that goes on comes to the end -/

/-- The records and the time still in front of the bus, when no record is due after `horizon`. -/
def ahead (horizon : ℕ) (b : LogReplayBus R) : ℕ :=
  (b.records.length - b.index) + (horizon - b.virtualNowNs)

/-- **A run that never finds the recording exhausted gets on with every call that may wait.** -/
theorem Run.ahead_le {horizon : ℕ} {timeouts : List ℤ} {results : List (Result FdFrame)}
    (hrun : b.Run timeouts results b') (hloop : b.options.loop = false) (hopen : b.isOpen = true)
    (hfits : b.virtualNowNs + budget timeouts < 2 ^ 64)
    (hhorizon : ∀ record ∈ b.records, b.due record ≤ horizon)
    (hnot : .error exhausted ∉ results) :
    b'.ahead horizon + (timeouts.filter (0 < ·)).length ≤ b.ahead horizon := by
  induction hrun with
  | nil => exact le_rfl
  | @cons b b₁ b' timeout timeouts result results hreturns hrest ih =>
    rw [budget_cons] at hfits
    obtain ⟨hloop₁, hopen₁, hnow, hle⟩ := returns_progress hloop hopen (by omega) hreturns
    obtain ⟨hkeeps, hcases⟩ := returns_cases hloop hopen (by omega) hreturns
    have hrecords := hkeeps.records
    have hindex := hkeeps.index
    have hrest := ih hloop₁ hopen₁ (by omega)
      (fun record hmem => hkeeps.due record ▸ hhorizon record (hrecords ▸ hmem))
      fun hmem => hnot (List.mem_cons_of_mem _ hmem)
    have hstep : b₁.ahead horizon + (if 0 < timeout then 1 else 0) ≤ b.ahead horizon := by
      rw [ahead, ahead, hrecords]
      rcases hcases with ⟨record, hgives⟩ | hwaits | hexhausts
      · have hlt := hgives.index_lt
        have hinside : b.index < b.records.length := by
          by_contra hge
          have hnil : b.pending = [] := by
            rw [pending, List.drop_of_length_le (Nat.not_lt.1 hge), List.filter_nil]
          rw [hgives.pending_eq] at hnil
          cases hnil
        split_ifs <;> omega
      · obtain ⟨record, hmem, hearly⟩ := hwaits.early
        have hdue := hhorizon record hmem
        have hclock := hwaits.now_eq
        split_ifs <;> omega
      · exact absurd (hexhausts.result_eq ▸ List.mem_cons_self) hnot
    rw [List.filter_cons]
    split_ifs at hstep ⊢ with hpos
    · rw [List.length_cons]
      omega
    · simp_all
    · simp_all
    · omega

/-! ### The recording that is played -/

/-- The recording in the order of its time stamps. -/
def sorted (records : List LogRecord) : List LogRecord :=
  Lib.stableSort (·.frame.timestampNs) records

/-- The time stamp the recording begins with. -/
def origin (records : List LogRecord) : ℕ :=
  match sorted records with
  | [] => 0
  | record :: _ => record.frame.timestampNs

/-- The accepted records from the start offset on, in stable order of their time stamps. -/
def expected (records : List LogRecord) (startOffset : ℤ) (filters : List Filter) :
    List LogRecord :=
  (sorted records).filter fun record =>
    decide (startOffset.toNat ≤ record.frame.timestampNs - origin records) &&
      acceptedBy filters record.frame.id

/-- The bus that plays a recording. -/
def player (records : List LogRecord) (options : ReplayOptions R) (filters : List Filter) :
    LogReplayBus R := ((fromRecords records options).openBus).setFilters filters

theorem dropWhile_eq_filter {α : Type} {key : α → ℕ} {l : List α} (h : Lib.SortedBy key l) (k : ℕ) :
    l.dropWhile (fun a => decide (key a < k)) = l.filter fun a => decide (k ≤ key a) := by
  induction l with
  | nil => rfl
  | cons a l ih =>
    obtain ⟨ha, hl⟩ := List.pairwise_cons.1 h
    by_cases hlt : key a < k
    · rw [List.dropWhile_cons_of_pos (by simpa using hlt), ih hl,
        List.filter_cons_of_neg (by simpa using hlt)]
    · have hall : ∀ x ∈ a :: l, decide (k ≤ key x) = true := by
        intro x hx
        rcases List.mem_cons.1 hx with rfl | hx
        · simpa using hlt
        · have := ha x hx
          rw [decide_eq_true_iff]
          omega
      rw [List.dropWhile_cons_of_neg (by simpa using hlt), List.filter_eq_self.2 hall]

theorem drop_length_takeWhile {α : Type} (p : α → Bool) (l : List α) :
    l.drop (l.takeWhile p).length = l.dropWhile p := by
  have hdrop := @List.drop_left _ (l.takeWhile p) (l.dropWhile p)
  rwa [List.takeWhile_append_dropWhile] at hdrop

variable {records : List LogRecord} {options : ReplayOptions R} {filters : List Filter}

theorem player_spec (records : List LogRecord) (options : ReplayOptions R) (filters : List Filter) :
    (player records options filters).records = sorted records ∧
      (player records options filters).firstNs = origin records ∧
      (player records options filters).options.loop = options.loop ∧
      (player records options filters).isOpen = true ∧
      (player records options filters).filters = filters ∧
      (player records options filters).virtualNowNs = options.startOffset.toNat ∧
      (player records options filters).options.speed =
        if Scalar.le options.speed (Scalar.lit 0) then Scalar.lit 1 else options.speed := by
  unfold player fromRecords
  split_ifs <;> exact ⟨rfl, rfl, rfl, rfl, rfl, rfl, rfl⟩

/-- **What is played are the records that are expected.** -/
theorem pending_player (records : List LogRecord) (options : ReplayOptions R)
    (filters : List Filter) :
    (player records options filters).pending = expected records options.startOffset filters := by
  have hdrop : (player records options filters).records.drop (player records options filters).index =
      (sorted records).filter fun record =>
        decide (options.startOffset.toNat ≤ record.frame.timestampNs - origin records) := by
    have hoffsets : Lib.SortedBy (fun record : LogRecord =>
        record.frame.timestampNs - origin records) (sorted records) := by
      have hsorted := Lib.sortedBy_stableSort (fun r : LogRecord => r.frame.timestampNs) records
      exact hsorted.imp fun hle => Nat.sub_le_sub_right hle _
    rw [← dropWhile_eq_filter hoffsets, ← drop_length_takeWhile]
    unfold player fromRecords
    split_ifs <;> rfl
  have haccepts : (player records options filters).accepts =
      fun record => acceptedBy filters record.frame.id := by
    funext record
    rw [accepts, (player_spec records options filters).2.2.2.2.1]
  rw [pending, hdrop, haccepts, List.filter_filter, expected]
  refine List.filter_congr fun record _ => ?_
  exact Bool.and_comm _ _

/-- When a record is due at a speed, exactly and rounded down. -/
def scaled (records : List LogRecord) (speed : ℚ) (record : LogRecord) : ℕ :=
  ⌊((record.frame.timestampNs - origin records : ℕ) : ℚ) / speed⌋₊

/-- The conversion of a number that is not negative rounds it down. -/
theorem toNat_eq_floor {q : ℚ} (hq : 0 ≤ q) : Scalar.toNat q = ⌊q⌋₊ := by
  change (q.num.tdiv q.den).toNat = ⌊q⌋₊
  rw [Int.tdiv_eq_ediv_of_nonneg (Rat.num_nonneg.2 hq), ← Rat.floor_def, ← Int.floor_toNat]
  rfl

theorem due_player {options : ReplayOptions ℚ} (hspeed : 0 < options.speed) :
    (player records options filters).due = scaled records options.speed := by
  obtain ⟨-, hfirst, -, -, -, -, hscale⟩ := player_spec records options filters
  have hkept : Scalar.le options.speed (Scalar.lit 0) = false := by
    change decide (options.speed ≤ 0) = false
    simpa using hspeed
  rw [hkept, if_neg Bool.false_ne_true] at hscale
  funext record
  rw [due, offset, hfirst, hscale, scaled]
  exact toNat_eq_floor (div_nonneg (Nat.cast_nonneg _) hspeed.le)

/-- **Replay without looping returns the recording.**  Every sequence of calls returns.  What it
returns are the first of the accepted records from the start offset on, each once, none before it
is due, at times that do not decrease, and all of them when the recording is found exhausted; and
that happens as soon as the calls that may wait are more than there are records and nanoseconds. -/
theorem replay_once (records : List LogRecord) (options : ReplayOptions ℚ) (filters : List Filter)
    (hloop : options.loop = false) (hspeed : 0 < options.speed) (timeouts : List ℤ)
    (hfits : options.startOffset.toNat + budget timeouts < 2 ^ 64) :
    (∃ results bus, (player records options filters).Run timeouts results bus) ∧
      ∀ results bus, (player records options filters).Run timeouts results bus →
        Replayed (scaled records options.speed)
          (expected records options.startOffset filters) results bus.virtualNowNs ∧
        ∀ horizon, (∀ record ∈ records, scaled records options.speed record ≤ horizon) →
          records.length + horizon < (timeouts.filter (0 < ·)).length →
          .error exhausted ∈ results := by
  obtain ⟨hrecords, -, hloop', hopen, -, hnow, -⟩ := player_spec records options filters
  rw [hloop] at hloop'
  rw [← hnow] at hfits
  refine ⟨exists_run hloop' hopen hfits, fun results bus hrun => ⟨?_, fun horizon hdue hlong => ?_⟩⟩
  · obtain ⟨returned, h⟩ := hrun.progress hloop' hopen hfits
    rw [← due_player hspeed, ← pending_player]
    exact ⟨⟨returned, bus.pending, h.pending_eq, h.frames, h.finished⟩, h.ordered, h.clock⟩
  · by_contra hnot
    have hbound : ∀ record ∈ (player records options filters).records,
        (player records options filters).due record ≤ horizon := by
      intro record hmem
      rw [due_player hspeed]
      rw [hrecords] at hmem
      exact hdue record (Lib.mem_stableSort.1 hmem)
    have hle := hrun.ahead_le hloop' hopen hfits hbound hnot
    have hlength : (sorted records).length = records.length := Lib.length_stableSort _ _
    rw [ahead, ahead, hrecords, hlength] at hle
    omega

/-- Two frames, 5 ns apart, the later one first. -/
def twoFrames : List LogRecord :=
  [recordAt 0x124 (by decide) 8, recordAt 0x123 CanId.inRange_standard 3]

/-- Half the speed. -/
def halfSpeed : ReplayOptions ℚ where
  speed := 1 / 2

theorem replay_once_two :
    ∃ results bus, (player twoFrames halfSpeed []).Run [0, 4, 20, 1] results bus ∧
      Replayed (scaled twoFrames (1 / 2)) (expected twoFrames 0 []) results bus.virtualNowNs := by
  obtain ⟨⟨results, bus, hrun⟩, hall⟩ := replay_once twoFrames halfSpeed [] rfl
    (by norm_num [halfSpeed]) [0, 4, 20, 1] (by decide)
  exact ⟨results, bus, hrun, (hall results bus hrun).1⟩

end LogReplayBus

end Transport
end Canforge
