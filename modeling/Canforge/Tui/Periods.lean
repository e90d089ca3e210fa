/-
# The periods of the messages

After some frames the row of each identifier holds the count, the mean and the maximum of its
periods (`Measures`), and the window the timestamps of the last second; each frame keeps that
(`Tallied.ingest`).  The minimum takes zero for "none yet", so it forgets what came before when two
frames of an identifier have one timestamp.  It is right, and with it all of the statistics, exactly
when every identifier with such frames ends in two of them (`statistics_right_iff`).
-/

import Canforge.Lib.Running
import Canforge.Tui.ViewModel

namespace Canforge
namespace Tui

open Canforge.Core IsoTp Lib Transport

/-! ### What the statistics are of -/

/-- The timestamps of the frames of an identifier. -/
def stamps (id : CanId) (frames : List FdFrame) : List ℕ :=
  (frames.filter fun f => decide (f.id = id)).map (·.timestampNs)

/-- The times between timestamps. -/
def gaps : List ℕ → List ℕ
  | [] => []
  | [_] => []
  | a :: b :: rest => (b - a) :: gaps (b :: rest)

/-- These in milliseconds. -/
def periods (times : List ℕ) : List ℚ := (gaps times).map fun gap : ℕ => (gap : ℚ) / 10 ^ 6

/-- The timestamp of the last frame. -/
def newest (frames : List FdFrame) : ℕ := (frames.getLast?.map (·.timestampNs)).getD 0

/-- The statistics of one message are those of its periods. -/
structure RightPeriods (s : MessageStats ℚ) (ps : List ℚ) : Prop where
  min : IsLeast { p | p ∈ ps } s.minPeriodMs
  max : IsGreatest { p | p ∈ ps } s.maxPeriodMs
  mean : s.meanPeriodMs = ps.sum / ps.length
  jitter : s.jitterMs =
    Max.max (s.maxPeriodMs - s.meanPeriodMs) (s.meanPeriodMs - s.minPeriodMs)

/-- All statistics are right: those of each identifier that was seen twice, and the frames of the
last second. -/
def StatisticsRight (frames : List FdFrame) (vm : ViewModel ℚ) : Prop :=
  (∀ id, 2 ≤ (stamps id frames).length →
    ∃ s, vm.messages.find? (fun s => decide (s.id = id)) = some s ∧
      RightPeriods s (periods (stamps id frames))) ∧
  vm.framesPerSecond =
    ((frames.filter fun f => decide (newest frames ≤ f.timestampNs + 1000000000)).length : ℚ)

theorem gaps_append {times : List ℕ} {l : ℕ} (h : times.getLast? = some l) (t : ℕ) :
    gaps (times ++ [t]) = gaps times ++ [t - l] := by
  induction times with
  | nil => cases h
  | cons a times ih =>
    cases times with
    | nil =>
      cases h
      rfl
    | cons b times =>
      rw [List.getLast?_cons_cons] at h
      exact congrArg ((b - a) :: ·) (ih h)

theorem gaps_length (times : List ℕ) : (gaps times).length = times.length - 1 := by
  induction times with
  | nil => rfl
  | cons a times ih =>
    cases times with
    | nil => rfl
    | cons b times =>
      simp only [gaps, List.length_cons] at ih ⊢
      omega

theorem periods_append {times : List ℕ} {l : ℕ} (h : times.getLast? = some l) (t : ℕ) :
    periods (times ++ [t]) = periods times ++ [((t - l : ℕ) : ℚ) / 10 ^ 6] := by
  rw [periods, gaps_append h, List.map_append]
  rfl

theorem periods_length (times : List ℕ) : (periods times).length = times.length - 1 := by
  rw [periods, List.length_map, gaps_length]

theorem periods_nonneg (times : List ℕ) : ∀ p ∈ periods times, 0 ≤ p := by
  rw [periods, List.forall_mem_map]
  exact fun gap _ => by positivity

theorem stamps_append (id : CanId) (frames : List FdFrame) (frame : FdFrame) :
    stamps id (frames ++ [frame]) =
      if frame.id = id then stamps id frames ++ [frame.timestampNs] else stamps id frames := by
  rw [stamps, List.filter_append, List.map_append]
  split_ifs with h
  · rw [List.filter_cons_of_pos (by simpa using h)]
    rfl
  · rw [List.filter_cons_of_neg (by simpa using h)]
    exact List.append_nil _

/-! ### One row -/

/-- A row holds what is kept of the periods of some timestamps. -/
structure Measures (s : MessageStats ℚ) (times : List ℕ) : Prop where
  count : s.count = times.length
  last : ∀ l, times.getLast? = some l → s.lastNs = l
  mean : s.meanPeriodMs = (periods times).sum / (periods times).length
  min : s.minPeriodMs = markedMinimum (periods times)
  max : s.maxPeriodMs = (periods times).foldl Max.max 0
  jitter : periods times ≠ [] → s.jitterMs =
    Max.max (s.maxPeriodMs - s.meanPeriodMs) (s.meanPeriodMs - s.minPeriodMs)

theorem measures_fresh (message : Option (Message ℚ)) (entry : TraceEntry ℚ) (node : Text) :
    Measures (MessageStats.fresh message entry node) [] := by
  refine ⟨rfl, nofun, ?_, rfl, rfl, fun h => absurd rfl h⟩
  change (0 : ℚ) = _
  simp [periods, gaps]

/-- `measure` in the arithmetic of the rationals. -/
theorem measure_eq (s : MessageStats ℚ) (p : ℚ) :
    (s.measure p).meanPeriodMs = meanPush s.meanPeriodMs s.count p ∧
      (s.measure p).minPeriodMs = markedMin s.minPeriodMs p ∧
      (s.measure p).maxPeriodMs = Max.max s.maxPeriodMs p ∧
      (s.measure p).jitterMs = Max.max ((s.measure p).maxPeriodMs - (s.measure p).meanPeriodMs)
        ((s.measure p).meanPeriodMs - (s.measure p).minPeriodMs) := by
  have hmax : ∀ a b : ℚ, Scalar.max a b = Max.max a b := by
    intro a b
    change (if decide (a < b) = true then b else a) = _
    by_cases h : a < b
    · rw [if_pos (decide_eq_true h), max_eq_right h.le]
    · rw [if_neg (by simpa using h), max_eq_left (not_lt.1 h)]
  refine ⟨rfl, ?_, hmax _ _, hmax _ _⟩
  change (if (decide (s.minPeriodMs = 0) || decide (p < s.minPeriodMs)) = true then p
    else s.minPeriodMs) = _
  unfold markedMin
  simp only [Bool.or_eq_true, decide_eq_true_eq]

/-- The first frame of a row. -/
theorem Measures.first {s : MessageStats ℚ} (h : Measures s []) (t : ℕ) :
    Measures { s with count := s.count + 1, lastNs := t } [t] where
  count := congrArg (· + 1) h.count
  last l hl := Option.some_inj.1 hl
  mean := h.mean
  min := h.min
  max := h.max
  jitter := h.jitter

/-- A frame behind another one. -/
theorem Measures.next {s : MessageStats ℚ} {times : List ℕ} {l t : ℕ} (h : Measures s times)
    (hl : times.getLast? = some l) :
    Measures { s.measure (((t - l : ℕ) : ℚ) / 10 ^ 6) with count := s.count + 1, lastNs := t }
      (times ++ [t]) := by
  obtain ⟨hmean, hmin, hmax, hjitter⟩ := measure_eq s (((t - l : ℕ) : ℚ) / 10 ^ 6)
  have hcount : s.count = (periods times).length + 1 := by
    have hpos : 0 < times.length := List.length_pos_of_ne_nil (by rintro rfl; cases hl)
    rw [h.count, periods_length]
    omega
  have hperiods := periods_append hl t
  constructor
  case count => rw [List.length_append, h.count, List.length_singleton]
  case last =>
    intro l' hl'
    rw [List.getLast?_concat] at hl'
    exact Option.some_inj.1 hl'
  case mean =>
    change (s.measure _).meanPeriodMs = _
    rw [hmean, h.mean, hcount, meanPush_eq, hperiods]
  case min =>
    change (s.measure _).minPeriodMs = _
    rw [hmin, h.min, hperiods, markedMinimum_append, markedMin]
  case max =>
    change (s.measure _).maxPeriodMs = _
    rw [hmax, h.max, hperiods, List.foldl_append]
    rfl
  case jitter => exact fun _ => hjitter

/-- **A row after one more frame.** -/
theorem Measures.observe {s : MessageStats ℚ} {times : List ℕ} {entry : TraceEntry ℚ}
    (h : Measures s times) (hlater : ∀ t ∈ times, t ≤ entry.timestampNs) :
    Measures (s.observe entry) (times ++ [entry.timestampNs]) := by
  -- the values of a decoded frame are no part of the statistics
  have hvalues : ∀ s' : MessageStats ℚ, Measures s' (times ++ [entry.timestampNs]) →
      Measures (if entry.decoded then { s' with signals := entry.signals, units := entry.units }
        else s') (times ++ [entry.timestampNs]) := by
    intro s' h'
    split
    · exact ⟨h'.count, h'.last, h'.mean, h'.min, h'.max, h'.jitter⟩
    · exact h'
  refine hvalues _ ?_
  cases hlast : times.getLast? with
  | none =>
    obtain rfl := List.getLast?_eq_none_iff.1 hlast
    rw [if_neg (by simp [h.count])]
    exact h.first _
  | some l =>
    have hmem := List.mem_of_getLast? hlast
    have hpos : 0 < s.count := h.count ▸ List.length_pos_of_mem hmem
    rw [if_pos hpos, h.last l hlast, sizeSub_eq (hlater l hmem)]
    exact h.next hlast

/-! ### The rows -/

section Rows

variable {id : CanId} {change : MessageStats ℚ → MessageStats ℚ} {rows : List (MessageStats ℚ)}

theorem updateFirst_ids (hid : ∀ s, (change s).id = s.id) :
    (updateFirst id change rows).map (·.id) = rows.map (·.id) := by
  induction rows with
  | nil => rfl
  | cons s rows ih =>
    rw [updateFirst]
    split_ifs
    · rw [List.map_cons, List.map_cons, hid]
    · rw [List.map_cons, List.map_cons, ih]

/-- The row that is changed, and those that stay. -/
theorem mem_updateFirst (hnodup : (rows.map (·.id)).Nodup) {s : MessageStats ℚ}
    (h : s ∈ updateFirst id change rows) :
    (s ∈ rows ∧ s.id ≠ id) ∨ ∃ r ∈ rows, r.id = id ∧ s = change r := by
  induction rows with
  | nil => cases h
  | cons r rows ih =>
    obtain ⟨hfirst, hrest⟩ := List.nodup_cons.1 hnodup
    rw [updateFirst] at h
    split_ifs at h with hr
    · rcases List.mem_cons.1 h with rfl | h
      · exact .inr ⟨r, List.mem_cons_self, hr, rfl⟩
      · refine .inl ⟨List.mem_cons_of_mem _ h, fun hs => hfirst ?_⟩
        change r.id ∈ _
        rw [hr, ← hs]
        exact List.mem_map_of_mem h
    · rcases List.mem_cons.1 h with rfl | h
      · exact .inl ⟨List.mem_cons_self, hr⟩
      · rcases ih hrest h with ⟨hmem, hne⟩ | ⟨r', hmem, hr', rfl⟩
        · exact .inl ⟨List.mem_cons_of_mem _ hmem, hne⟩
        · exact .inr ⟨r', List.mem_cons_of_mem _ hmem, hr', rfl⟩

/-- The rows with one for an identifier: at most that one is new. -/
theorem withRow_spec (fresh : MessageStats ℚ) (hnodup : (rows.map (·.id)).Nodup) :
    ((withRow fresh rows).map (·.id)).Nodup ∧
    (∀ id, id ∈ (withRow fresh rows).map (·.id) ↔ id ∈ rows.map (·.id) ∨ id = fresh.id) ∧
    ∀ s ∈ withRow fresh rows, s ∈ rows ∨ (s = fresh ∧ fresh.id ∉ rows.map (·.id)) := by
  have hany : (rows.any fun s => decide (s.id = fresh.id)) = true ↔ fresh.id ∈ rows.map (·.id) := by
    simp
  unfold withRow
  split_ifs with hrow
  · rw [hany] at hrow
    refine ⟨hnodup, fun id => ⟨.inl, ?_⟩, fun s hs => .inl hs⟩
    rintro (hid | rfl)
    · exact hid
    · exact hrow
  · rw [hany] at hrow
    have hperm := (perm_stableSort (·.id.value.toNat) (rows ++ [fresh])).map (·.id)
    rw [List.map_append, List.map_singleton] at hperm
    refine ⟨?_, fun id => ?_, fun s hs => ?_⟩
    · rw [hperm.nodup_iff, List.nodup_append]
      refine ⟨hnodup, List.nodup_singleton _, fun a ha b hb => ?_⟩
      rintro rfl
      exact hrow (List.mem_singleton.1 hb ▸ ha)
    · rw [hperm.mem_iff, List.mem_append, List.mem_singleton]
    · rw [mem_stableSort, List.mem_append, List.mem_singleton] at hs
      exact hs.imp_right fun h => ⟨h, hrow⟩

end Rows

/-! ### A whole run -/

/-- A frame for up to 64 bytes is decoded: what is inside its size is inside its buffer. -/
theorem decode_isSome (m : Message ℚ) (frame : FdFrame) : ∃ decoded, m.decode frame = some decoded := by
  unfold Message.decode
  generalize m.signals.zipIdx = signals
  induction signals with
  | nil => exact ⟨[], rfl⟩
  | cons p signals ih =>
    obtain ⟨s, i⟩ := p
    obtain ⟨decoded, hrest⟩ := ih
    rw [Message.forEachActiveSignal]
    split_ifs with hfits hactive
    · have hdata : s.layout.fits frame.data.length := by
        rw [frame.data_length]
        exact hfits.mono (Receiver.size_le frame)
      obtain ⟨raw, hraw, -⟩ := SignalLayout.decodeRaw_spec hdata
      rw [hraw, hrest]
      exact ⟨_, rfl⟩
    · exact ⟨decoded, hrest⟩
    · exact ⟨decoded, hrest⟩

/-- Every frame has its entry. -/
theorem traceEntry_isSome (message : Option (Message ℚ)) (frame : FdFrame) :
    ∃ entry, traceEntry message frame = some entry ∧
      entry.id = frame.id ∧ entry.timestampNs = frame.timestampNs := by
  cases message with
  | none => exact ⟨_, rfl, rfl, rfl⟩
  | some m =>
    obtain ⟨decoded, hdecoded⟩ := decode_isSome m frame
    simp only [traceEntry, hdecoded, Option.bind_eq_bind, Option.bind_some]
    exact ⟨_, rfl, rfl, rfl⟩

/-- What the statistics hold after some frames. -/
structure Tallied (frames : List FdFrame) (vm : ViewModel ℚ) : Prop where
  nodup : (vm.messages.map (·.id)).Nodup
  seen : ∀ id, stamps id frames ≠ [] → id ∈ vm.messages.map (·.id)
  rows : ∀ s ∈ vm.messages, Measures s (stamps s.id frames)
  recent : vm.recentNs = (frames.map (·.timestampNs)).filter
    fun t => decide (newest frames ≤ t + 1000000000)

/-- The frames come in the order of their timestamps. -/
def InOrder (frames : List FdFrame) : Prop := (frames.map (·.timestampNs)).Pairwise (· ≤ ·)

theorem InOrder.later {frames : List FdFrame} {frame : FdFrame} (h : InOrder (frames ++ [frame])) :
    InOrder frames ∧ ∀ t ∈ frames.map (·.timestampNs), t ≤ frame.timestampNs := by
  rw [InOrder, List.map_append, List.pairwise_append] at h
  exact ⟨h.1, fun t ht => h.2.2 t ht _ List.mem_cons_self⟩

theorem newest_append (frames : List FdFrame) (frame : FdFrame) :
    newest (frames ++ [frame]) = frame.timestampNs := by
  rw [newest, List.getLast?_concat]
  rfl

theorem newest_le {frames : List FdFrame} {now : ℕ}
    (h : ∀ t ∈ frames.map (·.timestampNs), t ≤ now) : newest frames ≤ now := by
  unfold newest
  cases hlast : frames.getLast? with
  | none => exact Nat.zero_le _
  | some f => exact h _ (List.mem_map_of_mem (List.mem_of_getLast? hlast))

/-- The window after one more frame. -/
theorem pushRecent_eq {frames : List FdFrame} {frame : FdFrame}
    (horder : InOrder (frames ++ [frame])) :
    pushRecent ((frames.map (·.timestampNs)).filter
        fun t => decide (newest frames ≤ t + 1000000000)) frame.timestampNs =
      ((frames ++ [frame]).map (·.timestampNs)).filter
        fun t => decide (newest (frames ++ [frame]) ≤ t + 1000000000) := by
  obtain ⟨hsorted, hlater⟩ := horder.later
  have hnewest := newest_le hlater
  have hall : ∀ t ∈ (frames.map (·.timestampNs)).filter
      (fun t => decide (newest frames ≤ t + 1000000000)) ++ [frame.timestampNs],
      t ≤ frame.timestampNs := by
    intro t ht
    rcases List.mem_append.1 ht with ht | ht
    · exact hlater t (List.mem_of_mem_filter ht)
    · exact (List.mem_singleton.1 ht).le
  have hpair : ((frames.map (·.timestampNs)).filter
      (fun t => decide (newest frames ≤ t + 1000000000)) ++ [frame.timestampNs]).Pairwise
      (· ≤ ·) := by
    rw [List.pairwise_append]
    refine ⟨hsorted.filter _, List.pairwise_singleton _ _, fun a ha b hb => ?_⟩
    rw [List.mem_singleton.1 hb]
    exact hlater a (List.mem_of_mem_filter ha)
  rw [pushRecent, dropWhile_eq_filter]
  · rw [newest_append, List.filter_append, List.map_append, List.filter_append, List.filter_filter]
    have hkept : ∀ t ≤ frame.timestampNs, (!decide (1000000000 < sizeSub frame.timestampNs t)) =
        decide (frame.timestampNs ≤ t + 1000000000) := by
      intro t ht
      rw [sizeSub_eq ht, ← decide_not, decide_eq_decide]
      omega
    congr 1
    · refine List.filter_congr fun t ht => ?_
      rw [hkept t (hlater t ht)]
      grind
    · refine List.filter_congr fun t ht => ?_
      rw [hkept t (List.mem_singleton.1 ht).le]
  · refine hpair.imp_of_mem fun {a b} ha hb hab hold => ?_
    rw [sizeSub_eq (hall b hb), decide_eq_true_eq] at hold
    rw [sizeSub_eq (hall a ha), decide_eq_true_eq]
    omega

theorem tallied_nil {vm : ViewModel ℚ} (hrows : vm.messages = []) (hrecent : vm.recentNs = []) :
    Tallied [] vm where
  nodup := by rw [hrows]; exact List.nodup_nil
  seen _ h := absurd rfl h
  rows := by rw [hrows]; nofun
  recent := hrecent

/-- **One frame keeps the tally.** -/
theorem Tallied.ingest {frames : List FdFrame} {vm : ViewModel ℚ} (h : Tallied frames vm)
    {frame : FdFrame} (horder : InOrder (frames ++ [frame])) :
    ∃ vm', vm.ingest frame = some vm' ∧ Tallied (frames ++ [frame]) vm' := by
  obtain ⟨entry, hentry, hid, htime⟩ :=
    traceEntry_isSome (vm.database.bind (·.findMessage frame.id)) frame
  -- the trace is the last part, and no part of the statistics
  have hrecord : ∀ vm' : ViewModel ℚ, Tallied (frames ++ [frame]) vm' →
      Tallied (frames ++ [frame]) (vm'.record entry) := by
    intro vm' h'
    unfold ViewModel.record
    split_ifs
    · exact h'
    · exact ⟨h'.nodup, h'.seen, h'.rows, h'.recent⟩
    · exact ⟨h'.nodup, h'.seen, h'.rows, h'.recent⟩
  simp only [ViewModel.ingest, hentry, Option.bind_eq_bind, Option.bind_some]
  refine ⟨_, rfl, hrecord _ ?_⟩
  generalize hfresh : MessageStats.fresh _ entry _ = fresh
  have hfreshId : fresh.id = frame.id := by
    rw [← hfresh]
    exact hid
  have hchange : ∀ s : MessageStats ℚ, (s.observe entry).id = s.id := by
    intro s
    simp only [MessageStats.observe, MessageStats.measure]
    split_ifs <;> rfl
  obtain ⟨hnodup, hids, hmem⟩ := withRow_spec fresh h.nodup
  have hstamp : ∀ t ∈ stamps frame.id frames, t ≤ entry.timestampNs := by
    intro t ht
    rw [htime]
    obtain ⟨f, hf, rfl⟩ := List.mem_map.1 ht
    exact horder.later.2 _ (List.mem_map_of_mem (List.mem_of_mem_filter hf))
  constructor
  case nodup =>
    rw [updateFirst_ids hchange]
    exact hnodup
  case seen =>
    intro id hid'
    rw [updateFirst_ids hchange, hids, hfreshId]
    rw [stamps_append] at hid'
    split_ifs at hid' with heq
    · exact .inr heq.symm
    · exact .inl (h.seen id hid')
  case rows =>
    intro s hs
    -- a row of the frame's identifier holds what is kept of its earlier frames
    have hrow : ∀ r ∈ withRow fresh vm.messages, Measures r (stamps r.id frames) := by
      intro r hr
      rcases hmem r hr with hr | ⟨rfl, hnew⟩
      · exact h.rows r hr
      · have hnone : stamps r.id frames = [] := not_not.1 (mt (h.seen r.id) hnew)
        rw [hnone, ← hfresh]
        exact measures_fresh _ _ _
    rcases mem_updateFirst hnodup hs with ⟨hs, hne⟩ | ⟨r, hr, hrid, rfl⟩
    · rw [stamps_append, if_neg (Ne.symm hne)]
      exact hrow s hs
    · rw [hchange, hrid, stamps_append, if_pos rfl, ← htime]
      exact (hrid ▸ hrow r hr).observe hstamp
  case recent =>
    change pushRecent vm.recentNs frame.timestampNs = _
    rw [h.recent]
    exact pushRecent_eq horder

/-- **So does a run.** -/
theorem Tallied.ingestAll {seen : List FdFrame} {vm : ViewModel ℚ} (h : Tallied seen vm)
    {frames : List FdFrame} (horder : InOrder (seen ++ frames)) :
    ∃ vm', vm.ingestAll frames = some vm' ∧ Tallied (seen ++ frames) vm' := by
  induction frames generalizing seen vm with
  | nil => exact ⟨vm, rfl, by rwa [List.append_nil]⟩
  | cons frame frames ih =>
    rw [List.append_cons] at horder ⊢
    have hfirst : InOrder (seen ++ [frame]) := by
      rw [InOrder, List.map_append] at horder
      exact (List.pairwise_append.1 horder).1
    obtain ⟨vm₁, hingest, h₁⟩ := h.ingest hfirst
    obtain ⟨vm', hrest, h'⟩ := ih h₁ horder
    exact ⟨vm', by rw [ViewModel.ingestAll, hingest]; exact hrest, h'⟩

/-- The row of an identifier that was seen. -/
theorem Tallied.row {frames : List FdFrame} {vm : ViewModel ℚ} (h : Tallied frames vm) {id : CanId}
    (htwo : 2 ≤ (stamps id frames).length) :
    ∃ s, vm.messages.find? (fun s => decide (s.id = id)) = some s ∧
      Measures s (stamps id frames) := by
  obtain ⟨r, hr, hrid⟩ := List.mem_map.1 (h.seen id (List.ne_nil_of_length_pos (by omega)))
  have hfound : (vm.messages.find? fun s => decide (s.id = id)).isSome :=
    List.find?_isSome.2 ⟨r, hr, decide_eq_true hrid⟩
  obtain ⟨s, hs⟩ := Option.isSome_iff_exists.1 hfound
  have hsid : s.id = id := by simpa using List.find?_some hs
  exact ⟨s, hs, hsid ▸ h.rows s (List.mem_of_find?_eq_some hs)⟩

/-- A row is right when its minimum is. -/
theorem Measures.right_iff {s : MessageStats ℚ} {times : List ℕ} (h : Measures s times)
    (htwo : 2 ≤ times.length) : RightPeriods s (periods times) ↔
      ((0 : ℚ) ∈ periods times → (periods times).getLast? = some 0) := by
  have hne : periods times ≠ [] := by
    refine List.ne_nil_of_length_pos ?_
    rw [periods_length]
    omega
  have hpos := periods_nonneg times
  rw [← isLeast_markedMinimum_iff hpos hne, ← h.min]
  refine ⟨fun hright => hright.min, fun hmin => ⟨hmin, ?_, h.mean, h.jitter hne⟩⟩
  rw [h.max]
  exact isGreatest_foldl_max hpos hne

/-- **When the statistics are right.**  After any frames in the order of their timestamps, the
counts, means and maxima of the periods and the frames of the last second are right; the minima,
and with them the jitter, are right exactly when every identifier that had two frames with one
timestamp has that for its last two. -/
theorem statistics_right_iff {vm : ViewModel ℚ} (hrows : vm.messages = [])
    (hrecent : vm.recentNs = []) {frames : List FdFrame} (horder : InOrder frames) :
    ∃ vm', vm.ingestAll frames = some vm' ∧
      (StatisticsRight frames vm' ↔ ∀ id, 2 ≤ (stamps id frames).length →
        (0 : ℚ) ∈ periods (stamps id frames) →
          (periods (stamps id frames)).getLast? = some 0) := by
  obtain ⟨vm', hrun, htally⟩ := (tallied_nil hrows hrecent).ingestAll horder
  refine ⟨vm', hrun, ?_⟩
  rw [List.nil_append] at htally
  have hwindow : vm'.framesPerSecond =
      ((frames.filter fun f => decide (newest frames ≤ f.timestampNs + 1000000000)).length : ℚ) := by
    change (vm'.recentNs.length : ℚ) = _
    rw [htally.recent, List.filter_map, List.length_map]
    rfl
  constructor
  · rintro ⟨hright, -⟩ id htwo
    obtain ⟨s, hs, hperiods⟩ := hright id htwo
    obtain ⟨s', hs', hmeasures⟩ := htally.row htwo
    obtain rfl := Option.some_inj.1 (hs.symm.trans hs')
    exact (hmeasures.right_iff htwo).1 hperiods
  · refine fun hzero => ⟨fun id htwo => ?_, hwindow⟩
    obtain ⟨s, hs, hmeasures⟩ := htally.row htwo
    exact ⟨s, hs, (hmeasures.right_iff htwo).2 (hzero id htwo)⟩

/-- An empty frame. -/
def stamped (id : CanId) (timestampNs : ℕ) : FdFrame := { (default : FdFrame) with id, timestampNs }

/-- A message that comes every five milliseconds. -/
def steadyId : CanId := ⟨0x123, CanId.inRange_standard⟩

/-- Two messages; the last two frames of the second have one timestamp. -/
def twoMessages : List FdFrame :=
  [stamped steadyId 0, stamped default 2000000, stamped steadyId 5000000,
    stamped default 7000000, stamped default 7000000, stamped steadyId 10000000]

theorem statistics_right_twoMessages :
    ∃ vm, (ViewModel.create none {} : ViewModel ℚ).ingestAll twoMessages = some vm ∧
      StatisticsRight twoMessages vm := by
  have horder : InOrder twoMessages := by unfold InOrder; decide
  obtain ⟨vm, hrun, hiff⟩ :=
    @statistics_right_iff (ViewModel.create none {}) rfl rfl twoMessages horder
  refine ⟨vm, hrun, hiff.2 fun id htwo hzero => ?_⟩
  by_cases hid : id = default
  · subst hid
    decide +kernel
  · by_cases hsteady : id = steadyId
    · subst hsteady
      exact absurd hzero (by decide +kernel)
    · simp [stamps, twoMessages, stamped, Ne.symm hid, Ne.symm hsteady] at htwo

/-- Three frames of one message, the first two at one time. -/
def zeroGap : List FdFrame := [stamped default 0, stamped default 0, stamped default 5000000]

/-- The shortest period is zero, and it is forgotten at the next frame. -/
theorem zero_gap_forgotten : ∃ vm s, InOrder zeroGap ∧
    (ViewModel.create none {} : ViewModel ℚ).ingestAll zeroGap = some vm ∧
    vm.messages.find? (fun s => decide (s.id = default)) = some s ∧
    periods (stamps default zeroGap) = [0, 5] ∧ s.minPeriodMs = 5 ∧
    ¬StatisticsRight zeroGap vm := by
  have horder : InOrder zeroGap := by unfold InOrder; decide
  have hrun : ∃ vm, (ViewModel.create none {} : ViewModel ℚ).ingestAll zeroGap = some vm ∧
      Tallied zeroGap vm := (tallied_nil rfl rfl).ingestAll horder
  obtain ⟨vm, hrun, htally⟩ := hrun
  have htwo : 2 ≤ (stamps default zeroGap).length := by decide
  have hperiods : periods (stamps default zeroGap) = [0, 5] := by decide +kernel
  obtain ⟨s, hs, hmeasures⟩ := htally.row htwo
  refine ⟨vm, s, horder, hrun, hs, hperiods, ?_, fun hright => ?_⟩
  · rw [hmeasures.min]
    decide +kernel
  · obtain ⟨s', hs', hrow⟩ := hright.1 default htwo
    obtain rfl := Option.some_inj.1 (hs.symm.trans hs')
    have hzero := (hmeasures.right_iff htwo).1 hrow
    rw [hperiods] at hzero
    exact absurd (hzero (by simp)) (by decide)

end Tui
end Canforge
