/-
# One frame at a time

As long as no addition to the clock wraps, the transmissions of a run occupy the
bus one after the other, and the timestamp a frame is received with is the end
of its interval (`Ledger.Timely`).  With what `Canforge.Transport.Conservation`
proves of the queues this is what the virtual bus promises (`nothing_lost`).
When the clock wraps, two intervals can overlap (`overlap_after_wrap`).
-/

import Canforge.Transport.Conservation

namespace Canforge
namespace Transport

open Canforge.Core VirtualMedium

namespace VirtualMedium

variable {m m' : VirtualMedium} {target : ℕ}

/-- The additions a call makes to the clock stay on it. -/
def Fits (m : VirtualMedium) (c : Call) : Prop :=
  (match c with
    | .advance duration => m.nowNs + duration.toNat < 2 ^ 64
    | .receive who timeout =>
      ∀ p ∈ m.find who, p.inbox = [] → m.nowNs + timeout.toNat < 2 ^ 64
    | _ => True) ∧
  ∀ m' ∈ m.step c, ∀ t ∈ m'.history, t.start + t.duration < 2 ^ 64

instance (m : VirtualMedium) : (c : Call) → Decidable (m.Fits c)
  | .attach _ => inferInstanceAs (Decidable (_ ∧ _))
  | .detach _ => inferInstanceAs (Decidable (_ ∧ _))
  | .openBus _ => inferInstanceAs (Decidable (_ ∧ _))
  | .closeBus _ => inferInstanceAs (Decidable (_ ∧ _))
  | .send _ _ => inferInstanceAs (Decidable (_ ∧ _))
  | .receive _ _ => inferInstanceAs (Decidable (_ ∧ _))
  | .advance _ => inferInstanceAs (Decidable (_ ∧ _))
  | .drain _ => inferInstanceAs (Decidable (_ ∧ _))
  | .setFilters _ _ => inferInstanceAs (Decidable (_ ∧ _))
  | .resetStatistics _ => inferInstanceAs (Decidable (_ ∧ _))
  | .setLoopback _ => inferInstanceAs (Decidable (_ ∧ _))
  | .setReceiveQueueLimit _ => inferInstanceAs (Decidable (_ ∧ _))
  | .setTransmitQueueLimit _ => inferInstanceAs (Decidable (_ ∧ _))
  | .clearArbitrationLog => inferInstanceAs (Decidable (_ ∧ _))

/-- Every transmission ends on the clock. -/
def Unwrapped (m : VirtualMedium) : Prop := ∀ t ∈ m.history, t.start + t.duration < 2 ^ 64

/-- What holds of the clock. -/
structure Clocked (m : VirtualMedium) : Prop where
  apart : m.history.Pairwise fun a b => a.start + a.duration ≤ b.start
  past : ∀ t ∈ m.completed, t.start + t.duration ≤ m.nowNs
  ahead : m.inFlight = true → m.nowNs ≤ m.busyUntilNs ∧ ∃ earlier t,
    m.history = earlier ++ [t] ∧ t.start + t.duration = m.busyUntilNs

/-- A start on a clock that does not wrap. -/
theorem Clocked.start (h : m.Unwrapped → Clocked m) (hun : m.startTransmission.1.Unwrapped) :
    Clocked m.startTransmission.1 := by
  rcases start_cases m with ⟨heq, -⟩ | ⟨hidle, w, frame, earlier, later, -, heq⟩
  · rw [heq] at hun ⊢
    exact h hun
  · rw [heq] at hun ⊢
    have hclocked := h fun t ht => hun t (List.mem_append_left _ ht)
    have hend := hun _ (List.mem_append_right _ (List.mem_singleton_self _))
    have hpast := hclocked.past
    rw [completed_of_idle hidle] at hpast
    have hbusy : (m.occupy w frame).busyUntilNs =
        m.nowNs + (frameTiming frame m.timing).nanoseconds := Nat.mod_eq_of_lt hend
    refine ⟨?_, ?_, fun _ => ⟨?_, m.history, m.record w frame, rfl, hbusy.symm⟩⟩
    · refine List.pairwise_append.2 ⟨hclocked.apart, List.pairwise_singleton _ _,
        fun t ht t' ht' => ?_⟩
      rw [List.mem_singleton.1 ht']
      exact hpast t ht
    · rw [completed_of_slot rfl (m.occupy_history w frame)]
      exact hpast
    · rw [hbusy]
      exact Nat.le_add_right _ _

/-- A move of the clock forwards, but not past the end of what is in flight. -/
theorem Clocked.setClock (h : Clocked m) {now : ℕ} (hle : m.nowNs ≤ now)
    (hbusy : m.inFlight = true → now ≤ m.busyUntilNs) : Clocked (m.setClock now) where
  apart := h.apart
  past t ht := (h.past t ht).trans hle
  ahead hfly := ⟨hbusy hfly, (h.ahead hfly).2⟩

/-- A completion at the end of the transmission. -/
theorem Clocked.complete (h : Clocked m) (hdue : m.inFlight = true → m.busyUntilNs ≤ m.nowNs) :
    Clocked m.completeTransmission := by
  cases hfly : m.inFlight with
  | false => rwa [complete_of_idle hfly]
  | true =>
    obtain ⟨-, earlier, t, hhistory, hend⟩ := h.ahead hfly
    refine ⟨by rw [complete_history]; exact h.apart, fun t' ht' => ?_, fun hf => ?_⟩
    · have hpast := h.past
      rw [completed_of_slot hfly hhistory] at hpast
      rw [completed_of_idle (complete_inFlight m), complete_history, hhistory] at ht'
      rw [complete_nowNs]
      rcases List.mem_append.1 ht' with ht' | ht'
      · exact hpast t' ht'
      · rw [List.mem_singleton.1 ht', hend]
        exact hdue hfly
    · rw [complete_inFlight] at hf
      cases hf

theorem Clocked.completeDue (h : Clocked m) : Clocked m.completeDue := by
  unfold VirtualMedium.completeDue
  split_ifs with hdue
  · exact h.complete fun _ => hdue.2
  · exact h

theorem completeDue_history (m : VirtualMedium) : m.completeDue.history = m.history := by
  unfold VirtualMedium.completeDue
  split_ifs
  · exact complete_history m
  · rfl

theorem completeDue_nowNs (m : VirtualMedium) : m.completeDue.nowNs = m.nowNs := by
  unfold VirtualMedium.completeDue
  split_ifs
  · exact complete_nowNs m
  · rfl

theorem start_nowNs (m : VirtualMedium) : m.startTransmission.1.nowNs = m.nowNs := by
  rcases start_cases m with ⟨heq, -⟩ | ⟨-, w, frame, earlier, later, -, heq⟩
  · rw [heq]
  · rw [heq]
    rfl

theorem contend_nowNs (m : VirtualMedium) : m.contend.nowNs = m.nowNs := by
  unfold contend
  split_ifs
  · exact completeDue_nowNs m
  · rw [start_nowNs, completeDue_nowNs]

theorem Clocked.contend (h : m.Unwrapped → Clocked m) (hun : m.contend.Unwrapped) :
    Clocked m.contend := by
  have hdue : m.completeDue.Unwrapped → Clocked m.completeDue := fun hun =>
    (h fun t ht => hun t (by rwa [completeDue_history])).completeDue
  unfold VirtualMedium.contend at hun ⊢
  split_ifs at hun ⊢
  · exact hdue hun
  · exact Clocked.start hdue hun

/-- **The loop of `advance` keeps the clock in order.** -/
theorem Clocked.advances (hadv : Advances target m m') (hle : m.nowNs ≤ target)
    (h : m.Unwrapped → Clocked m) (hun : m'.Unwrapped) : Clocked m' := by
  induction hadv with
  | last hround =>
    obtain ⟨hc, rfl⟩ := round_last hround
    refine (Clocked.contend h hun).setClock ((contend_nowNs _).trans_le hle) fun hfly => ?_
    exact (Nat.lt_of_not_le fun hb => hc ⟨hfly, hb⟩).le
  | again hround _ ih =>
    obtain ⟨hc, rfl⟩ := round_again hround
    refine ih hc.2 (fun hun' => ?_) hun
    have hclocked := Clocked.contend h hun'
    exact hclocked.setClock (hclocked.ahead hc.1).1 fun _ => le_rfl

theorem Clocked.advance (h : Clocked m) {duration : ℤ} (hfit : m.nowNs + duration.toNat < 2 ^ 64)
    (hun : (m.advance duration).Unwrapped) : Clocked (m.advance duration) := by
  have hadv := advance_advances m duration
  rw [clockAdd, Nat.mod_eq_of_lt hfit] at hadv
  exact Clocked.advances hadv (Nat.le_add_right _ _) (fun _ => h) hun

theorem Clocked.land (h : Clocked m) : Clocked m.land := by
  unfold VirtualMedium.land
  split_ifs with hfly
  · exact (h.setClock (h.ahead hfly).1 fun _ => le_rfl).complete fun _ => le_rfl
  · exact h

theorem land_history (m : VirtualMedium) : m.land.history = m.history := by
  unfold VirtualMedium.land
  split_ifs
  · exact complete_history _
  · rfl

theorem Clocked.land' (h : m.Unwrapped → Clocked m) (hun : m.land.Unwrapped) : Clocked m.land :=
  (h fun t ht => hun t (by rwa [land_history])).land

theorem Clocked.drainLoop (n : ℕ) (h : m.Unwrapped → Clocked m)
    (hun : (m.drainLoop n).Unwrapped) : Clocked (m.drainLoop n) := by
  induction n generalizing m with
  | zero => exact h hun
  | succ n ih =>
    have hstart := Clocked.start (Clocked.land' h)
    rw [VirtualMedium.drainLoop] at hun ⊢
    split at hun
    · next heq =>
      rw [heq] at hstart
      exact ih hstart hun
    · next heq =>
      rw [heq] at hstart
      exact hstart hun

theorem Clocked.drain (h : Clocked m) (maxFrames : ℕ) (hun : (m.drain maxFrames).1.Unwrapped) :
    Clocked (m.drain maxFrames).1 :=
  Clocked.land' (Clocked.drainLoop maxFrames fun _ => h) hun

theorem Clocked.modify (h : Clocked m) (who : ℕ) (f : VirtualBus → VirtualBus) :
    Clocked (m.modify who f) := ⟨h.apart, h.past, h.ahead⟩

theorem Clocked.send (h : Clocked m) (p : VirtualBus) (frame : FdFrame) :
    Clocked (m.send p frame).1 := by
  unfold VirtualMedium.send
  split_ifs
  · exact h
  · exact h
  · exact h.modify _ _
  · exact h.modify _ _

theorem Clocked.take (h : Clocked m) (p : VirtualBus) : Clocked (m.take p).1 := by
  unfold VirtualMedium.take
  split
  · exact h
  · exact h.modify _ _

theorem take_history (m : VirtualMedium) (p : VirtualBus) : (m.take p).1.history = m.history := by
  unfold VirtualMedium.take
  split <;> rfl

theorem Clocked.receive (h : Clocked m) {p : VirtualBus} {timeout : ℤ}
    (hfit : p.inbox = [] → m.nowNs + timeout.toNat < 2 ^ 64)
    (hun : (m.receive p timeout).1.Unwrapped) : Clocked (m.receive p timeout).1 := by
  unfold VirtualMedium.receive at hun ⊢
  split_ifs at hun ⊢ with hopen hwait
  · exact h
  · refine (h.advance (hfit hwait.1) fun t ht => hun t ?_).take _
    simp only
    rwa [take_history]
  · exact h.take _

/-- **A call whose sums stay on the clock keeps it in order.** -/
theorem Clocked.step (h : Clocked m) {c : Call} (hc : c.IsTraffic) (hfit : m.Fits c)
    (hstep : m.step c = some m') : Clocked m' := by
  have hun : m'.Unwrapped := hfit.2 m' hstep
  obtain ⟨⟨m'', reply⟩, hcall, rfl⟩ := Option.map_eq_some_iff.1 hstep
  cases c with
  | send who frame =>
    obtain ⟨p, hfind, heq⟩ := Option.map_eq_some_iff.1 hcall
    obtain ⟨rfl, rfl⟩ := Prod.mk.inj heq
    exact h.send p frame
  | receive who timeout =>
    obtain ⟨p, hfind, heq⟩ := Option.map_eq_some_iff.1 hcall
    obtain ⟨rfl, rfl⟩ := Prod.mk.inj heq
    exact h.receive (hfit.1 p hfind) hun
  | advance duration =>
    obtain ⟨rfl, rfl⟩ := Prod.mk.inj (Option.some.inj hcall)
    exact h.advance hfit.1 hun
  | drain maxFrames =>
    obtain ⟨rfl, rfl⟩ := Prod.mk.inj (Option.some.inj hcall)
    exact h.drain maxFrames hun
  | _ => exact hc.elim

end VirtualMedium

namespace Ledger

/-- The bus carries one frame at a time. -/
structure Timely (s : Ledger) : Prop where
  /-- Of two transmissions the earlier ends before the later starts. -/
  apart : (s.medium.completed ++ s.medium.onBus).Pairwise
    fun a b => a.start + a.duration ≤ b.start
  /-- The interval of a transmission is the time of its frame, and ends at the timestamp it is
  received with. -/
  ends : ∀ t ∈ s.medium.completed ++ s.medium.onBus,
    t.duration = (frameTiming t.frame s.medium.timing).nanoseconds ∧
    t.delivered.timestampNs = t.start + t.duration

variable {m₀ : VirtualMedium} {s s' : Ledger}

theorem step_medium {c : Call} (h : s.step c = some s') : s.medium.step c = some s'.medium := by
  obtain ⟨r, hcall, rfl⟩ := Option.map_eq_some_iff.1 h
  rw [VirtualMedium.step, hcall]
  rfl

/-- **The virtual bus loses, duplicates and reorders nothing**, and as long as no addition to the
clock wraps it carries one frame at a time. -/
theorem nothing_lost (h₀ : Opened m₀) :
    (∀ s, Lib.Reach Ledger.step (fun _ c => c.IsTraffic) ⟨m₀, [], []⟩ s →
      s.medium.participants.map (·.handle) = m₀.participants.map (·.handle) ∧ s.Conserved) ∧
    ∀ s, Lib.Reach Ledger.step (fun s c => c.IsTraffic ∧ s.medium.Fits c) ⟨m₀, [], []⟩ s →
      s.Timely := by
  constructor
  · intro s hs
    have haudit := hs.invariant (audited_opened h₀) fun _ _ _ h hc hstep => audited_step h hc hstep
    exact ⟨haudit.same, conserved_of_audited haudit⟩
  · intro s hs
    have hnil : Clocked m₀ ∧ m₀.Unwrapped := by
      refine ⟨⟨?_, ?_, ?_⟩, ?_⟩
      · rw [h₀.fresh]
        exact .nil
      · rw [completed_of_idle h₀.idle, h₀.fresh]
        simp
      · simp [h₀.idle]
      · rw [Unwrapped, h₀.fresh]
        simp
    have hkept : ∀ (s : Ledger) (c : Call) (s' : Ledger),
        Audited (m₀.participants.map (·.handle)) s ∧ Clocked s.medium ∧ s.medium.Unwrapped →
        c.IsTraffic ∧ s.medium.Fits c → s.step c = some s' →
        Audited (m₀.participants.map (·.handle)) s' ∧ Clocked s'.medium ∧ s'.medium.Unwrapped :=
      fun s c s' h hc hstep => ⟨audited_step h.1 hc.1 hstep,
        h.2.1.step hc.1 hc.2 (step_medium hstep), hc.2.2 _ (step_medium hstep)⟩
    obtain ⟨haudit, hclock, hun⟩ := hs.invariant ⟨audited_opened h₀, hnil⟩ hkept
    refine ⟨history_eq haudit ▸ hclock.apart, fun t ht => ?_⟩
    rw [← history_eq haudit] at ht
    exact ⟨haudit.durations t ht, Nat.mod_eq_of_lt (hun t ht)⟩

/-- Two open participants that have done nothing yet. -/
def twoOpen : VirtualMedium :=
  { participants := [⟨0, "a", [], [], [], {}, true⟩, ⟨1, "b", [], [], [], {}, true⟩], attached := 2 }

theorem twoOpen_opened : Opened twoOpen :=
  ⟨⟨by decide, by decide, by decide⟩, rfl, rfl, by decide⟩

/-- A frame of eight bytes: 270 µs. -/
def eightBytes (id : BitVec 32) (h : CanId.InRange id) : FdFrame :=
  { id := ⟨id, h⟩, dlc := 8, data := List.replicate 64 0, data_length := BasicFrame.zeros_length }

/-- Both want the bus; the second advance ends in the middle of the second frame. -/
theorem nothing_lost_two : ∃ s : Ledger, s.medium.onBus.length = 1 ∧
    of 1 s.received = [{ eightBytes 0x100 (by decide) with timestampNs := 270000 }] ∧
    s.Conserved ∧ s.Timely := by
  obtain ⟨s, hs, hbus, hreceived⟩ : ∃ s, Lib.Reach Ledger.step
      (fun s c => c.IsTraffic ∧ s.medium.Fits c) ⟨twoOpen, [], []⟩ s ∧
      s.medium.onBus.length = 1 ∧
      of 1 s.received = [{ eightBytes 0x100 (by decide) with timestampNs := 270000 }] :=
    Lib.Reach.exists_of_run [.send 1 (eightBytes 0x200 (by decide)),
      .send 0 (eightBytes 0x100 (by decide)), .advance 100000, .advance 300000,
      .receive 1 1000] (by decide +kernel)
  exact ⟨s, hbus, hreceived, ((nothing_lost twoOpen_opened).1 s (hs.mono fun _ _ h => h.1)).2,
    (nothing_lost twoOpen_opened).2 s hs⟩

/-- The clock comes round and stops inside the interval of the first frame. -/
theorem overlap_after_wrap : ∃ m₀ s, Opened m₀ ∧
    Lib.Reach Ledger.step (fun _ c => c.IsTraffic) ⟨m₀, [], []⟩ s ∧
    ∃ a ∈ s.medium.completed, ∃ b ∈ s.medium.completed, a ≠ b ∧
      a.start < b.start + b.duration ∧ b.start < a.start + a.duration := by
  let frame := eightBytes 0x100 (by decide)
  obtain ⟨s, hs, h⟩ : ∃ s, Lib.Reach Ledger.step (fun _ c => c.IsTraffic) ⟨twoOpen, [], []⟩ s ∧
      ∃ a ∈ s.medium.completed, ∃ b ∈ s.medium.completed, a ≠ b ∧
        a.start < b.start + b.duration ∧ b.start < a.start + a.duration :=
    Lib.Reach.exists_of_run [.send 0 frame, .drain 1, .advance (2 ^ 63 - 1),
      .advance (2 ^ 63 - 1), .send 0 frame, .drain 1] (by decide +kernel)
  exact ⟨twoOpen, s, twoOpen_opened, hs, h⟩

end Ledger

end Transport
end Canforge
