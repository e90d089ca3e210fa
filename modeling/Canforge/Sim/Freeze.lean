/-
# Frozen signals

A freeze fault captures the value of its signal in the first frame it passes and puts that value
into every later one.  The captures are kept by numeric identifier and signal, for all faults of an
injector, and outlive a deactivation.  So what a frame carries is the value of the first one since
the activation, when nothing was captured under its name before that one came, no other fault
changed it, and its value survives being encoded again (`freeze_holds`).
-/

import Canforge.Sim.Checksum
import Canforge.Sim.Restart

namespace Canforge

namespace Core

open Scalar

variable {R : Type} [Scalar R]

/-- The codec neither refuses nor rounds nor clamps the value. -/
def Signal.Survives (s : Signal R) (v : R) : Prop :=
  (isFinite v = true ∨ s.layout.valueType ≠ .integer) ∧
    s.layout.rawToPhysical (s.layout.physicalToRaw v &&& bitMask s.layout.bitLength) = v

instance [DecidableEq R] (s : Signal R) (v : R) : Decidable (s.Survives v) :=
  inferInstanceAs (Decidable (_ ∧ _))

/-- Such a value is decoded again after it was encoded into a frame. -/
theorem Signal.Survives.decode {s : Signal R} {v : R} (h : s.Survives v) {f g : Frame}
    {status : Result Unit} (hfd : f.isFd = false) (hfits : s.layout.fits f.size)
    (hencode : s.encode f v = some (status, g)) : s.decode g = some v := by
  obtain ⟨hfinite, hback⟩ := h
  have hdata := Signal.fits_data hfd hfits
  obtain ⟨d, hd, hlength, -⟩ := SignalLayout.encodeRaw_spec hdata (s.layout.physicalToRaw v)
  have haccepted : ¬(!isFinite v && decide (s.layout.valueType = .integer)) = true := by
    obtain hv | hv := hfinite
    · simp [hv]
    · simp [hv]
  rw [Signal.encode, if_pos hfits, ScaledLayout.encode, if_neg haccepted, hd] at hencode
  cases hencode
  rw [Signal.decode, BasicFrame.setData_data (hlength.trans f.data_length), ScaledLayout.decode,
    SignalLayout.decodeRaw_encodeRaw hdata hd, Option.map_some, hback]

end Core

namespace Sim

open Canforge.Core IsoTp Lib

variable {G R : Type} [Scalar R] [Engine G R]

namespace FaultInjector

variable {inj inj' : FaultInjector G R} {f : Fault R} {message : Option (Message R)} {id id' : CanId}
  {p p' : Passage G R} {node signal : Text} {frame : Frame} {now : ℕ} {db : Database R} {v : R}

/-! ### Captures -/

omit [Scalar R] [Engine G R] in
theorem frozenValue_congr (h : inj'.frozen = inj.frozen) (id : BitVec 32) (signal : Text) :
    inj'.frozenValue id signal = inj.frozenValue id signal := by
  rw [frozenValue, frozenValue, h]

omit [Scalar R] [Engine G R] in
/-- **A capture is found again**, and the others as before. -/
theorem frozenValue_capture (a b : BitVec 32) (s t : Text) (v : R) (frozen : List (FrozenValue R)) :
    ({ inj with frozen := capture a s v frozen }).frozenValue b t =
      if a = b ∧ s = t then some v else ({ inj with frozen }).frozenValue b t := by
  unfold frozenValue
  dsimp only
  induction frozen with
  | nil =>
    rw [capture]
    by_cases h : a = b ∧ s = t
    · simp [h]
    · have hne : (decide (a = b) && s == t) = false := by
        simpa using h
      simp [hne, h]
  | cons w rest ih =>
    rw [capture]
    by_cases hw : w.id = a ∧ w.signal = s
    · rw [if_pos hw, List.find?_cons, List.find?_cons]
      dsimp only
      rw [hw.1, hw.2]
      by_cases h : a = b ∧ s = t
      · simp [h]
      · have hne : (decide (a = b) && s == t) = false := by
          simpa using h
        simp [hne, h]
    · rw [if_neg hw, List.find?_cons, List.find?_cons]
      by_cases hfound : (decide (w.id = b) && w.signal == t) = true
      · have hother : ¬(a = b ∧ s = t) := by
          rintro ⟨rfl, rfl⟩
          exact hw (by simpa using hfound)
        rw [hfound, if_neg hother]
      · rw [Bool.not_eq_true] at hfound
        rw [hfound]
        exact ih

omit [Engine G R] in
/-- **What a freeze fault does to a frame its signal fits.** -/
theorem freeze_spec {s : Signal R} (hs : message.bind (·.findSignal f.signal) = some s)
    (hfits : s.layout.fits p.working.size) (h : freeze f message id p = some p') :
    ∃ v status, (p.injector.frozenValue id.value f.signal = some v ∨
        p.injector.frozenValue id.value f.signal = none ∧ s.decode p.working = some v) ∧
      s.encode p.working v = some (status, p'.working) ∧
      p'.injector.frozenValue id.value f.signal = some v := by
  unfold freeze at h
  rw [hs] at h
  dsimp only at h
  rw [if_pos hfits] at h
  split at h
  · rename_i v hv
    obtain ⟨⟨status, working⟩, hencode, hdone⟩ := Option.bind_eq_some_iff.1 h
    cases hdone
    exact ⟨v, status, .inl hv, hencode, hv⟩
  · rename_i hv
    obtain ⟨v, hdecode, h⟩ := Option.bind_eq_some_iff.1 h
    obtain ⟨⟨status, working⟩, hencode, hdone⟩ := Option.bind_eq_some_iff.1 h
    cases hdone
    exact ⟨v, status, .inr ⟨hv, hdecode⟩, hencode,
      (frozenValue_capture _ _ _ _ _ _).trans (if_pos ⟨rfl, rfl⟩)⟩

omit [Engine G R] in
/-- A capture is never replaced. -/
theorem freeze_captured {a : BitVec 32} (h : freeze f message id p = some p')
    (hv : p.injector.frozenValue a signal = some v) :
    p'.injector.frozenValue a signal = some v := by
  unfold freeze at h
  split at h
  · cases h
    exact hv
  split_ifs at h
  · split at h
    · obtain ⟨_, -, h⟩ := Option.bind_eq_some_iff.1 h
      cases h
      exact hv
    · rename_i hnone
      obtain ⟨_, -, h⟩ := Option.bind_eq_some_iff.1 h
      obtain ⟨_, -, h⟩ := Option.bind_eq_some_iff.1 h
      cases h
      refine (frozenValue_capture _ _ _ _ _ _).trans ?_
      by_cases hslot : id.value = a ∧ f.signal = signal
      · obtain ⟨rfl, rfl⟩ := hslot
        rw [hnone] at hv
        cases hv
      · rw [if_neg hslot]
        exact hv
  · cases h
    exact hv

omit [Engine G R] in
theorem forceOutOfRange_frozen (h : forceOutOfRange f message p = some p') :
    p'.injector.frozen = p.injector.frozen := by
  unfold forceOutOfRange at h
  split at h
  · cases h
    rfl
  split_ifs at h
  · obtain ⟨_, -, h⟩ := Option.bind_eq_some_iff.1 h
    split at h
    · cases h
      rfl
    · cases h
      rfl
  · cases h
    rfl

theorem bitFlip_frozen (h : bitFlip f p = some p') :
    p'.injector.frozen = p.injector.frozen := by
  unfold bitFlip at h
  dsimp only at h
  split_ifs at h
  · obtain ⟨_, -, h⟩ := Option.bind_eq_some_iff.1 h
    cases h
    rfl
  · cases h
    rfl

/-- **Nor by any fault.** -/
theorem pass_captured {a : BitVec 32} {x : Passage G R ⊕ FaultInjector G R}
    (h : pass f message id p = some x) (hv : p.injector.frozenValue a signal = some v) :
    (x.elim (·.injector) fun inj => inj).frozenValue a signal = some v := by
  unfold pass at h
  split at h
  · cases h
    exact hv
  · dsimp only at h
    split_ifs at h
    · cases h
      exact hv
    · cases h
      exact hv
  · cases h
    exact hv
  · obtain ⟨p', hp, rfl⟩ := Option.map_eq_some_iff.1 h
    exact freeze_captured hp hv
  · obtain ⟨p', hp, rfl⟩ := Option.map_eq_some_iff.1 h
    exact (frozenValue_congr (forceOutOfRange_frozen hp) _ _).trans hv
  · obtain ⟨p', hp, rfl⟩ := Option.map_eq_some_iff.1 h
    exact (frozenValue_congr (bitFlip_frozen hp) _ _).trans hv

theorem passAll_captured {a : BitVec 32} {faults : List (Fault R)} {out : Option ScheduledFrame}
    (h : passAll node message id faults p = some (out, inj'))
    (hv : p.injector.frozenValue a signal = some v) : inj'.frozenValue a signal = some v := by
  induction faults generalizing p with
  | nil =>
    cases h
    exact hv
  | cons f faults ih =>
    rw [passAll] at h
    split_ifs at h
    · obtain ⟨x, hx, h⟩ := Option.bind_eq_some_iff.1 h
      have hkept := pass_captured hx hv
      cases x with
      | inl p' => exact ih h hkept
      | inr inj =>
        cases h
        exact hkept
    · exact ih h hv

theorem process_captured {a : BitVec 32} {out : Option ScheduledFrame}
    (h : inj.process node frame now db = some (out, inj'))
    (hv : inj.frozenValue a signal = some v) : inj'.frozenValue a signal = some v := by
  unfold process at h
  split_ifs at h
  · cases h
    exact hv
  · exact passAll_captured h hv

/-! ### A fault that is alone -/

/-- The only faults a frame meets are delays. -/
theorem passAll_delays {faults : List (Fault R)} {out : Option ScheduledFrame}
    (hdelays : ∀ f ∈ faults, f.applies node id = true → f.kind = .delayMessage)
    (h : passAll node message id faults p = some (out, inj')) :
    (∃ o, out = some o ∧ o.frame = p.working) ∧ inj'.frozen = p.injector.frozen := by
  induction faults generalizing p with
  | nil =>
    cases h
    exact ⟨⟨_, rfl, rfl⟩, rfl⟩
  | cons f faults ih =>
    obtain ⟨hf, hfaults⟩ := List.forall_mem_cons.1 hdelays
    rw [passAll] at h
    split_ifs at h with happlies
    · obtain ⟨x, hx, h⟩ := Option.bind_eq_some_iff.1 h
      rw [pass, hf happlies] at hx
      cases hx
      dsimp only at h
      obtain ⟨hout, hfrozen⟩ := ih hfaults h
      exact ⟨hout, hfrozen⟩
    · exact ih hfaults h

/-- Delays apart, the fault `k` is the only one a frame of the node meets. -/
def Alone (k : ℕ) (faults : List (Fault R)) (node : Text) (id : CanId) : Prop :=
  ∀ j f, faults[j]? = some f → j ≠ k → f.applies node id = true → f.kind = .delayMessage

instance (k : ℕ) (faults : List (Fault R)) (node : Text) (id : CanId) :
    Decidable (Alone k faults node id) :=
  decidable_of_iff (∀ j (hj : j < faults.length), j ≠ k →
      faults[j].applies node id = true → faults[j].kind = .delayMessage) <| by
    constructor
    · intro h j f hf hne
      obtain ⟨hj, rfl⟩ := List.getElem?_eq_some_iff.1 hf
      exact h j hj hne
    · exact fun h j hj hne => h j _ (List.getElem?_eq_getElem hj) hne

/-- **A freeze fault that is alone** sees the frame as it was sent, and what it makes of it is what
goes on the bus. -/
theorem passAll_freeze {k : ℕ} {faults : List (Fault R)} {out : Option ScheduledFrame}
    (hf : faults[k]? = some f) (hkind : f.kind = .freezeSignal)
    (happlies : f.applies node id = true) (halone : Alone k faults node id)
    (h : passAll node message id faults p = some (out, inj')) :
    ∃ p₀ p₁ : Passage G R, p₀.working = p.working ∧ p₀.injector.frozen = p.injector.frozen ∧
      freeze f message id p₀ = some p₁ ∧ (∃ o, out = some o ∧ o.frame = p₁.working) ∧
      inj'.frozen = p₁.injector.frozen := by
  induction faults generalizing k p with
  | nil => cases hf
  | cons first faults ih =>
    rw [passAll] at h
    cases k with
    | zero =>
      cases hf
      rw [if_pos happlies] at h
      obtain ⟨x, hx, h⟩ := Option.bind_eq_some_iff.1 h
      rw [pass, hkind] at hx
      obtain ⟨p₁, hfreeze, rfl⟩ := Option.map_eq_some_iff.1 hx
      have hdelays : ∀ f ∈ faults, f.applies node id = true → f.kind = .delayMessage := by
        intro f hf
        obtain ⟨j, hj⟩ := List.mem_iff_getElem?.1 hf
        exact halone (j + 1) f hj (Nat.succ_ne_zero j)
      exact ⟨p, p₁, rfl, rfl, hfreeze, passAll_delays hdelays h⟩
    | succ k =>
      have halone' : Alone k faults node id :=
        fun j f hj hne => halone (j + 1) f hj fun heq => hne (Nat.succ.inj heq)
      split_ifs at h with hfirst
      · obtain ⟨x, hx, h⟩ := Option.bind_eq_some_iff.1 h
        rw [pass, halone 0 first rfl (Nat.succ_ne_zero k).symm hfirst] at hx
        cases hx
        dsimp only at h
        obtain ⟨p₀, p₁, hworking, hfrozen, hdone⟩ := ih hf halone' h
        exact ⟨p₀, p₁, hworking, hfrozen, hdone⟩
      · exact ih hf halone' h

end FaultInjector

/-! ### Runs of an injector -/

/-- A call of an injector. -/
inductive FaultCall
  | setActive (name : Text) (on : Bool)
  | toggle (name : Text)
  | process (node : Text) (frame : Frame) (now : ℕ)

/-- The signal a fault freezes in a frame. -/
def Fault.frozenIn (f : Fault R) (db : Database R) (frame : Frame) : Option (Signal R) :=
  ((db.findMessage frame.id).bind (·.findSignal f.signal)).filter (·.layout.fits frame.size)

namespace FaultInjector

/-- The call: what comes out and the injector after it. -/
def call (db : Database R) (inj : FaultInjector G R) :
    FaultCall → Option (Option ScheduledFrame × FaultInjector G R)
  | .setActive name on => some (none, inj.setActive name on)
  | .toggle name => some (none, inj.toggle name)
  | .process node frame now => inj.process node frame now db

/-- Whether the fault `k` is active. -/
def activeAt (inj : FaultInjector G R) (k : ℕ) : Bool := (inj.faults[k]?.map (·.active)).getD false

/-- The fault `k` with the signal it freezes in a frame of the node, if it does. -/
def freezing (db : Database R) (inj : FaultInjector G R) (k : ℕ) (node : Text) (frame : Frame) :
    Option (Fault R × Signal R) :=
  match inj.faults[k]? with
  | none => none
  | some f =>
    if f.kind = .freezeSignal ∧ f.applies node frame.id then (f.frozenIn db frame).map ((f, ·))
    else none

/-- The frames the fault `k` was applied to since it was activated last. -/
def seenAfter (db : Database R) (k : ℕ) (inj next : FaultInjector G R) (seen : List Frame) :
    FaultCall → List Frame
  | .process node frame _ =>
    if (inj.freezing db k node frame).isSome then seen ++ [frame] else seen
  | _ => if !inj.activeAt k && next.activeAt k then [] else seen

/-- `P` of every call that is made, with the frames seen before it. -/
def EachCall (db : Database R) (k : ℕ)
    (P : FaultInjector G R → List Frame → FaultCall → Option ScheduledFrame → Prop) :
    FaultInjector G R → List Frame → List FaultCall → Prop
  | _, _, [] => True
  | inj, seen, c :: calls => ∀ r ∈ inj.call db c,
      P inj seen c r.1 ∧ EachCall db k P r.2 (inj.seenAfter db k r.2 seen c) calls

instance (db : Database R) (k : ℕ)
    (P : FaultInjector G R → List Frame → FaultCall → Option ScheduledFrame → Prop)
    [∀ inj seen c out, Decidable (P inj seen c out)] :
    ∀ inj seen calls, Decidable (EachCall db k P inj seen calls)
  | _, _, [] => .isTrue trivial
  | inj, seen, c :: calls =>
    haveI (r : Option ScheduledFrame × FaultInjector G R) :
        Decidable (EachCall db k P r.2 (inj.seenAfter db k r.2 seen c) calls) :=
      instDecidableEachCall db k P r.2 (inj.seenAfter db k r.2 seen c) calls
    inferInstanceAs (Decidable (∀ r ∈ inj.call db c,
      P inj seen c r.1 ∧ EachCall db k P r.2 (inj.seenAfter db k r.2 seen c) calls))

/-- No other fault meets a frame of the node, delays apart. -/
def OnlyFault (inj : FaultInjector G R) (k : ℕ) (node : Text) (id : CanId) : Prop :=
  inj.nodeStopped node = false ∧ Alone k inj.faults node id

instance (inj : FaultInjector G R) (k : ℕ) (node : Text) (id : CanId) :
    Decidable (inj.OnlyFault k node id) :=
  inferInstanceAs (Decidable (_ ∧ _))

/-- While no other fault meets the frame, it carries the value of the first one with its
identifier. -/
def HoldsFirst (db : Database R) (k : ℕ) (inj : FaultInjector G R) (seen : List Frame) :
    FaultCall → Option ScheduledFrame → Prop
  | .process node frame _, out => ∀ fs ∈ inj.freezing db k node frame,
      inj.OnlyFault k node frame.id → ∃ o ∈ out, fs.2.decode o.frame =
        fs.2.decode ((seen.find? fun g => decide (g.id = frame.id)).getD frame)
  | _, _ => True

/-- The first frame of an identifier finds no capture under its number, meets no other fault, and
carries a value that survives being encoded. -/
def CleanStart (db : Database R) (k : ℕ) (inj : FaultInjector G R) (seen : List Frame) :
    FaultCall → Option ScheduledFrame → Prop
  | .process node frame _, _ => ∀ fs ∈ inj.freezing db k node frame,
      (∀ g ∈ seen, g.id ≠ frame.id) →
        inj.frozenValue frame.id.value fs.1.signal = none ∧ inj.OnlyFault k node frame.id ∧
          ∀ v ∈ fs.2.decode frame, fs.2.Survives v
  | _, _ => True

instance [DecidableEq R] (db : Database R) (k : ℕ) (inj : FaultInjector G R) (seen : List Frame) :
    ∀ c out, Decidable (HoldsFirst db k inj seen c out)
  | .process node frame _, out =>
    inferInstanceAs (Decidable (∀ fs ∈ inj.freezing db k node frame,
      inj.OnlyFault k node frame.id → ∃ o ∈ out, fs.2.decode o.frame =
        fs.2.decode ((seen.find? fun g => decide (g.id = frame.id)).getD frame)))
  | .setActive .., _ => .isTrue trivial
  | .toggle _, _ => .isTrue trivial

instance [DecidableEq R] (db : Database R) (k : ℕ) (inj : FaultInjector G R) (seen : List Frame) :
    ∀ c out, Decidable (CleanStart db k inj seen c out)
  | .process node frame _, _ =>
    inferInstanceAs (Decidable (∀ fs ∈ inj.freezing db k node frame,
      (∀ g ∈ seen, g.id ≠ frame.id) →
        inj.frozenValue frame.id.value fs.1.signal = none ∧ inj.OnlyFault k node frame.id ∧
          ∀ v ∈ fs.2.decode frame, fs.2.Survives v))
  | .setActive .., _ => .isTrue trivial
  | .toggle _, _ => .isTrue trivial

variable {inj inj' : FaultInjector G R} {f : Fault R} {node : Text} {frame : Frame} {now k : ℕ}
  {db : Database R} {seen : List Frame} {s : Signal R}

omit [Scalar R] [Engine G R] in
theorem freezing_eq_some (h : inj.freezing db k node frame = some (f, s)) :
    inj.faults[k]? = some f ∧ f.kind = .freezeSignal ∧ f.applies node frame.id = true ∧
      (db.findMessage frame.id).bind (·.findSignal f.signal) = some s ∧
        s.layout.fits frame.size := by
  unfold freezing at h
  split at h
  · cases h
  rename_i f' hf
  split_ifs at h with hfreeze
  obtain ⟨s', hs, hpair⟩ := Option.map_eq_some_iff.1 h
  cases hpair
  obtain ⟨hfound, hfits⟩ := Option.filter_eq_some_iff.1 hs
  exact ⟨hf, hfreeze.1, hfreeze.2, hfound, of_decide_eq_true hfits⟩

/-- The first frames since the activation are those whose values are captured. -/
def Captured (db : Database R) (k : ℕ) (inj : FaultInjector G R) (seen : List Frame) : Prop :=
  ∀ f id g, inj.faults[k]? = some f → (seen.find? fun g => decide (g.id = id)) = some g →
    ∃ s v, (db.findMessage id).bind (·.findSignal f.signal) = some s ∧ s.decode g = some v ∧
      inj.frozenValue id.value f.signal = some v ∧ s.Survives v

omit [Engine G R] in
theorem captured_nil : Captured db k inj [] := by
  intro f id g _ hg
  cases hg

/-- **What a frame carries**: the captured value, or its own, which is captured with it. -/
theorem process_freezing {out : Option ScheduledFrame}
    (h : inj.process node frame now db = some (out, inj'))
    (hfreezing : inj.freezing db k node frame = some (f, s))
    (honly : inj.OnlyFault k node frame.id) :
    ∃ v status o, (inj.frozenValue frame.id.value f.signal = some v ∨
        inj.frozenValue frame.id.value f.signal = none ∧ s.decode frame = some v) ∧
      out = some o ∧ s.encode frame v = some (status, o.frame) ∧
        inj'.frozenValue frame.id.value f.signal = some v := by
  obtain ⟨hf, hkind, happlies, hs, hfits⟩ := freezing_eq_some hfreezing
  unfold process at h
  rw [if_neg (by rw [honly.1]; exact Bool.false_ne_true)] at h
  obtain ⟨p₀, p₁, hworking, hfrozen, hfreeze, ⟨o, rfl, ho⟩, hlast⟩ :=
    passAll_freeze hf hkind happlies honly.2 h
  obtain ⟨v, status, hv, hencode, hcaptured⟩ :=
    freeze_spec hs (by rw [hworking]; exact hfits) hfreeze
  rw [frozenValue_congr hfrozen, hworking] at hv
  rw [hworking, ← ho] at hencode
  exact ⟨v, status, o, hv, rfl, hencode, (frozenValue_congr hlast _ _).trans hcaptured⟩

/-- What the fault `k` is apart from being active stays. -/
theorem call_faults {c : FaultCall} {out : Option ScheduledFrame}
    (h : inj.call db c = some (out, inj')) :
    inj'.faults.map Simulator.Fault.inactive = inj.faults.map Simulator.Fault.inactive := by
  cases c with
  | setActive name on =>
    cases h
    exact Simulator.switchFirst_inactive _ _ _
  | toggle name =>
    cases h
    exact Simulator.switchFirst_inactive _ _ _
  | process node frame now => exact congrArg (List.map Simulator.Fault.inactive) (process_spec h).faults

theorem call_captured {c : FaultCall} {out : Option ScheduledFrame} {a : BitVec 32} {signal : Text}
    {v : R} (h : inj.call db c = some (out, inj')) (hv : inj.frozenValue a signal = some v) :
    inj'.frozenValue a signal = some v := by
  cases c with
  | setActive name on =>
    cases h
    exact hv
  | toggle name =>
    cases h
    exact hv
  | process node frame now => exact process_captured h hv

/-- What was captured stays so. -/
theorem Captured.call {c : FaultCall} {out : Option ScheduledFrame}
    (h : inj.call db c = some (out, inj')) (hcaptured : Captured db k inj seen) :
    Captured db k inj' seen := by
  intro f id g hf hg
  have hstatic : inj.faults[k]?.map Simulator.Fault.inactive = some (Simulator.Fault.inactive f) := by
    rw [← List.getElem?_map, ← call_faults h, List.getElem?_map, hf, Option.map_some]
  obtain ⟨f', hf', heq⟩ := Option.map_eq_some_iff.1 hstatic
  have hsignal : f'.signal = f.signal := congrArg (·.signal) heq
  obtain ⟨s, v, hs, hdecode, hv, hsurvives⟩ := hcaptured f' id g hf' hg
  rw [hsignal] at hs hv
  exact ⟨s, v, hs, hdecode, call_captured h hv, hsurvives⟩

/-- **A clean start captures the value of the first frame.** -/
theorem Captured.step {c : FaultCall} {out : Option ScheduledFrame}
    (h : inj.call db c = some (out, inj')) (hcaptured : Captured db k inj seen)
    (hclean : CleanStart db k inj seen c out) :
    Captured db k inj' (inj.seenAfter db k inj' seen c) := by
  have hkept := hcaptured.call h
  cases c with
  | setActive name on =>
    unfold seenAfter
    split_ifs
    · exact captured_nil
    · exact hkept
  | toggle name =>
    unfold seenAfter
    split_ifs
    · exact captured_nil
    · exact hkept
  | process node frame now =>
    unfold seenAfter
    dsimp only
    cases hfreezing : inj.freezing db k node frame with
    | none =>
      rw [if_neg (by simp)]
      exact hkept
    | some fs =>
      obtain ⟨f, s⟩ := fs
      rw [if_pos (by rfl)]
      intro f' id g hf' hg
      rw [List.find?_append] at hg
      cases hfirst : seen.find? fun g => decide (g.id = id) with
      | some g' =>
        rw [hfirst] at hg
        cases hg
        exact hkept f' id g hf' hfirst
      | none =>
        rw [hfirst, Option.none_or] at hg
        obtain rfl : g = frame := List.mem_singleton.1 (List.mem_of_find?_eq_some hg)
        obtain rfl : g.id = id := of_decide_eq_true (List.find?_some hg :)
        obtain ⟨hf, -, -, hs, -⟩ := freezing_eq_some hfreezing
        have hsame : f' = f := by
          have hfaults : inj'.faults = inj.faults := (process_spec h).faults
          rw [hfaults, hf] at hf'
          exact (Option.some.inj hf').symm
        have hnew : ∀ x ∈ seen, x.id ≠ g.id := by simpa using hfirst
        obtain ⟨hnone, honly, hsurvives⟩ := hclean (f, s) hfreezing hnew
        obtain ⟨v, status, o, hv, -, -, hdone⟩ := process_freezing h hfreezing honly
        obtain hv | ⟨-, hv⟩ := hv
        · rw [hnone] at hv
          cases hv
        · rw [hsame]
          exact ⟨s, v, hs, hv, hdone, hsurvives v hv⟩

/-- **What is captured is carried.** -/
theorem Captured.holds {c : FaultCall} {out : Option ScheduledFrame}
    (h : inj.call db c = some (out, inj')) (hcaptured : Captured db k inj seen)
    (hclean : CleanStart db k inj seen c out)
    (hclassic : ∀ node frame now, c = .process node frame now → frame.isFd = false) :
    HoldsFirst db k inj seen c out := by
  cases c with
  | setActive name on => trivial
  | toggle name => trivial
  | process node frame now =>
    rintro ⟨f, s⟩ hfreezing honly
    obtain ⟨hf, -, -, hs, hfits⟩ := freezing_eq_some hfreezing
    obtain ⟨v, status, o, hv, rfl, hencode, -⟩ := process_freezing h hfreezing honly
    refine ⟨o, rfl, ?_⟩
    have hfd := hclassic node frame now rfl
    cases hfirst : seen.find? fun g => decide (g.id = frame.id) with
    | some g =>
      obtain ⟨s', v', hs', hdecode, hv', hsurvives⟩ := hcaptured f frame.id g hf hfirst
      obtain rfl := Option.some.inj (hs.symm.trans hs')
      rw [hv'] at hv
      obtain hv | ⟨hv, -⟩ := hv
      · obtain rfl := Option.some.inj hv
        rw [Option.getD_some, hdecode]
        exact hsurvives.decode hfd hfits hencode
      · cases hv
    | none =>
      have hnew : ∀ g ∈ seen, g.id ≠ frame.id := by simpa using hfirst
      obtain ⟨hnone, -, hsurvives⟩ := hclean (f, s) hfreezing hnew
      obtain hv | ⟨-, hv⟩ := hv
      · rw [hnone] at hv
        cases hv
      · rw [Option.getD_none, hv]
        exact (hsurvives v hv).decode hfd hfits hencode

theorem holdsFirst_of_captured {calls : List FaultCall}
    (hclassic : ∀ node frame now, .process node frame now ∈ calls → frame.isFd = false)
    (hcaptured : Captured db k inj seen) (h : EachCall db k (CleanStart db k) inj seen calls) :
    EachCall db k (HoldsFirst db k) inj seen calls := by
  induction calls generalizing inj seen with
  | nil => trivial
  | cons c calls ih =>
    intro r hcall
    obtain ⟨hclean, hrest⟩ := h r hcall
    refine ⟨hcaptured.holds hcall hclean ?_, ih ?_ (hcaptured.step hcall hclean) hrest⟩
    · rintro node frame now rfl
      exact hclassic node frame now List.mem_cons_self
    · exact fun node frame now hc => hclassic node frame now (List.mem_cons_of_mem c hc)

/-- **A frozen signal holds the value it had first**: in every run of an injector in which the
first frame of each identifier since the activation starts clean, every frame that meets no other
fault carries the value of that first one. -/
theorem freeze_holds {calls : List FaultCall}
    (hclassic : ∀ node frame now, .process node frame now ∈ calls → frame.isFd = false)
    (h : EachCall db k (CleanStart db k) inj [] calls) :
    EachCall db k (HoldsFirst db k) inj [] calls :=
  holdsFirst_of_captured hclassic captured_nil h

/-- A message of one byte, all of it a level. -/
def levelDatabase : Database ℚ :=
  { messages := [{ name := ascii "Status", id := ⟨0x123, CanId.inRange_standard⟩, dlc := 1
                   signals := [{ name := ascii "Level", layout := plainLayout 0 8 }] }] }

/-- Its frame with some level. -/
def levelFrame (level : Byte) : Frame :=
  { id := ⟨0x123, CanId.inRange_standard⟩, dlc := 1, data := BasicFrame.store 8 [level]
    data_length := BasicFrame.store_length 8 [level] }

/-- An injector with a fault that freezes the level. -/
def levelInjector : FaultInjector ℕ ℚ :=
  (create ℚ).add { kind := .freezeSignal, name := ascii "stuck", signal := ascii "Level", value := 0,
                   probability := 0 }

theorem freeze_holds_level :
    EachCall levelDatabase 0 (HoldsFirst levelDatabase 0) levelInjector []
      [.process [] (levelFrame 3) 0, .setActive (ascii "stuck") true,
        .process [] (levelFrame 5) 10, .process [] (levelFrame 7) 20, .toggle (ascii "stuck"),
        .process [] (levelFrame 9) 30] := by
  refine freeze_holds (fun node frame now hc => ?_) (by decide +kernel)
  simp only [List.mem_cons, FaultCall.process.injEq, reduceCtorEq, List.not_mem_nil, false_or,
    or_false] at hc
  obtain ⟨-, rfl, -⟩ | ⟨-, rfl, -⟩ | ⟨-, rfl, -⟩ | ⟨-, rfl, -⟩ := hc <;> rfl

/-- A fault that is activated again holds the level of its first activation. -/
theorem stale_capture :
    ¬EachCall levelDatabase 0 (HoldsFirst levelDatabase 0) levelInjector []
      [.setActive (ascii "stuck") true, .process [] (levelFrame 5) 10,
        .setActive (ascii "stuck") false, .setActive (ascii "stuck") true,
        .process [] (levelFrame 7) 20] := by
  decide +kernel

end FaultInjector

end Sim
end Canforge
