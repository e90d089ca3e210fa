/-
# A reset is a new build

`reset` has to put back everything that a step, a trigger or a stopped node changed.  Two facts
make that one argument.  What is put back does not depend on what happened: a source, a slot and
a node are reset to the same value before and after a step (`SignalSource.sample_reset`,
`Slot.step_reset`, `Ecu.step_reset`), so along a run the reset of the nodes never changes.  And a
new one is its own reset (`buildNodes_fresh`).

Two things are not put back and do not show: the counters of the injector, and a vehicle that no
node reads.  `forget` takes them away, and steps agree up to it (`step_forget`).
-/

import Canforge.Sim.Release

namespace Canforge
namespace Sim

open Canforge.Core IsoTp Lib

variable {G R : Type} [Scalar R] [Engine G R]

/-! ### Sources -/

namespace RandomWalk

theorem advance_reset (n : ℕ) (w : RandomWalk G R) : (advance n w).reset = w.reset := by
  induction n generalizing w with
  | zero => rfl
  | succ n ih =>
    rw [advance]
    exact ih _

theorem sample_reset (w : RandomWalk G R) (t : ℕ) : (w.sample t).2.reset = w.reset := by
  unfold sample
  refine (advance_reset _ _).trans ?_
  split_ifs <;> rfl

end RandomWalk

namespace SignalSource

mutual

/-- **Sampling does not change what a source is reset to.** -/
theorem sample_reset : ∀ (s : SignalSource G R) (t : ℕ), (s.sample t).2.reset = s.reset
  | .constant _, _ => rfl
  | .ramp .., _ => rfl
  | .sine .., _ => rfl
  | .square .., _ => rfl
  | .randomWalk walk, t => by
    simp only [sample, reset, RandomWalk.sample_reset]
  | .keyframes .., _ => rfl
  | .combine parts multiply, t => by
    simp only [sample, reset, sampleAll_reset]
  | .affine inner _ _, t => by
    simp only [sample, reset, sample_reset inner t]
  | .clamped inner _ _, t => by
    simp only [sample, reset, sample_reset inner t]

theorem sampleAll_reset (multiply : Bool) : ∀ (acc : R) (parts : List (SignalSource G R)) (t : ℕ),
    resetAll (sampleAll multiply acc parts t).2 = resetAll parts
  | _, [], _ => rfl
  | acc, part :: parts, t => by
    simp only [sampleAll, resetAll, sample_reset part t, sampleAll_reset multiply _ parts t]

end

/-- A source that is its own reset. -/
def Fresh (s : SignalSource G R) : Prop := s.reset = s

omit [Scalar R] in
theorem fresh_sum {a b : SignalSource G R} (ha : a.Fresh) (hb : b.Fresh) : (sum [a, b]).Fresh := by
  rw [Fresh, sum, reset, resetAll, resetAll, resetAll, ha, hb]

theorem fresh_scale {a : SignalSource G R} (ha : a.Fresh) (factor : R) :
    (scale a factor).Fresh := by
  rw [Fresh, scale, reset, ha]

omit [Scalar R] in
theorem fresh_clampTo {a : SignalSource G R} (ha : a.Fresh) (low high : R) :
    (clampTo a low high).Fresh := by
  rw [Fresh, clampTo, reset, ha]

end SignalSource

theorem buildRamp_fresh {start : R} {words rest : List Text} {s : SignalSource G R}
    (h : buildRamp start words = .ok (s, rest)) : s.Fresh := by
  unfold buildRamp at h
  split at h
  · cases h
  · split at h
    · cases h
    · split_ifs at h <;> cases h <;> rfl

theorem buildOne_fresh {words rest : List Text} {s : SignalSource G R}
    (h : buildOne words = .ok (s, rest)) : s.Fresh := by
  unfold buildOne at h
  split at h
  · cases h
  split_ifs at h
  · split at h
    · cases h
      rfl
    · cases h
  · split at h
    · exact buildRamp_fresh h
    · cases h
  · cases h
    rfl
  · cases h
    rfl
  · cases h
    rfl
  · dsimp only at h
    split_ifs at h
    cases h
    rfl
  · split at h
    · cases h
      rfl
    · cases h

theorem composeSource_fresh {fuel : ℕ} {words : List Text} {s result : SignalSource G R}
    (hs : s.Fresh) (h : composeSource fuel s words = .ok result) : result.Fresh := by
  induction fuel generalizing s words with
  | zero =>
    cases words <;> cases h <;> exact hs
  | succ fuel ih =>
    cases words with
    | nil =>
      cases h
      exact hs
    | cons word words =>
      unfold composeSource at h
      split_ifs at h
      · split at h
        · cases h
        · rename_i next rest hnext
          exact ih (SignalSource.fresh_sum hs (buildOne_fresh hnext)) h
      · split at h
        · exact ih (SignalSource.fresh_scale hs _) h
        · cases h
      · split at h
        · split at h
          · exact ih (SignalSource.fresh_clampTo hs _ _) h
          · cases h
        · cases h

/-- **A source that was built is new.** -/
theorem buildSource_fresh {expression : Text} {s : SignalSource G R}
    (h : buildSource expression = .ok s) : s.Fresh := by
  unfold buildSource at h
  dsimp only at h
  split at h
  · cases h
  · rename_i first rest hfirst
    exact composeSource_fresh (buildOne_fresh hfirst) h

/-! ### Nodes -/

namespace SignalBinding

theorem sample_reset (b : SignalBinding G R) (plant : Option (Vehicle R)) (now : ℕ) :
    (b.sample plant now).2.reset = b.reset := by
  obtain ⟨signal, source, field⟩ := b
  cases source with
  | none => cases plant <;> rfl
  | some source =>
    simp only [sample, reset, Option.map_some, SignalSource.sample_reset]

end SignalBinding

/-- A message with its sources reset. -/
def TxMessage.renew (tx : TxMessage G R) : TxMessage G R :=
  { tx with bindings := tx.bindings.map SignalBinding.reset }

theorem TxMessage.encodeBindings_reset {m : Message R} {plant : Option (Vehicle R)} {now : ℕ}
    {bindings after : List (SignalBinding G R)} {frame result : Frame}
    (h : encodeBindings m plant now bindings frame = some (result, after)) :
    after.map (·.reset) = bindings.map (·.reset) := by
  induction bindings generalizing frame after with
  | nil =>
    cases h
    rfl
  | cons b rest ih =>
    rw [encodeBindings] at h
    split at h
    · obtain ⟨⟨f, rest'⟩, hrest, h⟩ := Option.bind_eq_some_iff.1 h
      cases h
      rw [List.map_cons, List.map_cons, ih hrest]
    · dsimp only at h
      split at h
      · obtain ⟨⟨f, rest'⟩, hrest, h⟩ := Option.bind_eq_some_iff.1 h
        cases h
        rw [List.map_cons, List.map_cons, ih hrest, SignalBinding.sample_reset]
      · obtain ⟨⟨status, f⟩, -, h⟩ := Option.bind_eq_some_iff.1 h
        obtain ⟨⟨f', rest'⟩, hrest, h⟩ := Option.bind_eq_some_iff.1 h
        cases h
        rw [List.map_cons, List.map_cons, ih hrest, SignalBinding.sample_reset]

namespace Slot

omit [Scalar R] in
/-- Of a slot the reset keeps the message alone. -/
theorem reset_congr {a b : Slot G R} (h : a.tx.renew = b.tx.renew) (now : ℕ) :
    a.reset now = b.reset now := by
  have hrenew : a.tx.renew.phaseNs = b.tx.renew.phaseNs := congrArg TxMessage.phaseNs h
  have hphase : a.tx.phaseNs = b.tx.phaseNs := hrenew
  calc a.reset now = { tx := a.tx.renew, rt := { nextDueNs := addNs now a.tx.phaseNs.toNat } } := rfl
    _ = { tx := b.tx.renew, rt := { nextDueNs := addNs now b.tx.phaseNs.toNat } } := by
      rw [h, hphase]

omit [Scalar R] [Engine G R] in
theorem poll_tx (slot : Slot G R) (now : ℕ) : (slot.poll now).2.tx = slot.tx := by
  unfold poll
  split <;> rfl

theorem build_tx {slot built : Slot G R} {plant : Option (Vehicle R)} {now : ℕ} {frame : Frame}
    (h : slot.build plant now = some (frame, built)) :
    built.tx.renew = slot.tx.renew := by
  unfold build at h
  obtain ⟨f₀, -, h⟩ := Option.bind_eq_some_iff.1 h
  obtain ⟨⟨f₁, bindings⟩, hbindings, h⟩ := Option.bind_eq_some_iff.1 h
  obtain ⟨f₂, -, h⟩ := Option.bind_eq_some_iff.1 h
  obtain ⟨f₃, -, h⟩ := Option.bind_eq_some_iff.1 h
  cases h
  simp only [TxMessage.renew, TxMessage.encodeBindings_reset hbindings]

/-- **A step does not change what a slot is reset to.** -/
theorem step_reset {slot next : Slot G R} {plant : Option (Vehicle R)} {now : ℕ} {rng rng' : G}
    {sent : Option Frame} (h : slot.step plant now rng = some (sent, next, rng')) (at_ : ℕ) :
    next.reset at_ = slot.reset at_ := by
  have hpoll := poll_tx slot now
  unfold step at h
  dsimp only at h
  split_ifs at h
  · cases h
    exact reset_congr (by rw [hpoll]) at_
  · obtain ⟨⟨frame, built⟩, hbuild, h⟩ := Option.bind_eq_some_iff.1 h
    have htx := (build_tx hbuild).trans (by rw [hpoll])
    dsimp only at h
    split_ifs at h <;> cases h <;> exact reset_congr htx at_

end Slot

namespace Ecu

theorem stepSlots_reset {plant : Option (Vehicle R)} {now : ℕ} {slots slots' : List (Slot G R)}
    {rng rng' : G} {frames : List Frame}
    (h : stepSlots plant now slots rng = some (frames, slots', rng')) (at_ : ℕ) :
    slots'.map (·.reset at_) = slots.map (·.reset at_) := by
  induction slots generalizing slots' rng frames with
  | nil =>
    cases h
    rfl
  | cons slot rest ih =>
    rw [stepSlots] at h
    obtain ⟨⟨sent, next, rng₁⟩, hone, h⟩ := Option.bind_eq_some_iff.1 h
    obtain ⟨⟨more, rest', rng₂⟩, hrest, h⟩ := Option.bind_eq_some_iff.1 h
    cases h
    rw [List.map_cons, List.map_cons, ih hrest, Slot.step_reset hone]

/-- A reset as the simulator does it. -/
def renew (ecu : Ecu G R) : Ecu G R := (ecu.reset 0).setRunning true

omit [Scalar R] in
theorem renew_congr {a b : Ecu G R} (hname : a.name = b.name)
    (hslots : a.slots.map (·.reset 0) = b.slots.map (·.reset 0)) : a.renew = b.renew := by
  rw [renew, renew, reset, reset, hname, hslots]
  rfl

/-- **Nor does a step of the node, a trigger or a stop.** -/
theorem step_renew {ecu next : Ecu G R} {plant : Option (Vehicle R)} {now : ℕ}
    {frames : List Frame} (h : ecu.step now plant = some (frames, next)) :
    next.renew = ecu.renew := by
  unfold step at h
  split_ifs at h
  · cases h
    rfl
  · obtain ⟨⟨fs, slots, rng⟩, hslots, h⟩ := Option.bind_eq_some_iff.1 h
    cases h
    exact renew_congr rfl (stepSlots_reset hslots 0)

omit [Scalar R] in
theorem triggerFirst_reset (name : Text) (slots : List (Slot G R)) (at_ : ℕ) :
    (triggerFirst name slots).map (·.reset at_) = slots.map (·.reset at_) := by
  induction slots with
  | nil => rfl
  | cons slot rest ih =>
    rw [triggerFirst]
    split_ifs
    · rfl
    · rw [List.map_cons, List.map_cons, ih]

omit [Scalar R] in
theorem trigger_renew (ecu : Ecu G R) (message : Text) :
    (ecu.trigger message).renew = ecu.renew :=
  renew_congr rfl (triggerFirst_reset message ecu.slots 0)

omit [Scalar R] in
theorem setRunning_renew (ecu : Ecu G R) (on : Bool) : (ecu.setRunning on).renew = ecu.renew :=
  rfl

end Ecu

/-! ### What a build makes -/

theorem buildBinding_fresh {binding : Binding} {bound : SignalBinding G R}
    (h : buildBinding binding = .ok bound) : bound.reset = bound := by
  unfold buildBinding at h
  split_ifs at h
  · cases h
    rfl
  · split at h
    · cases h
    rename_i source hsource
    cases h
    rw [SignalBinding.reset, Option.map_some, buildSource_fresh hsource]

theorem buildBindings_fresh {message : Message R} {specs : List Binding}
    {bindings : List (SignalBinding G R)} (h : buildBindings message specs = .ok bindings) :
    bindings.map (·.reset) = bindings := by
  induction specs generalizing bindings with
  | nil =>
    cases h
    rfl
  | cons spec rest ih =>
    rw [buildBindings] at h
    split_ifs at h
    split at h
    · cases h
    rename_i bound hbound
    split at h
    · cases h
    rename_i more hmore
    cases h
    rw [List.map_cons, buildBinding_fresh hbound, ih hmore]

/-- A new slot is its own reset. -/
theorem buildTx_fresh {db : Database R} {spec : TxSpec} {tx : TxMessage G R}
    (h : buildTx db spec = .ok tx) :
    ({ tx, rt := { nextDueNs := tx.phaseNs.toNat } } : Slot G R).reset 0 =
      { tx, rt := { nextDueNs := tx.phaseNs.toNat } } := by
  have hphase : addNs 0 tx.phaseNs.toNat = tx.phaseNs.toNat := by
    rw [addNs, Nat.zero_add, Nat.mod_eq_of_lt tx.phaseNs.isLt]
  unfold buildTx at h
  split at h
  · cases h
  split_ifs at h
  split at h
  · cases h
  rename_i bindings hbindings
  cases h
  rw [Slot.reset, hphase]
  simp only [buildBindings_fresh hbindings]

theorem buildTransmits_fresh {db : Database R} {specs : List TxSpec} {ecu built : Ecu G R}
    (hecu : ecu.renew = ecu) (h : buildTransmits db specs ecu = .ok built) :
    built.renew = built := by
  induction specs generalizing ecu with
  | nil =>
    cases h
    exact hecu
  | cons spec rest ih =>
    rw [buildTransmits] at h
    split at h
    · cases h
    rename_i tx htx
    refine ih ?_ h
    have hslots : ecu.slots.map (·.reset 0) = ecu.slots := congrArg Ecu.slots hecu
    have hrng : Engine.seed R kJitterSeed = ecu.rng := congrArg Ecu.rng hecu
    have hrunning : true = ecu.running := congrArg Ecu.running hecu
    rw [Ecu.renew, Ecu.reset, Ecu.add, Ecu.setRunning]
    simp only [List.map_append, List.map_cons, List.map_nil, hslots, hrng, ← hrunning,
      buildTx_fresh htx]

/-- **New nodes are their own reset.** -/
theorem buildNodes_fresh {db : Database R} {specs : List NodeSpec} {nodes : List (Ecu G R)}
    (h : buildNodes db specs = .ok nodes) : nodes.map (·.renew) = nodes := by
  induction specs generalizing nodes with
  | nil =>
    cases h
    rfl
  | cons spec rest ih =>
    rw [buildNodes] at h
    split at h
    · cases h
    rename_i ecu hecu
    split at h
    · cases h
    rename_i more hmore
    cases h
    rw [List.map_cons, ih hmore, buildTransmits_fresh rfl hecu]

/-! ### What does not show -/

/-- Two computations that agree up to what `f` and then `g` keep. -/
theorem bind_agree {α β γ δ : Type} {f : α → γ} {g : β → δ} {x y : Option α}
    {k l : α → Option β} (h : x.map f = y.map f)
    (hkl : ∀ a b, f a = f b → (k a).map g = (l b).map g) : (x.bind k).map g = (y.bind l).map g := by
  cases x with
  | none =>
    cases y with
    | none => rfl
    | some b => cases h
  | some a =>
    cases y with
    | none => cases h
    | some b => exact hkl a b (Option.some.inj h)

namespace FaultInjector

/-- Without the counters. -/
def forget (inj : FaultInjector G R) : FaultInjector G R :=
  { inj with dropped := 0, delayed := 0, corrupted := 0 }

end FaultInjector

/-- The same of a frame on its way. -/
def Passage.forget (p : Passage G R) : Passage G R := { p with injector := p.injector.forget }

namespace FaultInjector

variable (f : Fault R) (message : Option (Message R)) (id : CanId) (p : Passage G R)

omit [Engine G R] in
theorem freeze_forget : (freeze f message id p.forget).map Passage.forget =
    (freeze f message id p).map Passage.forget := by
  unfold freeze
  cases message.bind (·.findSignal f.signal) with
  | none => rfl
  | some s =>
    dsimp only
    by_cases hfits : s.layout.fits p.working.size
    · rw [if_pos hfits, if_pos (show s.layout.fits p.forget.working.size from hfits)]
      have hvalue : p.forget.injector.frozenValue id.value f.signal =
          p.injector.frozenValue id.value f.signal := rfl
      have hworking : p.forget.working = p.working := rfl
      rw [hvalue, hworking]
      cases p.injector.frozenValue id.value f.signal with
      | some value =>
        dsimp only
        cases s.encode p.working value <;> rfl
      | none =>
        dsimp only
        cases s.decode p.working with
        | none => rfl
        | some value =>
          dsimp only [bind, Option.bind]
          cases s.encode p.working value <;> rfl
    · rw [if_neg hfits, if_neg (show ¬s.layout.fits p.forget.working.size from hfits)]
      rfl

omit [Engine G R] in
theorem forceOutOfRange_forget : (forceOutOfRange f message p.forget).map Passage.forget =
    (forceOutOfRange f message p).map Passage.forget := by
  unfold forceOutOfRange
  cases message.bind (·.findSignal f.signal) with
  | none => rfl
  | some s =>
    dsimp only
    by_cases hfits : s.layout.fits p.working.size
    · rw [if_pos hfits, if_pos (show s.layout.fits p.forget.working.size from hfits)]
      have hworking : p.forget.working = p.working := rfl
      rw [hworking]
      generalize ScaledLayout.encode _ f.value p.working.data = status
      cases status with
      | none => rfl
      | some status => cases status <;> rfl
    · rw [if_neg hfits, if_neg (show ¬s.layout.fits p.forget.working.size from hfits)]
      rfl

theorem bitFlip_forget :
    (bitFlip f p.forget).map Passage.forget = (bitFlip f p).map Passage.forget := by
  unfold bitFlip
  have hworking : p.forget.working = p.working := rfl
  have hrng : p.forget.injector.rng = p.injector.rng := rfl
  rw [hworking, hrng]
  dsimp only
  split_ifs
  · generalize flipBit p.working.data _ = flipped
    cases flipped <;> rfl
  · rfl

theorem pass_forget : (pass f message id p.forget).map (Sum.map Passage.forget forget) =
    (pass f message id p).map (Sum.map Passage.forget forget) := by
  have hinl : ∀ x y : Option (Passage G R), x.map Passage.forget = y.map Passage.forget →
      (x.map Sum.inl).map (Sum.map Passage.forget (forget (G := G) (R := R))) =
        (y.map Sum.inl).map (Sum.map Passage.forget forget) := by
    intro x y h
    have hmap := congrArg (Option.map (@Sum.inl _ (FaultInjector G R))) h
    rw [Option.map_map, Option.map_map] at hmap ⊢
    exact hmap
  unfold pass
  split
  · rfl
  · have hrng : p.forget.injector.rng = p.injector.rng := rfl
    rw [hrng]
    dsimp only
    split_ifs <;> rfl
  · rfl
  · exact hinl _ _ (freeze_forget f message id p)
  · exact hinl _ _ (forceOutOfRange_forget f message p)
  · exact hinl _ _ (bitFlip_forget f p)

/-- The result of `process`, without the counters. -/
def view (x : Option ScheduledFrame × FaultInjector G R) :
    Option ScheduledFrame × FaultInjector G R := (x.1, x.2.forget)

theorem passAll_forget (node : Text) (faults : List (Fault R)) :
    (passAll node message id faults p.forget).map view =
      (passAll node message id faults p).map view := by
  induction faults generalizing p with
  | nil => rfl
  | cons f faults ih =>
    rw [passAll, passAll]
    split_ifs
    · refine bind_agree (pass_forget f message id p) fun x y hxy => ?_
      cases x with
      | inl p₁ =>
        cases y with
        | inl p₂ =>
          have hforget : p₁.forget = p₂.forget := Sum.inl.inj hxy
          exact (ih p₁).symm.trans (hforget ▸ ih p₂)
        | inr i₂ => cases hxy
      | inr i₁ =>
        cases y with
        | inl p₂ => cases hxy
        | inr i₂ =>
          have hforget : i₁.forget = i₂.forget := Sum.inr.inj hxy
          exact congrArg (fun i => some (none, i)) hforget
    · exact ih p

/-- **The counters do not matter to a frame.** -/
theorem process_forget (inj : FaultInjector G R) (node : Text) (frame : Frame) (now : ℕ)
    (db : Database R) :
    (inj.forget.process node frame now db).map view = (inj.process node frame now db).map view := by
  unfold process
  have hstopped : inj.forget.nodeStopped node = inj.nodeStopped node := rfl
  rw [hstopped]
  split_ifs
  · rfl
  · exact passAll_forget _ _ ⟨frame, now, inj⟩ _ _

end FaultInjector

namespace Simulator

variable {a b : FaultInjector G R} {node : Text} {now : ℕ} {db : Database R}

theorem processAll_agree (h : a.forget = b.forget) (frames : List Frame) :
    (processAll db node now frames a).map (fun x => (x.1, x.2.forget)) =
      (processAll db node now frames b).map fun x => (x.1, x.2.forget) := by
  induction frames generalizing a b with
  | nil => exact congrArg (fun i => some ([], i)) h
  | cons frame frames ih =>
    have hone : (a.process node frame now db).map FaultInjector.view =
        (b.process node frame now db).map FaultInjector.view :=
      (a.process_forget node frame now db).symm.trans (h ▸ b.process_forget node frame now db)
    refine bind_agree hone fun x y hxy => ?_
    obtain ⟨hpassed, hfaults⟩ := Prod.mk.inj hxy
    refine bind_agree (ih hfaults) fun x' y' hxy' => ?_
    obtain ⟨houtcomes, hfaults'⟩ := Prod.mk.inj hxy'
    simp only [Option.map_some, hpassed, houtcomes, hfaults', pure]

/-- What the nodes put out, without the counters. -/
def Produced.forget (made : Produced G R) : Produced G R :=
  { made with faults := made.faults.forget }

theorem produce_agree (h : a.forget = b.forget) (plant : Option (Vehicle R))
    (ecus : List (Ecu G R)) : (produce db plant now ecus a).map Produced.forget =
      (produce db plant now ecus b).map Produced.forget := by
  induction ecus generalizing a b with
  | nil => exact congrArg (fun i => some (Produced.mk [] [] i)) h
  | cons ecu ecus ih =>
    rw [produce, produce]
    refine @bind_agree _ _ _ _ id _ _ _ _ _ rfl fun x y hxy => ?_
    obtain rfl : x = y := hxy
    refine bind_agree (processAll_agree h x.1) fun x' y' hxy' => ?_
    obtain ⟨houtcomes, hfaults⟩ := Prod.mk.inj hxy'
    refine bind_agree (ih hfaults) fun more more' hmore => ?_
    obtain ⟨outcomes, nodes, faults⟩ := more
    obtain ⟨outcomes', nodes', faults'⟩ := more'
    obtain ⟨rfl, rfl, hfaults'⟩ := Produced.mk.inj hmore
    simp only [Option.map_some, houtcomes, Produced.forget, pure]
    rw [hfaults']

/-- A simulator without the counters of its faults and without a vehicle that no node reads. -/
def forget (sim : Simulator G R) : Simulator G R :=
  { sim with
    faults := sim.faults.forget
    vehicle := if sim.config.hasPlant then sim.vehicle else {} }

section Agree

variable {s t : Simulator G R}

omit [Engine G R] in
theorem moveTo_agree (h : s.forget = t.forget) (now : ℕ) :
    (s.moveTo now).forget = (t.moveTo now).forget ∧
      (s.moveTo now).plant = (t.moveTo now).plant := by
  obtain ⟨config, db, v, nodes, a, pending, last, next, produced, started⟩ := s
  obtain ⟨config', db', v', nodes', a', pending', last', next', produced', started'⟩ := t
  obtain ⟨rfl, rfl, hv, rfl, ha, rfl, rfl, rfl, rfl, rfl⟩ := Simulator.mk.inj h
  have ha : a.forget = a'.forget := ha
  unfold moveTo applyDrive plant forget
  dsimp only at hv ⊢
  by_cases hplant : config.hasPlant
  · rw [if_pos hplant, if_pos hplant] at hv
    rw [hv, ha]
    exact ⟨rfl, rfl⟩
  · rw [if_neg hplant, if_neg hplant, if_neg hplant, if_neg hplant, ha]
    exact ⟨rfl, rfl⟩

/-- The result of a step, without what does not show. -/
def view (x : List Frame × Simulator G R) : List Frame × Simulator G R := (x.1, x.2.forget)

theorem make_agree (h : s.forget = t.forget) (now : ℕ) :
    (s.make now).map Produced.forget = (t.make now).map Produced.forget := by
  obtain ⟨hmoved, hplant⟩ := moveTo_agree h now
  have hdb := congrArg Simulator.database hmoved
  have hnodes := congrArg Simulator.nodes hmoved
  have hfaults := congrArg Simulator.faults hmoved
  simp only [forget] at hdb hnodes hfaults
  rw [make, make, hplant, hdb, hnodes]
  exact produce_agree hfaults _ _

/-- **What does not show makes no difference to a step.** -/
theorem step_forget (h : s.forget = t.forget) (now : ℕ) :
    (s.step now).map view = (t.step now).map view := by
  refine bind_agree (make_agree h now) fun made made' hmade => ?_
  obtain ⟨hmoved, -⟩ := moveTo_agree h now
  revert hmoved
  generalize s.moveTo now = s'
  generalize t.moveTo now = t'
  intro hmoved
  obtain ⟨config, db, v, nodes, a, pending, last, next, produced, started⟩ := s'
  obtain ⟨config', db', v', nodes', a', pending', last', next', produced', started'⟩ := t'
  obtain ⟨rfl, rfl, hv, rfl, ha, rfl, rfl, rfl, rfl, rfl⟩ := Simulator.mk.inj hmoved
  obtain ⟨outcomes, nodes, faults⟩ := made
  obtain ⟨outcomes', nodes', faults'⟩ := made'
  obtain ⟨rfl, rfl, hfaults⟩ := Produced.mk.inj hmade
  simp only [Option.map_some, view, forget, pure] at hv ⊢
  rw [hv, hfaults]

omit [Engine G R] in
theorem control_forget (sim : Simulator G R) (c : Control) :
    (sim.control c).forget = sim.forget.control c := by
  cases c <;> rfl

/-- Nor to a run. -/
theorem run_agree (h : s.forget = t.forget) (events : List Event) :
    (s.run events).map Prod.fst = (t.run events).map Prod.fst := by
  induction events generalizing s t with
  | nil => rfl
  | cons event events ih =>
    cases event with
    | control c =>
      refine ih ?_
      rw [control_forget, control_forget, h]
    | step now =>
      have hfaults : s.faults.faults = t.faults.faults :=
        congrArg (fun sim => sim.faults.faults) h
      rw [run, run]
      refine bind_agree (make_agree h now) fun made made' hmade => ?_
      refine bind_agree (step_forget h now) fun x y hxy => ?_
      obtain ⟨hreleased, hnext⟩ := Prod.mk.inj hxy
      refine bind_agree (ih hnext) fun z w hzw => ?_
      have hforget : made.forget.outcomes = made'.forget.outcomes :=
        congrArg Produced.outcomes hmade
      have houtcomes : made.outcomes = made'.outcomes := hforget
      simp only [Option.map_some, pure, hfaults, houtcomes, hreleased, hzw]

end Agree

/-! ### Histories -/

/-- A fault as it was configured. -/
def Fault.inactive (f : Fault R) : Fault R := { f with active := false }

/-- What a history does not change. -/
structure Descends (sim₀ sim : Simulator G R) : Prop where
  config : sim.config = sim₀.config
  database : sim.database = sim₀.database
  nodes : sim.nodes.map (·.renew) = sim₀.nodes.map (·.renew)
  faults : sim.faults.faults.map Fault.inactive = sim₀.faults.faults.map Fault.inactive
  seed : sim.faults.seed = sim₀.faults.seed

variable {sim sim₀ next last : Simulator G R} {config : SimConfig R}

theorem produce_renew {plant : Option (Vehicle R)} {ecus : List (Ecu G R)} {made : Produced G R}
    (h : produce db plant now ecus a = some made) :
    made.nodes.map (·.renew) = ecus.map (·.renew) := by
  induction ecus generalizing a made with
  | nil =>
    cases h
    rfl
  | cons ecu ecus ih =>
    rw [produce] at h
    obtain ⟨⟨frames, ecu'⟩, hone, h⟩ := Option.bind_eq_some_iff.1 h
    obtain ⟨⟨outcomes, middle⟩, -, h⟩ := Option.bind_eq_some_iff.1 h
    obtain ⟨more, hmore, h⟩ := Option.bind_eq_some_iff.1 h
    cases h
    rw [List.map_cons, List.map_cons, ih hmore, Ecu.step_renew hone]

/-- **A step changes none of it.** -/
theorem step_descends {released : List Frame} (h : sim.step now = some (released, next)) :
    Descends sim next := by
  unfold step at h
  obtain ⟨made, hmade, h⟩ := Option.bind_eq_some_iff.1 h
  have hbooks := produce_books hmade
  have hnodes := produce_renew hmade
  cases h
  constructor
  · rfl
  · rfl
  · exact hnodes
  · exact congrArg (List.map Fault.inactive) hbooks.faults
  · exact hbooks.seed

omit [Scalar R] in
theorem switchFirst_inactive (name : Text) (switch : Bool → Bool) (faults : List (Fault R)) :
    (switchFirst name switch faults).map Fault.inactive = faults.map Fault.inactive := by
  induction faults with
  | nil => rfl
  | cons f rest ih =>
    rw [switchFirst]
    split_ifs
    · rfl
    · rw [List.map_cons, List.map_cons, ih]

omit [Scalar R] in
theorem modify_renew {change : Ecu G R → Ecu G R} (h : ∀ ecu, (change ecu).renew = ecu.renew)
    (node : ℕ) (nodes : List (Ecu G R)) :
    (nodes.modify node change).map (·.renew) = nodes.map (·.renew) := by
  induction nodes generalizing node with
  | nil => cases node <;> rfl
  | cons ecu nodes ih =>
    cases node with
    | zero => simp [h]
    | succ node => simp [ih]

/-- Nor does a control. -/
theorem control_descends (sim : Simulator G R) (c : Control) : Descends sim (sim.control c) := by
  cases c with
  | setActive fault on => exact ⟨rfl, rfl, rfl, switchFirst_inactive _ _ _, rfl⟩
  | toggle fault => exact ⟨rfl, rfl, rfl, switchFirst_inactive _ _ _, rfl⟩
  | trigger node message =>
    exact ⟨rfl, rfl, modify_renew (Ecu.trigger_renew · message) node _, rfl, rfl⟩
  | setRunning node on =>
    exact ⟨rfl, rfl, modify_renew (Ecu.setRunning_renew · on) node _, rfl, rfl⟩

theorem Descends.trans (h : Descends sim₀ sim) (h' : Descends sim next) : Descends sim₀ next :=
  ⟨h'.config.trans h.config, h'.database.trans h.database, h'.nodes.trans h.nodes,
    h'.faults.trans h.faults, h'.seed.trans h.seed⟩

/-- **Nor does a run.** -/
theorem run_descends {events : List Event} {records : List (Record R)}
    (h : sim.run events = some (records, last)) : Descends sim last := by
  induction events generalizing sim records with
  | nil =>
    cases h
    constructor <;> rfl
  | cons event events ih =>
    cases event with
    | control c => exact (control_descends sim c).trans (ih h)
    | step now =>
      rw [run] at h
      obtain ⟨made, -, h⟩ := Option.bind_eq_some_iff.1 h
      obtain ⟨⟨released, next⟩, hstep, h⟩ := Option.bind_eq_some_iff.1 h
      obtain ⟨⟨more, end_⟩, hrun, h⟩ := Option.bind_eq_some_iff.1 h
      cases h
      exact (step_descends hstep).trans (ih hrun)

/-! ### The reset -/

/-- The active flags of the faults. -/
def activeFlags (sim : Simulator G R) : List Bool := sim.faults.faults.map (·.active)

/-- A simulator whose faults are switched as the flags say. -/
def withActive (sim : Simulator G R) (flags : List Bool) : Simulator G R :=
  { sim with faults := { sim.faults with
      faults := List.zipWith (fun f on => { f with active := on }) sim.faults.faults flags } }

omit [Scalar R] in
/-- What a history leaves of the faults are their flags. -/
theorem faults_of_flags {faults faults₀ : List (Fault R)}
    (h : faults.map Fault.inactive = faults₀.map Fault.inactive) :
    List.zipWith (fun f on => { f with active := on }) faults₀ (faults.map (·.active)) =
      faults := by
  induction faults generalizing faults₀ with
  | nil =>
    cases faults₀ with
    | nil => rfl
    | cons f₀ faults₀ => cases h
  | cons f faults ih =>
    cases faults₀ with
    | nil => cases h
    | cons f₀ faults₀ =>
      obtain ⟨hf, hrest⟩ := List.cons.inj h
      rw [List.map_cons, List.zipWith_cons_cons, ih hrest]
      have : { f₀ with active := f.active } = f :=
        congrArg (fun g : Fault R => { g with active := f.active }) hf.symm
      rw [this]

/-- A new simulator. -/
structure New (sim : Simulator G R) : Prop where
  pending : sim.pending = []
  nextDrive : sim.nextDrive = 0
  produced : sim.produced = 0
  lastStepNs : sim.lastStepNs = 0
  started : sim.started = false
  vehicle : sim.config.hasPlant → sim.vehicle = Vehicle.create sim.config.plant
  nodes : sim.nodes.map (·.renew) = sim.nodes
  rng : sim.faults.rng = Engine.seed R sim.faults.seed
  frozen : sim.faults.frozen = []

theorem build_new {config : SimConfig R} (h : build config db = .ok sim₀) : New sim₀ := by
  have hadd : ∀ (fs : List (Fault R)) (inj : FaultInjector G R),
      (fs.foldl FaultInjector.add inj).rng = inj.rng ∧
        (fs.foldl FaultInjector.add inj).seed = inj.seed ∧
          (fs.foldl FaultInjector.add inj).frozen = inj.frozen := by
    intro fs
    induction fs with
    | nil => exact fun _ => ⟨rfl, rfl, rfl⟩
    | cons f fs ih => exact fun inj => ih (inj.add f)
  obtain ⟨hrng, hseed, hfrozen⟩ := hadd config.faults (FaultInjector.create R)
  unfold build at h
  split at h
  · cases h
  rename_i nodes hnodes
  cases h
  constructor
  · rfl
  · rfl
  · rfl
  · rfl
  · rfl
  · intro hplant
    exact if_pos hplant
  · exact buildNodes_fresh hnodes
  · rw [hrng, hseed]
    rfl
  · exact hfrozen

/-- **After a reset a simulator is a new one with the same faults active.** -/
theorem reset_eq_build {config : SimConfig R} {history : List Event} {records : List (Record R)}
    (hbuild : build config db = .ok sim₀) (hrun : sim₀.run history = some (records, last))
    (events : List Event) :
    (last.reset.run events).map Prod.fst =
      ((sim₀.withActive last.activeFlags).run events).map Prod.fst := by
  have hnew := build_new hbuild
  have hkept := run_descends hrun
  refine run_agree ?_ events
  have hfaults : last.reset.faults.forget = (sim₀.withActive last.activeFlags).faults.forget := by
    simp only [reset, withActive, activeFlags, FaultInjector.reset, FaultInjector.forget,
      faults_of_flags hkept.faults, hkept.seed, hnew.rng, hnew.frozen]
  have hnodes : last.reset.nodes = sim₀.nodes := by
    rw [← hnew.nodes, ← hkept.nodes]
    rfl
  have hvehicle : last.reset.forget.vehicle =
      (sim₀.withActive last.activeFlags).forget.vehicle := by
    by_cases hplant : sim₀.config.hasPlant
    · have hlast : last.config.hasPlant := by rw [hkept.config]; exact hplant
      calc last.reset.forget.vehicle = last.reset.vehicle := if_pos hlast
        _ = Vehicle.create last.config.plant := if_pos hlast
        _ = Vehicle.create sim₀.config.plant := by rw [hkept.config]
        _ = sim₀.vehicle := (hnew.vehicle hplant).symm
        _ = (sim₀.withActive last.activeFlags).forget.vehicle := (if_pos hplant).symm
    · have hlast : ¬last.config.hasPlant := by rw [hkept.config]; exact hplant
      exact (if_neg hlast).trans (if_neg hplant).symm
  refine Simulator.ext hkept.config hkept.database hvehicle hnodes hfaults ?_ ?_ ?_ ?_ ?_
  · exact hnew.pending.symm
  · exact hnew.lastStepNs.symm
  · exact hnew.nextDrive.symm
  · exact hnew.produced.symm
  · exact hnew.started.symm

/-- Faults are switched and the node is stopped, and late frames are still waiting. -/
def stopped : List Event :=
  [.step 0, .control (.toggle (ascii "late")), .step 10, .control (.setRunning 0 false),
   .control (.toggle (ascii "loss")), .step 20]

theorem late_frames_again :
    ∃ (sim₀ last : Simulator ℕ ℚ) (records : List (Record ℚ)),
      build lateConfig lateDatabase = .ok sim₀ ∧ sim₀.run stopped = some (records, last) ∧
        last.pending.length = 1 ∧ last.activeFlags = [true, true] ∧
          (last.reset.run lateEvents).map Prod.fst =
            ((sim₀.withActive last.activeFlags).run lateEvents).map Prod.fst := by
  have hcheck : (match (build lateConfig lateDatabase : Result (Simulator ℕ ℚ)) with
      | .ok sim₀ =>
        match sim₀.run stopped with
        | some (_, last) =>
          decide (last.pending.length = 1 ∧ last.activeFlags = [true, true])
        | none => false
      | .error _ => false) = true := by
    decide +kernel
  split at hcheck
  · rename_i sim₀ hbuild
    split at hcheck
    · rename_i records last hrun
      obtain ⟨hpending, hflags⟩ := of_decide_eq_true hcheck
      exact ⟨sim₀, last, records, hbuild, hrun, hpending, hflags,
        reset_eq_build hbuild hrun lateEvents⟩
    · cases hcheck
  · cases hcheck

end Simulator

end Sim
end Canforge
