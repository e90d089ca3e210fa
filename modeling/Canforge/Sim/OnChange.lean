/-
# Messages that are sent on a change

At each due time `build` makes a frame from the bound signals, and puts the counter and the
checksum in; `step` sends it unless it equals the last one that was sent.  The bound signals decide
what the frame is before the counter goes in (`boundFrame_eq`), so a message is silent at a due time
whose bound signals are as they were at the one before, provided that the counter does not show in
the frame (`onChange_silent`).  A counter that does makes every frame differ from the last.
-/

import Canforge.Sim.Checksum
import Canforge.Sim.Schedule

namespace Canforge

namespace Core

variable {capacity : ℕ} {a b c : BasicFrame capacity}

theorem BasicFrame.Same.refl (a : BasicFrame capacity) : a.Same a := ⟨rfl, rfl, rfl, rfl⟩

theorem BasicFrame.Same.trans (hab : a.Same b) (hbc : b.Same c) : a.Same c := by
  obtain ⟨hid, hdlc, hflags, hdata⟩ := hab
  obtain ⟨hid', hdlc', hflags', hdata'⟩ := hbc
  have hsize : a.size = b.size := by
    unfold size isRemote isFd
    rw [hdlc, hflags]
  refine ⟨hid.trans hid', hdlc.trans hdlc', hflags.trans hflags', hdata.trans ?_⟩
  rw [hsize, hdata']

/-- What is decoded of a signal determines its bits. -/
theorem SignalLayout.bitOf_eq_of_decodeRaw {s : SignalLayout} {data data' : List Byte}
    (h : s.fits data.length) (h' : s.fits data'.length) (heq : s.decodeRaw data = s.decodeRaw data')
    {a : ℕ × ℕ} (ha : a ∈ s.run) : bitOf data a = bitOf data' a := by
  obtain ⟨w, hw, hbits⟩ := decodeRaw_spec h
  obtain ⟨w', hw', hbits'⟩ := decodeRaw_spec h'
  obtain rfl : w = w' := Option.some.inj (hw.symm.trans (heq.trans hw'))
  obtain ⟨j, hj, rfl⟩ := ha
  have hbit := hbits (s.rank j)
  rw [hbits' (s.rank j), rank_rank hj] at hbit
  simpa [rank_lt hj] using hbit.symm

end Core

namespace Sim

open Canforge.Core IsoTp Lib

variable {G R : Type} [Scalar R] [Engine G R]

/-! ### The bound signals and what is put on top -/

namespace TxMessage

variable (tx : TxMessage G R)

/-- What `build` does to the frame after the bindings. -/
def finish (counter : BitVec 32) (frame : Frame) : Option Frame :=
  (tx.encodeCounter counter frame).bind tx.encodeChecksum

/-- Two frames carry the same values of the bound signals. -/
def Unchanged (f g : Frame) : Prop :=
  ∀ name ∈ tx.bindings.map (·.signal), ∀ s, tx.message.findSignal name = some s →
    s.layout.fits tx.message.dlc → s.layout.decodeRaw f.data = s.layout.decodeRaw g.data

/-- Whatever the counter is, the frame is the same. -/
def CounterHidden : Prop :=
  ∀ (f a b : Frame) (n k : BitVec 32), f.size = tx.message.dlc → tx.finish n f = some a →
    tx.finish k f = some b → a.Same b

variable {tx}

omit [Scalar R] [Engine G R] in
/-- A message without a counter. -/
theorem counterHidden_of_none
    (h : tx.counterSignal = [] ∨ tx.message.findSignal tx.counterSignal = none) :
    tx.CounterHidden := by
  have hsame : ∀ (n : BitVec 32) (f : Frame), tx.encodeCounter n f = some f := by
    intro n f
    unfold encodeCounter
    split
    · rename_i c hc
      obtain hempty | hnone := h
      · rw [if_pos (by simp [hempty])]
      · rw [hnone] at hc
        cases hc
    · rfl
  intro f a b n k _ ha hb
  rw [finish, hsame] at ha hb
  obtain rfl : a = b := Option.some.inj (ha.symm.trans hb)
  exact .refl a

theorem encodeBindings_signals {m : Message R} {plant : Option (Vehicle R)} {now : ℕ}
    {bindings after : List (SignalBinding G R)} {f f' : Frame}
    (h : encodeBindings m plant now bindings f = some (f', after)) :
    after.map (·.signal) = bindings.map (·.signal) := by
  induction bindings generalizing f after with
  | nil =>
    cases h
    rfl
  | cons b bindings ih =>
    have hname : (b.sample plant now).2.signal = b.signal := by
      unfold SignalBinding.sample
      split <;> rfl
    rw [encodeBindings] at h
    split at h
    · obtain ⟨⟨g, after'⟩, hg, hdone⟩ := Option.bind_eq_some_iff.1 h
      cases hdone
      rw [List.map_cons, List.map_cons, ih hg]
    · dsimp only at h
      split at h
      · obtain ⟨⟨g, after'⟩, hg, hdone⟩ := Option.bind_eq_some_iff.1 h
        cases hdone
        rw [List.map_cons, List.map_cons, ih hg, hname]
      · obtain ⟨⟨status, g⟩, -, h⟩ := Option.bind_eq_some_iff.1 h
        obtain ⟨⟨g', after'⟩, hg, hdone⟩ := Option.bind_eq_some_iff.1 h
        cases hdone
        rw [List.map_cons, List.map_cons, ih hg, hname]

end TxMessage

namespace Slot

variable {slot slot' built : Slot G R} {plant : Option (Vehicle R)} {now : ℕ} {rng : G}

/-- The frame after the bindings, before the counter and the checksum. -/
def boundFrame (slot : Slot G R) (plant : Option (Vehicle R)) (now : ℕ) : Option Frame := do
  let frame ← (BasicFrame.makeEmpty 8 slot.tx.message.id slot.tx.message.dlc).toOption
  let (frame, _) ← TxMessage.encodeBindings slot.tx.message plant now slot.tx.bindings frame
  return frame

/-- Two states of one message. -/
def SameMessage (slot slot' : Slot G R) : Prop :=
  ∃ bindings, bindings.map (·.signal) = slot.tx.bindings.map (·.signal) ∧
    slot'.tx = { slot.tx with bindings }

/-- **A frame is that of its bound signals with the counter and the checksum put in.** -/
theorem build_finish {frame : Frame} (h : slot.build plant now = some (frame, built)) :
    ∃ f a, slot.boundFrame plant now = some f ∧ slot.tx.finish slot.rt.counter f = some a ∧
      frame = a.setTimestampNs now ∧ slot.SameMessage built := by
  unfold build at h
  dsimp only at h
  obtain ⟨f₀, hempty, h⟩ := Option.bind_eq_some_iff.1 h
  obtain ⟨⟨f₁, bindings⟩, hbindings, h⟩ := Option.bind_eq_some_iff.1 h
  obtain ⟨f₂, hcounter, h⟩ := Option.bind_eq_some_iff.1 h
  obtain ⟨f₃, hchecksum, hdone⟩ := Option.bind_eq_some_iff.1 h
  cases hdone
  refine ⟨f₁, f₃, ?_, ?_, rfl, bindings, TxMessage.encodeBindings_signals hbindings, rfl⟩
  · rw [boundFrame, hempty, Option.bind_eq_bind, Option.bind_some, hbindings]
    rfl
  · rw [TxMessage.finish, hcounter]
    exact hchecksum

/-- What the frame of the bound signals is made of. -/
theorem boundFrame_cells {f : Frame} (h : slot.boundFrame plant now = some f) :
    ∃ f₀ : Frame, BasicFrame.makeEmpty 8 slot.tx.message.id slot.tx.message.dlc = .ok f₀ ∧
      f = f₀.setData f.data ∧ f₀.size = slot.tx.message.dlc ∧ slot.tx.message.dlc ≤ 8 ∧
      ∀ a, (∀ name ∈ slot.tx.bindings.map (·.signal), ∀ s,
        slot.tx.message.findSignal name = some s → s.layout.fits slot.tx.message.dlc →
          a ∉ s.layout.run) → bitOf f.data a = false := by
  unfold boundFrame at h
  obtain ⟨f₁, hempty, h⟩ := Option.bind_eq_some_iff.1 h
  obtain ⟨⟨g, bindings⟩, hbindings, hdone⟩ := Option.bind_eq_some_iff.1 h
  cases hdone
  have hdlc : slot.tx.message.dlc ≤ 8 := by
    by_contra hlong
    rw [makeEmpty_long (Nat.lt_of_not_le hlong)] at hempty
    cases hempty
  obtain ⟨f₀, hmade, hsize, hzero⟩ := makeEmpty_ok slot.tx.message.id hdlc
  rw [hmade] at hempty
  obtain rfl : f₀ = f₁ := Option.some.inj hempty
  obtain ⟨⟨d, hd⟩, hbits⟩ := TxMessage.encodeBindings_frame (hsize ▸ hdlc) hbindings
  refine ⟨f₀, hmade, ?_, hsize, hdlc, fun a ha => ?_⟩
  · have hself := BasicFrame.setData_self f
    rw [hd] at hself ⊢
    exact hself.symm
  · rw [hbits a fun b hb s hs hfits => ha b.signal (List.mem_map_of_mem hb) s hs (hsize ▸ hfits)]
    exact hzero a

/-- **The bound signals decide the frame.** -/
theorem boundFrame_eq {f g : Frame} {plant' : Option (Vehicle R)} {now' : ℕ}
    (hsame : slot.SameMessage slot') (hf : slot.boundFrame plant now = some f)
    (hg : slot'.boundFrame plant' now' = some g) (h : slot.tx.Unchanged f g) : f = g := by
  obtain ⟨bindings, hnames, htx⟩ := hsame
  obtain ⟨f₀, hmade, hfdata, hsize, hdlc, hfbits⟩ := boundFrame_cells hf
  obtain ⟨g₀, hmade', hgdata, -, -, hgbits⟩ := boundFrame_cells hg
  rw [htx] at hmade' hgbits
  obtain rfl : f₀ = g₀ := Except.ok.inj (hmade.symm.trans hmade')
  have hdata : f.data = g.data := by
    refine ext_bitOf (f.data_length.trans g.data_length.symm) (funext fun a => ?_)
    by_cases hbound : ∃ name ∈ slot.tx.bindings.map (·.signal), ∃ s,
        slot.tx.message.findSignal name = some s ∧ s.layout.fits slot.tx.message.dlc ∧
          a ∈ s.layout.run
    · obtain ⟨name, hname, s, hs, hfits, ha⟩ := hbound
      have hfits8 : s.layout.fits 8 := hfits.mono hdlc
      exact SignalLayout.bitOf_eq_of_decodeRaw (f.data_length.symm ▸ hfits8)
        (g.data_length.symm ▸ hfits8) (h name hname s hs hfits) ha
    · have hfree : ∀ name ∈ slot.tx.bindings.map (·.signal), ∀ s,
          slot.tx.message.findSignal name = some s → s.layout.fits slot.tx.message.dlc →
            a ∉ s.layout.run :=
        fun name hname s hs hfits ha => hbound ⟨name, hname, s, hs, hfits, ha⟩
      rw [hfbits a hfree]
      refine (hgbits a ?_).symm
      dsimp only
      rwa [hnames]
  rw [hfdata, hgdata, hdata]

omit [Scalar R] [Engine G R] in
theorem SameMessage.trans {slot'' : Slot G R} (h : slot.SameMessage slot')
    (h' : slot'.SameMessage slot'') : slot.SameMessage slot'' := by
  obtain ⟨bindings, hnames, htx⟩ := h
  obtain ⟨bindings', hnames', htx'⟩ := h'
  rw [htx] at htx' hnames'
  exact ⟨bindings', hnames'.trans hnames, htx'⟩

omit [Scalar R] [Engine G R] in
theorem SameMessage.refl (slot : Slot G R) : slot.SameMessage slot := ⟨_, rfl, rfl⟩

/-- **A step of an on-change message**: nothing at a time at which it is not due, else a frame
unless it is the one that was sent last. -/
theorem step_onChange {sent : Option Frame} {rng' : G} (hmode : slot.tx.mode = .onChange)
    (h : slot.step plant now rng = some (sent, slot', rng')) : slot.SameMessage slot' ∧
      (now < slot.rt.nextDueNs ∧ sent = none ∧ slot'.rt = slot.rt ∨
        slot.rt.nextDueNs ≤ now ∧ ∃ f a, slot.boundFrame plant now = some f ∧
          slot.tx.finish slot.rt.counter f = some a ∧ slot'.rt.hasLast = true ∧
          a.Same slot'.rt.last ∧
          (sent = none ↔ slot.rt.hasLast = true ∧ a.Same slot.rt.last)) := by
  have hpoll : slot.poll now = (decide (slot.rt.nextDueNs ≤ now), slot) := by
    unfold poll
    rw [hmode]
  unfold Slot.step at h
  rw [hpoll] at h
  dsimp only at h
  by_cases hdue : slot.rt.nextDueNs ≤ now
  · rw [if_neg (by simp [hdue])] at h
    obtain ⟨⟨frame, built⟩, hbuild, h⟩ := Option.bind_eq_some_iff.1 h
    obtain ⟨f, a, hbound, hfinish, rfl, hsame⟩ := build_finish hbuild
    obtain ⟨bindings, rfl⟩ := build_eq hbuild
    have hframe : ∀ b : Frame, (a.setTimestampNs now).Same b ↔ a.Same b := fun b => Iff.rfl
    dsimp only at h
    rw [if_congr (and_congr_right fun _ => and_congr_right fun _ => hframe _) rfl rfl] at h
    by_cases hsilent : slot.rt.hasLast = true ∧ a.Same slot.rt.last
    · rw [if_pos ⟨hmode, hsilent⟩] at h
      cases h
      exact ⟨hsame, .inr ⟨hdue, f, a, hbound, hfinish, hsilent.1, hsilent.2,
        iff_of_true rfl hsilent⟩⟩
    · rw [if_neg (fun hall => hsilent hall.2), if_neg (by simp [hmode])] at h
      cases h
      exact ⟨hsame, .inr ⟨hdue, f, a, hbound, hfinish, rfl, .refl a,
        iff_of_false nofun hsilent⟩⟩
  · rw [if_pos (by simp [hdue])] at h
    cases h
    exact ⟨.refl slot, .inl ⟨Nat.not_le.1 hdue, rfl, rfl⟩⟩

/-- At the last due time the bound signals were those of `f`, and the frame that was sent last is
one with them. -/
def LastBound (slot : Slot G R) (f : Frame) : Prop :=
  slot.rt.hasLast = true ∧
    ∃ (built : Slot G R) (plant : Option (Vehicle R)) (now : ℕ) (n : BitVec 32) (a : Frame),
      built.SameMessage slot ∧ built.boundFrame plant now = some f ∧
        slot.tx.finish n f = some a ∧ a.Same slot.rt.last

omit [Scalar R] [Engine G R] in
theorem SameMessage.unchanged_iff (h : slot.SameMessage slot') {f g : Frame} :
    slot'.tx.Unchanged f g ↔ slot.tx.Unchanged f g := by
  obtain ⟨bindings, hnames, htx⟩ := h
  unfold TxMessage.Unchanged
  rw [htx]
  dsimp only
  rw [hnames]

omit [Scalar R] [Engine G R] in
theorem SameMessage.counterHidden (h : slot.SameMessage slot') (hhidden : slot.tx.CounterHidden) :
    slot'.tx.CounterHidden := by
  obtain ⟨bindings, -, htx⟩ := h
  rw [htx]
  exact hhidden

/-- **The same bound signals are not sent again.** -/
theorem LastBound.silent {f g a : Frame} {n : BitVec 32} (h : slot.LastBound f)
    (hhidden : slot.tx.CounterHidden) (hg : slot.boundFrame plant now = some g)
    (ha : slot.tx.finish n g = some a) (hsame : slot.tx.Unchanged f g) :
    slot.rt.hasLast = true ∧ a.Same slot.rt.last := by
  obtain ⟨hlast, built, plant', now', k, b, hmessage, hf, hb, hsent⟩ := h
  obtain rfl := boundFrame_eq hmessage hf hg (hmessage.unchanged_iff.1 hsame)
  obtain ⟨f₀, -, hdata, hsize, -⟩ := boundFrame_cells hg
  have hdlc : f.size = slot.tx.message.dlc := by
    rw [hdata]
    exact hsize
  exact ⟨hlast, (hhidden f a b n k hdlc ha hb).trans hsent⟩

end Slot

/-! ### Runs -/

namespace Ecu

/-- The frame of the bound signals of message `i` at each of its due times in a run, and whether
something was sent. -/
def checks (i : ℕ) : Ecu G R → List (Poll R) → Option (List (Frame × Bool))
  | _, [] => some []
  | ecu, poll :: polls => do
    let (sent, next) ← ecu.sends poll
    let rest ← checks i next polls
    match ecu.slots[i]? with
    | none => some rest
    | some slot =>
      if slot.rt.nextDueNs ≤ poll.now then do
        let f ← slot.boundFrame poll.plant poll.now
        return (f, (sent.getD i none).isSome) :: rest
      else some rest

variable {ecu : Ecu G R} {i : ℕ} {slot : Slot G R} {polls : List (Poll R)}
  {found : List (Frame × Bool)}

/-- One step of the checks: nothing is seen of the message before it is due, else its frame, which
is sent unless it is the last one. -/
theorem checks_cons {poll : Poll R} (hrunning : ecu.running = true)
    (hslot : ecu.slots[i]? = some slot) (hmode : slot.tx.mode = .onChange)
    (h : ecu.checks i (poll :: polls) = some found) :
    ∃ (next : Ecu G R) (slot' : Slot G R) (rest : List (Frame × Bool)),
      next.running = true ∧ next.slots[i]? = some slot' ∧ slot.SameMessage slot' ∧
        next.checks i polls = some rest ∧
        (found = rest ∧ slot'.rt = slot.rt ∨ ∃ f a sent, found = (f, sent) :: rest ∧
          slot.boundFrame poll.plant poll.now = some f ∧
          slot.tx.finish slot.rt.counter f = some a ∧ slot'.LastBound f ∧
          (sent = false ↔ slot.rt.hasLast = true ∧ a.Same slot.rt.last)) := by
  rw [checks] at h
  obtain ⟨⟨sent, next⟩, hsends, h⟩ := Option.bind_eq_some_iff.1 h
  obtain ⟨rest, hrest, h⟩ := Option.bind_eq_some_iff.1 h
  obtain ⟨hnext, g, g', frame, slot', hstep, hget, hsent⟩ := sends_get hrunning hsends hslot
  obtain ⟨hsame, hcase⟩ := Slot.step_onChange hmode hstep
  refine ⟨next, slot', rest, hnext, hget, hsame, hrest, ?_⟩
  rw [hslot] at h
  dsimp only at h
  have hframe : sent.getD i none = frame := by
    rw [List.getD_eq_getElem?_getD, hsent]
    rfl
  obtain ⟨hearly, -, hrt⟩ | ⟨hdue, f, a, hbound, hfinish, hlast, hkept, hsilent⟩ := hcase
  · rw [if_neg (Nat.not_le.2 hearly)] at h
    cases h
    exact .inl ⟨rfl, hrt⟩
  · rw [if_pos hdue, hbound, hframe] at h
    cases h
    refine .inr ⟨f, a, frame.isSome, rfl, hbound, hfinish, ?_, ?_⟩
    · obtain ⟨bindings, -, htx⟩ := id hsame
      refine ⟨hlast, slot, poll.plant, poll.now, slot.rt.counter, a, hsame, hbound, ?_, hkept⟩
      rw [htx]
      exact hfinish
    · rw [← hsilent]
      cases frame with
      | none => simp
      | some frame => simp

/-- **The checks behind a due time.** -/
theorem checks_chain {f : Frame} (hrunning : ecu.running = true)
    (hslot : ecu.slots[i]? = some slot) (hmode : slot.tx.mode = .onChange)
    (hhidden : slot.tx.CounterHidden) (hlast : slot.LastBound f)
    (h : ecu.checks i polls = some found) (b : Bool) :
    ((f, b) :: found).IsChain fun p q => slot.tx.Unchanged p.1 q.1 → q.2 = false := by
  induction polls generalizing ecu slot found f b with
  | nil =>
    cases h
    exact .singleton _
  | cons poll polls ih =>
    obtain ⟨next, slot', rest, hnext, hget, hsame, hrest, hcase⟩ :=
      checks_cons hrunning hslot hmode h
    have hmode' : slot'.tx.mode = .onChange := by
      obtain ⟨bindings, -, htx⟩ := id hsame
      rw [htx]
      exact hmode
    have hhidden' := hsame.counterHidden hhidden
    obtain ⟨rfl, hrt⟩ | ⟨g, a, sent, rfl, hbound, hfinish, hlast', hsilent⟩ := hcase
    · have hlast' : slot'.LastBound f := by
        obtain ⟨hone, built, plant, now, n, a, hmessage, hbound, hfinish, hkept⟩ := hlast
        obtain ⟨bindings, -, htx⟩ := id hsame
        refine ⟨hrt ▸ hone, built, plant, now, n, a, hmessage.trans hsame, hbound, ?_, hrt ▸ hkept⟩
        rw [htx]
        exact hfinish
      have hchain := ih hnext hget hmode' hhidden' hlast' hrest b
      simpa only [hsame.unchanged_iff] using hchain
    · have hchain := ih hnext hget hmode' hhidden' hlast' hrest sent
      simp only [hsame.unchanged_iff] at hchain
      refine List.isChain_cons_cons.2 ⟨fun hun => ?_, hchain⟩
      exact hsilent.2 (hlast.silent hhidden hbound hfinish hun)

omit [Scalar R] [Engine G R] in
/-- Behind a due time nothing is sent while nothing changes. -/
theorem silent_of_chain {U : Frame → Frame → Prop} {p : Frame × Bool}
    (h : (p :: found).IsChain fun p q => U p.1 q.1 → q.2 = false)
    (hun : (p :: found).IsChain fun p q => U p.1 q.1) : ∀ q ∈ found, q.2 = false := by
  induction found generalizing p with
  | nil => nofun
  | cons q found ih =>
    obtain ⟨hq, h⟩ := List.isChain_cons_cons.1 h
    obtain ⟨hu, hun⟩ := List.isChain_cons_cons.1 hun
    exact List.forall_mem_cons.2 ⟨hq hu, ih h hun⟩

/-- **An on-change message is silent when nothing changes**: at a due time whose bound signals are
as they were at the one before it sends nothing, and when they never change it is sent once, at the
first of its due times. -/
theorem onChange_silent (hrunning : ecu.running = true) (hslot : ecu.slots[i]? = some slot)
    (hmode : slot.tx.mode = .onChange) (hhidden : slot.tx.CounterHidden)
    (h : ecu.checks i polls = some found) :
    (found.IsChain fun p q => slot.tx.Unchanged p.1 q.1 → q.2 = false) ∧
      (slot.rt.hasLast = false → found ≠ [] →
        (found.IsChain fun p q => slot.tx.Unchanged p.1 q.1) →
          found.map (·.2) = true :: List.replicate (found.length - 1) false) := by
  induction polls generalizing ecu slot found with
  | nil =>
    cases h
    exact ⟨.nil, fun _ hne => absurd rfl hne⟩
  | cons poll polls ih =>
    obtain ⟨next, slot', rest, hnext, hget, hsame, hrest, hcase⟩ :=
      checks_cons hrunning hslot hmode h
    have hmode' : slot'.tx.mode = .onChange := by
      obtain ⟨bindings, -, htx⟩ := id hsame
      rw [htx]
      exact hmode
    have hhidden' := hsame.counterHidden hhidden
    obtain ⟨rfl, hrt⟩ | ⟨f, a, sent, rfl, -, -, hlast, hsilent⟩ := hcase
    · have hdone := ih hnext hget hmode' hhidden' hrest
      rw [hrt] at hdone
      simpa only [hsame.unchanged_iff] using hdone
    · have hchain := checks_chain hnext hget hmode' hhidden' hlast hrest sent
      simp only [hsame.unchanged_iff] at hchain
      refine ⟨hchain, fun hfresh _ hun => ?_⟩
      have hsent : sent = true := by
        rw [← Bool.not_eq_false, hsilent, hfresh]
        simp
      rw [List.map_cons, hsent, List.length_cons, Nat.add_sub_cancel]
      refine congrArg _ (List.eq_replicate_iff.2 ⟨List.length_map _, ?_⟩)
      exact List.forall_mem_map.2 (silent_of_chain hchain hun)

/-- A message with one bound signal that never changes, sent on a change. -/
def steadyMessage (counterSignal : Text) : TxMessage ℕ ℚ :=
  { message :=
      { name := ascii "Status", id := ⟨0x123, CanId.inRange_standard⟩, dlc := 1
        signals := [{ name := ascii "Level", layout := plainLayout 0 4 },
                    { name := ascii "Count", layout := plainLayout 4 4 }] }
    bindings := [{ signal := ascii "Level", source := some (.constant 9) }]
    mode := .onChange, cycleNs := 10, counterSignal }

/-- A node with one of these. -/
def steadyEcu (counterSignal : Text) : Ecu ℕ ℚ :=
  (create ℚ (ascii "ECM")).add (steadyMessage counterSignal)

theorem onChange_silent_steady :
    ∃ found : List (Frame × Bool), (steadyEcu []).checks 0 (pollsAt [0, 10, 20]) = some found ∧
      (found.IsChain fun p q => (steadyMessage []).Unchanged p.1 q.1 → q.2 = false) ∧
      ((found.IsChain fun p q => (steadyMessage []).Unchanged p.1 q.1) →
        found.map (·.2) = [true, false, false]) := by
  have hcheck : (match (steadyEcu []).checks 0 (pollsAt [0, 10, 20]) with
      | some found => decide (found.length = 3)
      | none => false) = true := by
    decide +kernel
  split at hcheck
  · rename_i found hfound
    have hlength := of_decide_eq_true hcheck
    have hslot : (steadyEcu []).slots[0]? = some { tx := steadyMessage [] } := rfl
    have hhidden : (steadyMessage []).CounterHidden :=
      TxMessage.counterHidden_of_none (.inl rfl)
    obtain ⟨hchain, honce⟩ := onChange_silent rfl hslot rfl hhidden hfound
    refine ⟨found, hfound, hchain, fun hun => ?_⟩
    rw [honce rfl (List.ne_nil_of_length_eq_add_one hlength) hun, hlength]
    rfl
  · cases hcheck

/-- With a rolling counter it is sent each time. -/
theorem counter_shows :
    ∃ found : List (Frame × Bool),
      (steadyEcu (ascii "Count")).checks 0 (pollsAt [0, 10, 20]) = some found ∧
        (found.IsChain fun p q => (steadyMessage (ascii "Count")).Unchanged p.1 q.1) ∧
        found.map (·.2) = [true, true, true] := by
  have hcheck : (match (steadyEcu (ascii "Count")).checks 0 (pollsAt [0, 10, 20]) with
      | some found => decide ((found.IsChain fun p q => p.1.data = q.1.data) ∧
          found.map (·.2) = [true, true, true])
      | none => false) = true := by
    decide +kernel
  split at hcheck
  · rename_i found hfound
    obtain ⟨hdata, hsent⟩ := of_decide_eq_true hcheck
    refine ⟨found, hfound, hdata.imp fun p q hpq => ?_, hsent⟩
    intro name _ s _ _
    rw [hpq]
  · cases hcheck

end Ecu

end Sim
end Canforge
