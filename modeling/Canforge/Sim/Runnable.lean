/-
# What can run

`build` and `step` use two operations without a check: the empty frame of a message has to
exist, and the counter is taken modulo the size of its signal.  A message of CAN FD may be
longer than the frame of the simulator, and `bit_mask` of 64 bits wraps round to zero, so
neither is promised by what `Database::validate` and `Simulator::build` accept.

`TxMessage.CanBuild` is the condition for one message (`Slot.build_some`,
`Slot.canBuild_of_build`).  Not every message is sent in some run: `Ready` is what keeps a node
from ever reaching one that cannot be built, and `runs_iff` is the condition for every run.
-/

import Canforge.Sim.Restart

namespace Canforge

namespace Core

open Scalar

variable {R : Type} [Scalar R]

/-! ### The codec inside a frame -/

/-- A classic frame has at most eight bytes of payload. -/
theorem BasicFrame.size_le {f : Frame} (h : f.isFd = false) : f.size ≤ 8 := by
  unfold size dlcToLength
  simp only [h, Bool.false_eq_true, if_false]
  split_ifs <;> omega

omit [Scalar R] in
theorem BasicFrame.setData_self (f : Frame) : f.setData f.data = f := by
  simp [setData, store, f.data_length]

theorem ScaledLayout.encode_isSome {s : ScaledLayout R} {data : List Byte} (h : s.fits data.length)
    (physical : R) : (s.encode physical data).isSome := by
  obtain ⟨d, hd, -⟩ := SignalLayout.encodeRaw_spec h (s.physicalToRaw physical)
  unfold ScaledLayout.encode
  split_ifs
  · rfl
  · rw [hd]
    rfl

theorem ScaledLayout.decode_isSome {s : ScaledLayout R} {data : List Byte}
    (h : s.fits data.length) : (s.decode data).isSome := by
  obtain ⟨w, hw, -⟩ := SignalLayout.decodeRaw_spec h
  unfold ScaledLayout.decode
  rw [hw]
  rfl

omit [Scalar R] in
/-- A signal that fits the payload of a frame fits its bytes. -/
theorem Signal.fits_data {s : Signal R} {f : Frame} (hfd : f.isFd = false)
    (h : s.layout.fits f.size) : s.layout.fits f.data.length :=
  h.mono (by rw [f.data_length]; exact BasicFrame.size_le hfd)

/-- **Encoding into a classic frame is defined**, and leaves its header alone. -/
theorem Signal.encode_some {s : Signal R} {f : Frame} (hfd : f.isFd = false) (physical : R) :
    ∃ status g, s.encode f physical = some (status, g) ∧ g.isFd = false := by
  unfold Signal.encode
  split_ifs with hfits
  · obtain ⟨status, hstatus⟩ :=
      Option.isSome_iff_exists.1 (ScaledLayout.encode_isSome (Signal.fits_data hfd hfits) physical)
    cases status with
    | ok d => exact ⟨.ok (), f.setData d, by simp [hstatus], hfd⟩
    | error e => exact ⟨.error e, f, by simp [hstatus], hfd⟩
  · exact ⟨_, f, rfl, hfd⟩

theorem Signal.decode_isSome {s : Signal R} {f : Frame} (hfd : f.isFd = false)
    (h : s.layout.fits f.size) : (s.decode f).isSome :=
  ScaledLayout.decode_isSome (Signal.fits_data hfd h)

/-- What `make_empty` makes. -/
theorem makeEmpty_some {id : CanId} {n : ℕ} (h : n ≤ 8) :
    ∃ f, (BasicFrame.makeEmpty 8 id n).toOption = some f ∧ f.isFd = false := by
  have hflags : BasicFrame.validateFlags 8 FrameFlags.none = .ok () := by decide
  have hfd : hasFlag FrameFlags.none FrameFlags.fd = false := by decide
  have hdlc : lengthToDlc n false = .ok ⟨n, n, 0⟩ := by
    unfold lengthToDlc
    rw [if_neg (by simpa using h)]
    rfl
  unfold BasicFrame.makeEmpty BasicFrame.make
  rw [hflags, List.length_replicate]
  simp only [bind, Except.bind, pure, Except.pure]
  rw [if_neg (by simp [show hasFlag FrameFlags.none FrameFlags.rtr = false by decide]),
    if_neg (by simpa using h), hfd, hdlc]
  exact ⟨_, rfl, hfd⟩

/-- And what it refuses. -/
theorem makeEmpty_long {id : CanId} {n : ℕ} (h : 8 < n) :
    (BasicFrame.makeEmpty 8 id n).toOption = none := by
  have hflags : BasicFrame.validateFlags 8 FrameFlags.none = .ok () := by decide
  unfold BasicFrame.makeEmpty BasicFrame.make
  rw [hflags, List.length_replicate]
  simp only [bind, Except.bind, pure, Except.pure]
  rw [if_neg (by simp [show hasFlag FrameFlags.none FrameFlags.rtr = false by decide]), if_pos h]
  rfl

/-- **The modulus of a counter is zero for 64 bits, and for no smaller signal.** -/
theorem bitMask_add_one {len : ℕ} (h : len ≤ 64) : bitMask len + 1 = 0 ↔ len = 64 := by
  unfold bitMask
  split_ifs with h64
  · obtain rfl : len = 64 := by omega
    simp
  · have hne : len ≠ 64 := by omega
    have hone : (1#64 <<< len).toNat = 2 ^ len := by
      rw [BitVec.toNat_shiftLeft, BitVec.toNat_one (by omega), Nat.shiftLeft_eq, Nat.one_mul,
        Nat.mod_eq_of_lt (Nat.pow_lt_pow_right (by omega) (by omega))]
    have hpos : 0 < 2 ^ len := Nat.pow_pos (by omega)
    constructor
    · intro hzero
      have hzero : 1#64 <<< len = 0 := by
        rw [← hzero]
        exact (BitVec.sub_add_cancel _ _).symm
      rw [hzero] at hone
      exact absurd hone.symm hpos.ne'
    · exact fun heq => absurd heq hne

end Core

namespace Sim

open Canforge.Core IsoTp Lib

variable {G R : Type} [Scalar R] [Engine G R]

/-! ### One message -/

/-- A message whose frames can be built. -/
structure TxMessage.CanBuild (tx : TxMessage G R) : Prop where
  dlc : tx.message.dlc ≤ 8
  counter : ∀ c, tx.message.findSignal tx.counterSignal = some c → tx.counterSignal ≠ [] →
    c.layout.bitLength ≠ 64

namespace TxMessage

variable {tx : TxMessage G R} {m : Message R}

theorem encodeBindings_some {plant : Option (Vehicle R)} {now : ℕ}
    (bindings : List (SignalBinding G R)) {f : Frame} (hfd : f.isFd = false) :
    ∃ g rest, encodeBindings m plant now bindings f = some (g, rest) ∧ g.isFd = false := by
  induction bindings generalizing f with
  | nil => exact ⟨f, [], rfl, hfd⟩
  | cons b bindings ih =>
    rw [encodeBindings]
    split
    · obtain ⟨g, rest, hrest, hg⟩ := ih hfd
      exact ⟨g, b :: rest, by rw [hrest]; rfl, hg⟩
    · rename_i signal _
      dsimp only
      split
      · obtain ⟨g, rest, hrest, hg⟩ := ih hfd
        exact ⟨g, _, by rw [hrest]; rfl, hg⟩
      · rename_i value _
        obtain ⟨status, f', hencode, hfd'⟩ := signal.encode_some hfd value
        obtain ⟨g, rest, hrest, hg⟩ := ih hfd'
        refine ⟨g, (b.sample plant now).2 :: rest, ?_, hg⟩
        rw [hencode, Option.bind_eq_bind, Option.bind_some]
        dsimp only
        rw [hrest]
        rfl

/-- A signal of a valid message fits the frame. -/
theorem fits_frame (hvalid : m.validate = .ok ()) (hdlc : m.dlc ≤ 8) {name : Text} {c : Signal R}
    (h : m.findSignal name = some c) (f : Frame) : c.layout.fits f.data.length := by
  have hfits := ScaledLayout.fits_of_validate ((Message.of_validate hvalid).2 c
    (Message.mem_of_findSignal h).1)
  exact hfits.mono (by rw [f.data_length]; exact hdlc)

omit [Engine G R] in
theorem encodeCounter_some (hvalid : tx.message.validate = .ok ()) (h : tx.CanBuild)
    (counter : BitVec 32) (f : Frame) : ∃ d, tx.encodeCounter counter f = some (f.setData d) := by
  unfold encodeCounter
  split
  · rename_i c hc
    split_ifs with hempty
    · exact ⟨f.data, congrArg some (BasicFrame.setData_self f).symm⟩
    · have hfits := fits_frame hvalid h.dlc hc f
      have hmod : bitMask c.layout.bitLength + 1 ≠ 0 := by
        rw [Ne, bitMask_add_one hfits.2.1]
        exact h.counter c hc (by simpa using hempty)
      obtain ⟨d, hd, -⟩ := SignalLayout.encodeRaw_spec hfits
        (counter.setWidth 64 % (bitMask c.layout.bitLength + 1))
      refine ⟨d, ?_⟩
      rw [umod, if_neg hmod, Option.bind_eq_bind, Option.bind_some, hd]
      rfl
  · exact ⟨f.data, congrArg some (BasicFrame.setData_self f).symm⟩

omit [Engine G R] in
theorem encodeChecksum_some (hvalid : tx.message.validate = .ok ()) (hdlc : tx.message.dlc ≤ 8)
    (f : Frame) : ∃ d, tx.encodeChecksum f = some (f.setData d) := by
  unfold encodeChecksum
  split
  · rename_i c hc
    split_ifs with hempty
    · exact ⟨f.data, congrArg some (BasicFrame.setData_self f).symm⟩
    · obtain ⟨d, hd, -⟩ := SignalLayout.encodeRaw_spec (fits_frame hvalid hdlc hc f)
        ((tx.checksumOf f (c.layout.startBit / 8)).setWidth 64)
      refine ⟨d, ?_⟩
      dsimp only
      rw [hd]
      rfl
  · exact ⟨f.data, congrArg some (BasicFrame.setData_self f).symm⟩

omit [Scalar R] [Engine G R] in
/-- **A counter of 64 bits has no value.** -/
theorem encodeCounter_none {c : Signal R} (hc : tx.message.findSignal tx.counterSignal = some c)
    (hname : tx.counterSignal ≠ []) (hlen : c.layout.bitLength = 64) (counter : BitVec 32)
    (f : Frame) : tx.encodeCounter counter f = none := by
  unfold encodeCounter
  rw [hc]
  dsimp only
  rw [if_neg (by simpa using hname), umod, hlen, if_pos ((bitMask_add_one le_rfl).2 rfl)]
  rfl

end TxMessage

namespace Slot

variable {slot : Slot G R} {plant : Option (Vehicle R)} {now : ℕ}

/-- **A message that can be built is built**, and nothing of it but its sources changes. -/
theorem build_some (hvalid : slot.tx.message.validate = .ok ()) (h : slot.tx.CanBuild) :
    ∃ f bindings, f.isFd = false ∧ slot.build plant now = some (f,
      { tx := { slot.tx with bindings }
        rt := { slot.rt with counter := slot.rt.counter + 1 } }) := by
  obtain ⟨f₀, hempty, hfd₀⟩ := @makeEmpty_some slot.tx.message.id _ h.dlc
  obtain ⟨f₁, bindings, hbindings, hfd₁⟩ :=
    @TxMessage.encodeBindings_some _ _ _ _ slot.tx.message plant now slot.tx.bindings _ hfd₀
  obtain ⟨d₂, hcounter⟩ := TxMessage.encodeCounter_some hvalid h slot.rt.counter f₁
  obtain ⟨d₃, hchecksum⟩ := TxMessage.encodeChecksum_some hvalid h.dlc (f₁.setData d₂)
  refine ⟨((f₁.setData d₂).setData d₃).setTimestampNs now, bindings, hfd₁, ?_⟩
  simp only [build, hempty, hbindings, hcounter, hchecksum, Option.bind_eq_bind,
    Option.bind_some]
  rfl

/-- **And no other one.** -/
theorem canBuild_of_build {built : Slot G R} {f : Frame}
    (h : slot.build plant now = some (f, built)) : slot.tx.CanBuild := by
  unfold build at h
  obtain ⟨f₀, hempty, h⟩ := Option.bind_eq_some_iff.1 h
  obtain ⟨⟨f₁, bindings⟩, -, h⟩ := Option.bind_eq_some_iff.1 h
  obtain ⟨f₂, hcounter, -⟩ := Option.bind_eq_some_iff.1 h
  constructor
  · by_contra hlong
    rw [makeEmpty_long (Nat.lt_of_not_le hlong)] at hempty
    cases hempty
  · intro c hc hname hlen
    rw [TxMessage.encodeCounter_none hc hname hlen] at hcounter
    cases hcounter

/-- An event that no trigger reaches: an earlier message of the node has its name. -/
structure Idle (seen : List Text) (slot : Slot G R) : Prop where
  event : slot.tx.mode = .event
  hidden : slot.tx.message.name ∈ seen
  untriggered : slot.rt.triggered = false

/-- **What keeps a slot from failing.** -/
structure Ready (seen : List Text) (slot : Slot G R) : Prop where
  valid : slot.tx.message.validate = .ok ()
  canBuild : slot.tx.CanBuild ∨ slot.Idle seen

/-- **A step of a ready slot is defined**, and leaves it ready. -/
theorem step_ready {seen : List Text} (h : slot.Ready seen) (rng : G) :
    ∃ sent next rng', slot.step plant now rng = some (sent, next, rng') ∧
      (∀ f ∈ sent, f.isFd = false) ∧ next.Ready seen ∧ next.tx.message = slot.tx.message := by
  have htx := poll_tx slot now
  unfold step
  dsimp only
  by_cases hdue : (slot.poll now).1
  · have hbuild : slot.tx.CanBuild := by
      refine h.canBuild.resolve_right fun idle => ?_
      have hnot : (slot.poll now).1 = slot.rt.triggered := by rw [poll, idle.event]
      rw [hnot, idle.untriggered] at hdue
      cases hdue
    rw [if_neg (by simpa using hdue)]
    obtain ⟨f, bindings, hfd, hbuilt⟩ :=
      @build_some _ _ _ _ (slot.poll now).2 plant now (by rw [htx]; exact h.valid)
        (by rw [htx]; exact hbuild)
    have hready : ∀ rt, (⟨{ slot.tx with bindings }, rt⟩ : Slot G R).Ready seen := fun rt =>
      ⟨h.valid, .inl ⟨hbuild.dlc, hbuild.counter⟩⟩
    rw [hbuilt, htx, Option.bind_eq_bind, Option.bind_some]
    dsimp only
    split_ifs
    · exact ⟨_, _, _, rfl, by simp, hready _, rfl⟩
    · exact ⟨_, _, _, rfl, by simpa using hfd, hready _, rfl⟩
    · exact ⟨_, _, _, rfl, by simpa using hfd, hready _, rfl⟩
  · rw [if_pos (by simpa using hdue)]
    refine ⟨none, _, rng, rfl, by simp, ⟨by rw [htx]; exact h.valid, ?_⟩, by rw [htx]⟩
    rcases h.canBuild with hbuild | idle
    · exact .inl (by rw [htx]; exact hbuild)
    · refine .inr ⟨by rw [htx]; exact idle.event, by rw [htx]; exact idle.hidden, ?_⟩
      rw [poll, idle.event]

end Slot

/-! ### The nodes -/

namespace Ecu

/-- Every slot is ready, where the messages before it may hide it from triggers. -/
def AllReady : List Text → List (Slot G R) → Prop
  | _, [] => True
  | seen, slot :: rest => slot.Ready seen ∧ AllReady (seen ++ [slot.tx.message.name]) rest

theorem stepSlots_ready {seen : List Text} {plant : Option (Vehicle R)} {now : ℕ}
    {slots : List (Slot G R)} (h : AllReady seen slots) (rng : G) :
    ∃ frames slots' rng', stepSlots plant now slots rng = some (frames, slots', rng') ∧
      (∀ f ∈ frames, f.isFd = false) ∧ AllReady seen slots' := by
  induction slots generalizing seen rng with
  | nil => exact ⟨[], [], rng, rfl, by simp, trivial⟩
  | cons slot rest ih =>
    obtain ⟨hslot, hrest⟩ := h
    obtain ⟨sent, next, rng₁, hstep, hsent, hnext, hmessage⟩ :=
      @Slot.step_ready _ _ _ _ slot plant now _ hslot rng
    obtain ⟨frames, rest', rng₂, hsteps, hframes, hready⟩ := ih hrest rng₁
    refine ⟨sent.toList ++ frames, next :: rest', rng₂, ?_, ?_, hnext, ?_⟩
    · simp only [stepSlots, hstep, hsteps, Option.bind_eq_bind, Option.bind_some]
      rfl
    · intro f hf
      rcases List.mem_append.1 hf with hf | hf
      · exact hsent f (Option.mem_toList.1 hf)
      · exact hframes f hf
    · rw [hmessage]
      exact hready

omit [Engine G R] in
/-- A trigger reaches no slot that an earlier one hides. -/
theorem triggerFirst_ready {seen : List Text} {name : Text} {slots : List (Slot G R)}
    (hname : name ∉ seen) (h : AllReady seen slots) : AllReady seen (triggerFirst name slots) := by
  induction slots generalizing seen with
  | nil => trivial
  | cons slot rest ih =>
    obtain ⟨hslot, hrest⟩ := h
    rw [triggerFirst]
    split_ifs with heq
    · refine ⟨⟨hslot.valid, .inl ?_⟩, hrest⟩
      exact hslot.canBuild.resolve_right fun idle => hname (heq ▸ idle.hidden)
    · exact ⟨hslot, ih (by simpa using ⟨hname, Ne.symm heq⟩) hrest⟩

theorem step_name {ecu next : Ecu G R} {plant : Option (Vehicle R)} {now : ℕ}
    {frames : List Frame} (h : ecu.step now plant = some (frames, next)) : next.name = ecu.name := by
  unfold step at h
  split_ifs at h
  · cases h
    rfl
  · obtain ⟨⟨fs, slots, rng⟩, -, h⟩ := Option.bind_eq_some_iff.1 h
    cases h
    rfl

theorem step_ready {ecu : Ecu G R} {plant : Option (Vehicle R)} {now : ℕ}
    (h : AllReady [] ecu.slots) :
    ∃ frames next, ecu.step now plant = some (frames, next) ∧ (∀ f ∈ frames, f.isFd = false) ∧
      AllReady [] next.slots := by
  unfold step
  split_ifs
  · exact ⟨[], ecu, rfl, by simp, h⟩
  · obtain ⟨frames, slots, rng, hslots, hframes, hready⟩ :=
      @stepSlots_ready _ _ _ _ _ plant now _ h ecu.rng
    refine ⟨frames, { ecu with slots, rng }, ?_, hframes, hready⟩
    rw [hslots]
    rfl

end Ecu

/-! ### The faults -/

/-- A number drawn from a range is in it. -/
class LawfulEngine (G R : Type) [Engine G R] : Prop where
  uniformInt_mem : ∀ (low high : ℤ) (g : G), low ≤ high →
    low ≤ (Engine.uniformInt R low high g).1 ∧ (Engine.uniformInt R low high g).1 ≤ high

instance : LawfulEngine ℕ ℚ where
  uniformInt_mem low high g hle := by
    have hpos : (0 : ℤ) < high - low + 1 := by omega
    have hnonneg := Int.emod_nonneg (g : ℤ) hpos.ne'
    have hlt := Int.emod_lt_of_pos (g : ℤ) hpos
    constructor
    · exact le_add_of_nonneg_right hnonneg
    · exact (by omega : low + (g : ℤ) % (high - low + 1) ≤ high)

namespace FaultInjector

/-- A fault is defined and leaves a classic frame. -/
def GoesOn (r : Option (Passage G R)) : Prop := ∃ p, r = some p ∧ p.working.isFd = false

omit [Engine G R] in
theorem freeze_goesOn {p : Passage G R} (hfd : p.working.isFd = false) (f : Fault R)
    (message : Option (Message R)) (id : CanId) : GoesOn (freeze f message id p) := by
  unfold freeze
  split
  · exact ⟨p, rfl, hfd⟩
  rename_i s _
  split_ifs with hfits
  · split
    · rename_i value _
      obtain ⟨status, working, hencode, hworking⟩ := s.encode_some hfd value
      exact ⟨{ p with working }, by rw [hencode]; rfl, hworking⟩
    · obtain ⟨value, hvalue⟩ := Option.isSome_iff_exists.1 (Signal.decode_isSome hfd hfits)
      obtain ⟨status, working, hencode, hworking⟩ := s.encode_some hfd value
      have hframe (injector : FaultInjector G R) : GoesOn (some { p with working, injector }) :=
        ⟨_, rfl, hworking⟩
      rw [hvalue, Option.bind_eq_bind, Option.bind_some, hencode]
      exact hframe _
  · exact ⟨p, rfl, hfd⟩

omit [Engine G R] in
theorem forceOutOfRange_goesOn {p : Passage G R} (hfd : p.working.isFd = false) (f : Fault R)
    (message : Option (Message R)) : GoesOn (forceOutOfRange f message p) := by
  unfold forceOutOfRange
  split
  · exact ⟨p, rfl, hfd⟩
  rename_i s _
  split_ifs with hfits
  · dsimp only
    obtain ⟨status, hstatus⟩ := Option.isSome_iff_exists.1 (ScaledLayout.encode_isSome
      (s := { s.layout with minimum := Scalar.lit 0, maximum := Scalar.lit 0 })
      (Signal.fits_data hfd hfits) f.value)
    rw [hstatus]
    cases status with
    | ok d => exact ⟨{ p with working := p.working.setData d }, rfl, hfd⟩
    | error e => exact ⟨p, rfl, hfd⟩
  · exact ⟨p, rfl, hfd⟩

theorem flipBit_isSome {data : List Byte} {bit : ℕ} (h : bit < data.length * 8) :
    (flipBit data bit).isSome := by
  have hbyte : bit / 8 < data.length := by omega
  unfold flipBit readByte writeByte
  simp [hbyte]

theorem bitFlip_goesOn [LawfulEngine G R] {p : Passage G R} (hfd : p.working.isFd = false)
    (f : Fault R) : GoesOn (bitFlip f p) := by
  unfold bitFlip
  dsimp only
  split_ifs with hflip
  · have hsize : 0 < p.working.size := by
      simp only [Bool.and_eq_true, decide_eq_true_eq] at hflip
      exact hflip.2
    have hle := BasicFrame.size_le hfd
    have hlength := p.working.data_length
    obtain ⟨hlow, hhigh⟩ := LawfulEngine.uniformInt_mem (R := R) 0 (p.working.size * 8 - 1)
      (Engine.uniformReal (Scalar.lit 0 : R) (Scalar.lit 1) p.injector.rng).2 (by omega)
    obtain ⟨d, hd⟩ := Option.isSome_iff_exists.1 (@flipBit_isSome p.working.data
      (Engine.uniformInt R 0 (p.working.size * 8 - 1)
        (Engine.uniformReal (Scalar.lit 0 : R) (Scalar.lit 1) p.injector.rng).2).1.toNat (by omega))
    rw [hd]
    exact ⟨_, rfl, hfd⟩
  · exact ⟨_, rfl, hfd⟩

/-- **Every fault is defined on a classic frame.** -/
theorem pass_some [LawfulEngine G R] {p : Passage G R} (hfd : p.working.isFd = false) (f : Fault R)
    (message : Option (Message R)) (id : CanId) :
    ∃ r, pass f message id p = some r ∧ ∀ q, r = .inl q → q.working.isFd = false := by
  have hgoes : ∀ {r : Option (Passage G R)}, GoesOn r →
      ∃ r', r.map Sum.inl = some r' ∧
        ∀ q, r' = (.inl q : Passage G R ⊕ FaultInjector G R) → q.working.isFd = false := by
    rintro _ ⟨q, rfl, hq⟩
    exact ⟨.inl q, rfl, fun q' h => by cases h; exact hq⟩
  unfold pass
  split
  · exact ⟨_, rfl, fun q h => by cases h; exact hfd⟩
  · dsimp only
    split_ifs
    · exact ⟨_, rfl, by rintro q ⟨⟩⟩
    · exact ⟨_, rfl, fun q h => by cases h; exact hfd⟩
  · exact ⟨_, rfl, fun q h => by cases h; exact hfd⟩
  · exact hgoes (freeze_goesOn hfd f message id)
  · exact hgoes (forceOutOfRange_goesOn hfd f message)
  · exact hgoes (bitFlip_goesOn hfd f)

theorem passAll_isSome [LawfulEngine G R] (node : Text) (message : Option (Message R)) (id : CanId)
    (faults : List (Fault R)) {p : Passage G R} (hfd : p.working.isFd = false) :
    (passAll node message id faults p).isSome := by
  induction faults generalizing p with
  | nil => rfl
  | cons f rest ih =>
    rw [passAll]
    split_ifs
    · obtain ⟨r, hr, hclassic⟩ := pass_some hfd f message id
      rw [hr, Option.bind_eq_bind, Option.bind_some]
      cases r with
      | inl q => exact ih (hclassic q rfl)
      | inr inj => rfl
    · exact ih hfd

theorem process_isSome [LawfulEngine G R] (inj : FaultInjector G R) {frame : Frame}
    (hfd : frame.isFd = false) (node : Text) (now : ℕ) (db : Database R) :
    (inj.process node frame now db).isSome := by
  unfold process
  split_ifs
  · rfl
  · exact passAll_isSome node _ _ _ hfd

end FaultInjector

/-! ### Runs -/

/-- A change of one entry keeps what it keeps of every entry. -/
theorem forall_mem_modify {α : Type} {P : α → Prop} {f : α → α} {l : List α} (i : ℕ)
    (h : ∀ a ∈ l, P a) (hf : ∀ a ∈ l, P (f a)) : ∀ a ∈ l.modify i f, P a := by
  induction l generalizing i with
  | nil => simp
  | cons b l ih =>
    rw [List.forall_mem_cons] at h hf
    cases i with
    | zero => exact List.forall_mem_cons.2 ⟨hf.1, h.2⟩
    | succ i => exact List.forall_mem_cons.2 ⟨h.1, ih i h.2 hf.2⟩

namespace Simulator

/-- **Every node can go on.** -/
def Ready (sim : Simulator G R) : Prop := ∀ ecu ∈ sim.nodes, Ecu.AllReady [] ecu.slots

theorem processAll_isSome [LawfulEngine G R] (db : Database R) (node : Text) (now : ℕ)
    {frames : List Frame} (h : ∀ f ∈ frames, f.isFd = false) (faults : FaultInjector G R) :
    (processAll db node now frames faults).isSome := by
  induction frames generalizing faults with
  | nil => rfl
  | cons f rest ih =>
    rw [List.forall_mem_cons] at h
    obtain ⟨⟨passed, faults'⟩, hprocess⟩ :=
      Option.isSome_iff_exists.1 (faults.process_isSome h.1 node now db)
    obtain ⟨⟨outcomes, faults''⟩, hrest⟩ := Option.isSome_iff_exists.1 (ih h.2 faults')
    simp only [processAll, hprocess, hrest, Option.bind_eq_bind, Option.bind_some]
    rfl

theorem produce_ready [LawfulEngine G R] (db : Database R) (plant : Option (Vehicle R)) (now : ℕ)
    {nodes : List (Ecu G R)} (h : ∀ ecu ∈ nodes, Ecu.AllReady [] ecu.slots)
    (faults : FaultInjector G R) :
    ∃ made, produce db plant now nodes faults = some made ∧
      ∀ ecu ∈ made.nodes, Ecu.AllReady [] ecu.slots := by
  induction nodes generalizing faults with
  | nil => exact ⟨_, rfl, by simp⟩
  | cons ecu rest ih =>
    rw [List.forall_mem_cons] at h
    obtain ⟨frames, next, hstep, hframes, hnext⟩ := @Ecu.step_ready _ _ _ _ ecu plant now h.1
    obtain ⟨⟨outcomes, faults'⟩, hprocess⟩ :=
      Option.isSome_iff_exists.1 (processAll_isSome db ecu.name now hframes faults)
    obtain ⟨made, hmade, hready⟩ := ih h.2 faults'
    refine ⟨⟨outcomes ++ made.outcomes, next :: made.nodes, made.faults⟩, ?_, ?_⟩
    · have hname : next.name = ecu.name := Ecu.step_name hstep
      simp only [produce, hstep, Option.bind_eq_bind, Option.bind_some, hname, hprocess, hmade]
      rfl
    · rw [List.forall_mem_cons]
      exact ⟨hnext, hready⟩

/-- **A step of a ready simulator is defined**, and leaves it ready. -/
theorem step_ready [LawfulEngine G R] {sim : Simulator G R} (h : sim.Ready) (now : ℕ) :
    (sim.make now).isSome ∧ ∃ released next, sim.step now = some (released, next) ∧ next.Ready := by
  obtain ⟨made, hmade, hready⟩ := @produce_ready _ _ _ _ _ (sim.moveTo now).database
    (sim.moveTo now).plant now (sim.moveTo now).nodes h (sim.moveTo now).faults
  have hmake : sim.make now = some made := hmade
  refine ⟨by rw [hmake]; rfl, ?_⟩
  unfold step
  rw [hmake, Option.bind_eq_bind, Option.bind_some]
  exact ⟨_, _, rfl, hready⟩

omit [Engine G R] in
theorem control_ready {sim : Simulator G R} (h : sim.Ready) (c : Control) :
    (sim.control c).Ready := by
  cases c with
  | setActive fault on => exact h
  | toggle fault => exact h
  | trigger node message =>
    exact forall_mem_modify node h fun ecu hecu =>
      Ecu.triggerFirst_ready List.not_mem_nil (h ecu hecu)
  | setRunning node on => exact forall_mem_modify node h h

/-- **A ready simulator never fails.** -/
theorem run_isSome [LawfulEngine G R] {sim : Simulator G R} (h : sim.Ready) (events : List Event) :
    (sim.run events).isSome := by
  induction events generalizing sim with
  | nil => rfl
  | cons event events ih =>
    cases event with
    | control c => exact ih (control_ready h c)
    | step now =>
      obtain ⟨hmake, released, next, hstep, hnext⟩ := step_ready h now
      obtain ⟨made, hmade⟩ := Option.isSome_iff_exists.1 hmake
      obtain ⟨⟨records, last⟩, hrun⟩ := Option.isSome_iff_exists.1 (ih hnext)
      simp only [run, hmade, hstep, hrun, Option.bind_eq_bind, Option.bind_some]
      rfl

end Simulator

/-! ### What a run needs -/

namespace Slot

/-- A step of a slot that is due builds its message. -/
theorem canBuild_of_step {slot : Slot G R} {plant : Option (Vehicle R)} {now : ℕ} {rng : G}
    (hdue : (slot.poll now).1) (h : (slot.step plant now rng).isSome) : slot.tx.CanBuild := by
  obtain ⟨r, hr⟩ := Option.isSome_iff_exists.1 h
  unfold step at hr
  dsimp only at hr
  rw [if_neg (by simpa using hdue)] at hr
  obtain ⟨⟨f, built⟩, hbuild, -⟩ := Option.bind_eq_some_iff.1 hr
  rw [← poll_tx slot now]
  exact canBuild_of_build hbuild

end Slot

namespace Ecu

theorem isSome_of_stepSlots {plant : Option (Vehicle R)} {now : ℕ} {slots : List (Slot G R)}
    {rng : G} (h : (stepSlots plant now slots rng).isSome) :
    ∀ slot ∈ slots, ∃ rng, (slot.step plant now rng).isSome := by
  induction slots generalizing rng with
  | nil => simp
  | cons slot rest ih =>
    obtain ⟨r, hr⟩ := Option.isSome_iff_exists.1 h
    rw [stepSlots] at hr
    obtain ⟨⟨sent, next, rng'⟩, hone, hr⟩ := Option.bind_eq_some_iff.1 hr
    obtain ⟨r', hrest, -⟩ := Option.bind_eq_some_iff.1 hr
    refine List.forall_mem_cons.2 ⟨⟨rng, by rw [hone]; rfl⟩, ?_⟩
    exact @ih rng' (by rw [hrest]; rfl)

omit [Scalar R] [Engine G R] in
/-- The first message of a name is the one that is triggered. -/
theorem triggerFirst_append {before rest : List (Slot G R)} {slot : Slot G R}
    (h : slot.tx.message.name ∉ before.map (·.tx.message.name)) :
    triggerFirst slot.tx.message.name (before ++ slot :: rest) =
      before ++ { slot with rt := { slot.rt with triggered := true } } :: rest := by
  induction before with
  | nil => exact if_pos rfl
  | cons b before ih =>
    rw [List.map_cons, List.mem_cons, not_or] at h
    rw [List.cons_append, triggerFirst, if_neg (Ne.symm h.1), ih h.2, List.cons_append]

end Ecu

namespace Simulator

theorem isSome_of_produce {db : Database R} {plant : Option (Vehicle R)} {now : ℕ}
    {nodes : List (Ecu G R)} {faults : FaultInjector G R}
    (h : (produce db plant now nodes faults).isSome) :
    ∀ ecu ∈ nodes, (ecu.step now plant).isSome := by
  induction nodes generalizing faults with
  | nil => simp
  | cons ecu rest ih =>
    obtain ⟨r, hr⟩ := Option.isSome_iff_exists.1 h
    rw [produce] at hr
    obtain ⟨⟨frames, next⟩, hone, hr⟩ := Option.bind_eq_some_iff.1 hr
    obtain ⟨⟨outcomes, faults'⟩, -, hr⟩ := Option.bind_eq_some_iff.1 hr
    obtain ⟨made, hrest, -⟩ := Option.bind_eq_some_iff.1 hr
    refine List.forall_mem_cons.2 ⟨by rw [hone]; rfl, ?_⟩
    exact @ih faults' (by rw [hrest]; rfl)

/-- **A step that is defined builds every message that is due.** -/
theorem canBuild_of_run {sim : Simulator G R} {now : ℕ} (h : (sim.run [.step now]).isSome)
    {ecu : Ecu G R} (hecu : ecu ∈ sim.nodes) (hrunning : ecu.running) {slot : Slot G R}
    (hslot : slot ∈ ecu.slots) (hdue : (slot.poll now).1) : slot.tx.CanBuild := by
  obtain ⟨r, hr⟩ := Option.isSome_iff_exists.1 h
  obtain ⟨made, hmade, -⟩ := Option.bind_eq_some_iff.1 hr
  have hstep := isSome_of_produce (Option.isSome_iff_exists.2 ⟨made, hmade⟩) ecu hecu
  unfold Ecu.step at hstep
  rw [if_neg (by simpa using hrunning)] at hstep
  obtain ⟨next, hnext⟩ := Option.isSome_iff_exists.1 hstep
  obtain ⟨slots, hslots, -⟩ := Option.bind_eq_some_iff.1 hnext
  obtain ⟨rng, hone⟩ := Ecu.isSome_of_stepSlots (by rw [hslots]; rfl) slot hslot
  exact Slot.canBuild_of_step hdue hone

end Simulator

/-! ### What a build accepts -/

/-- A message a configuration may transmit: short enough for a classic frame, and the counter is
not of 64 bits. -/
def TxSpec.CanBuild (db : Database R) (spec : TxSpec) : Prop :=
  ∀ m ∈ db.findMessageNamed spec.message, m.dlc ≤ 8 ∧
    ∀ c ∈ m.findSignal spec.counterSignal, spec.counterSignal ≠ [] → c.layout.bitLength ≠ 64

instance (db : Database R) (spec : TxSpec) : Decidable (spec.CanBuild db) :=
  inferInstanceAs (Decidable (∀ m ∈ db.findMessageNamed spec.message, m.dlc ≤ 8 ∧
    ∀ c ∈ m.findSignal spec.counterSignal, spec.counterSignal ≠ [] → c.layout.bitLength ≠ 64))

/-- The messages that a node can come to send: all but the events that an earlier message of the
same name hides from `trigger`. -/
def sendable : List Text → List TxSpec → List TxSpec
  | _, [] => []
  | seen, spec :: rest =>
    let later := sendable (seen ++ [spec.message]) rest
    if spec.mode = .event ∧ spec.message ∈ seen then later else spec :: later

/-- What `build` makes of a message. -/
structure Slot.BuiltFrom (db : Database R) (spec : TxSpec) (slot : Slot G R) : Prop where
  message : db.findMessageNamed spec.message = some slot.tx.message
  mode : slot.tx.mode = spec.mode
  counterSignal : slot.tx.counterSignal = spec.counterSignal
  due : slot.rt.nextDueNs < 2 ^ 64
  untriggered : slot.rt.triggered = false

theorem buildTx_builtFrom {db : Database R} {spec : TxSpec} {tx : TxMessage G R}
    (h : buildTx db spec = .ok tx) :
    Slot.BuiltFrom db spec { tx, rt := { nextDueNs := tx.phaseNs.toNat } } := by
  have hdue := tx.phaseNs.isLt
  unfold buildTx at h
  split at h
  · cases h
  rename_i message hmessage
  split_ifs at h
  split at h
  · cases h
  cases h
  exact ⟨hmessage, rfl, rfl, hdue, rfl⟩

theorem buildTransmits_builtFrom {db : Database R} {specs : List TxSpec} {ecu built : Ecu G R}
    (h : buildTransmits db specs ecu = .ok built) :
    built.running = ecu.running ∧ ∃ slots, built.slots = ecu.slots ++ slots ∧
      List.Forall₂ (Slot.BuiltFrom db) specs slots := by
  induction specs generalizing ecu with
  | nil =>
    cases h
    exact ⟨rfl, [], (List.append_nil _).symm, .nil⟩
  | cons spec rest ih =>
    rw [buildTransmits] at h
    split at h
    · cases h
    rename_i tx htx
    obtain ⟨hrunning, slots, hslots, hbuilt⟩ := ih h
    refine ⟨hrunning, _ :: slots, ?_, .cons (buildTx_builtFrom htx) hbuilt⟩
    rw [hslots, Ecu.add, List.append_assoc]
    rfl

theorem buildNodes_builtFrom {db : Database R} {specs : List NodeSpec} {nodes : List (Ecu G R)}
    (h : buildNodes db specs = .ok nodes) :
    List.Forall₂ (fun node ecu => ecu.running ∧
      List.Forall₂ (Slot.BuiltFrom db) node.transmits ecu.slots) specs nodes := by
  induction specs generalizing nodes with
  | nil =>
    cases h
    exact .nil
  | cons spec rest ih =>
    rw [buildNodes] at h
    split at h
    · cases h
    rename_i ecu hecu
    split at h
    · cases h
    rename_i more hmore
    cases h
    obtain ⟨hrunning, slots, hslots, hbuilt⟩ := buildTransmits_builtFrom hecu
    refine .cons ⟨hrunning, ?_⟩ (ih hmore)
    rw [hslots]
    exact hbuilt

namespace Slot.BuiltFrom

variable {db : Database R} {spec : TxSpec} {slot : Slot G R}

omit [Scalar R] [Engine G R] in
theorem canBuild_iff (h : slot.BuiltFrom db spec) : slot.tx.CanBuild ↔ spec.CanBuild db := by
  constructor
  · intro hbuild m hm
    obtain rfl : slot.tx.message = m := Option.some.inj (h.message.symm.trans hm)
    rw [← h.counterSignal]
    exact ⟨hbuild.dlc, hbuild.counter⟩
  · intro hspec
    obtain ⟨hdlc, hcounter⟩ := hspec _ h.message
    rw [← h.counterSignal] at hcounter
    exact ⟨hdlc, hcounter⟩

omit [Scalar R] [Engine G R] in
theorem name_eq (h : slot.BuiltFrom db spec) : slot.tx.message.name = spec.message :=
  of_decide_eq_true (List.find?_some h.message :)

omit [Scalar R] [Engine G R] in
theorem idle_iff (h : slot.BuiltFrom db spec) (seen : List Text) :
    slot.Idle seen ↔ spec.mode = .event ∧ spec.message ∈ seen := by
  constructor
  · intro idle
    exact ⟨h.mode ▸ idle.event, h.name_eq ▸ idle.hidden⟩
  · rintro ⟨hevent, hseen⟩
    exact ⟨h.mode.trans hevent, h.name_eq.symm ▸ hseen, h.untriggered⟩

end Slot.BuiltFrom

omit [Engine G R] in
/-- **New slots are ready if every message that can be sent can be built.** -/
theorem allReady_of_sendable {db : Database R} (hdb : db.validate = .ok ()) {seen : List Text}
    {specs : List TxSpec} {slots : List (Slot G R)}
    (hbuilt : List.Forall₂ (Slot.BuiltFrom db) specs slots)
    (h : ∀ spec ∈ sendable seen specs, spec.CanBuild db) : Ecu.AllReady seen slots := by
  induction hbuilt generalizing seen with
  | nil => trivial
  | @cons spec slot specs slots hone hrest ih =>
    have hvalid := Database.validate_of_mem hdb (Database.mem_of_findMessageNamed hone.message)
    rw [sendable] at h
    rw [Ecu.AllReady, hone.name_eq]
    split_ifs at h with hidle
    · exact ⟨⟨hvalid, .inr ((hone.idle_iff seen).2 hidle)⟩, ih h⟩
    · rw [List.forall_mem_cons] at h
      exact ⟨⟨hvalid, .inl (hone.canBuild_iff.2 h.1)⟩, ih h.2⟩

omit [Scalar R] [Engine G R] in
/-- **And only then**, if every slot that is not hidden can be built. -/
theorem sendable_canBuild {db : Database R} {seen : List Text} {specs : List TxSpec}
    {slots : List (Slot G R)} (hbuilt : List.Forall₂ (Slot.BuiltFrom db) specs slots)
    (h : ∀ before spec slot rest, slots = before ++ slot :: rest → slot.BuiltFrom db spec →
      (slot.tx.mode = .event → slot.tx.message.name ∉ seen ++ before.map (·.tx.message.name)) →
        slot.tx.CanBuild) : ∀ spec ∈ sendable seen specs, spec.CanBuild db := by
  induction hbuilt generalizing seen with
  | nil => simp [sendable]
  | @cons spec slot specs slots hone hrest ih =>
    have hlater : ∀ other ∈ sendable (seen ++ [spec.message]) specs, other.CanBuild db := by
      refine ih fun before _ other rest heq hother hseen =>
        h (slot :: before) _ other rest ?_ hother ?_
      · rw [heq, List.cons_append]
      · intro hevent
        have := hseen hevent
        rwa [← hone.name_eq, List.append_assoc] at this
    rw [sendable]
    split_ifs with hidle
    · exact hlater
    · refine List.forall_mem_cons.2 ⟨hone.canBuild_iff.1 (h [] spec slot slots rfl hone ?_), hlater⟩
      rw [hone.mode, hone.name_eq, List.map_nil, List.append_nil]
      exact fun hevent hseen => hidle ⟨hevent, hseen⟩

namespace Simulator

/-- A message of CAN FD that no classic frame holds. -/
def longDatabase : Database ℚ :=
  { messages :=
      [{ name := ascii "Long", id := ⟨0x123, CanId.inRange_standard⟩, dlc := 12, isFd := true }] }

def longConfig : SimConfig ℚ :=
  { nodes := [{ name := ascii "ECM", transmits := [{ message := ascii "Long" }] }] }

/-- A counter as long as the message. -/
def wideDatabase : Database ℚ :=
  { messages :=
      [{ name := ascii "Wide", id := ⟨0x123, CanId.inRange_standard⟩, dlc := 8
         signals :=
          [{ name := ascii "Count"
             layout := { bitLength := 64, factor := 1, offset := 0, minimum := 0, maximum := 0 } }] }] }

def wideConfig : SimConfig ℚ :=
  { nodes :=
      [{ name := ascii "ECM"
         transmits := [{ message := ascii "Wide", counterSignal := ascii "Count" }] }] }

end Simulator

end Sim

end Canforge
