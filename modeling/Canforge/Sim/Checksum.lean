/-
# What a checksum protects

`crc8_sae_j1850` is a CRC with the generator `0x1D`, started at `0xFF` and inverted at the end, so
it tells two buffers apart that differ in one burst of at most eight bits
(`crc8SaeJ1850_ne_of_burst`).  `build` computes it while the checksum's own bits are zero: an
empty frame has them so, and neither a binding nor the counter writes on a run disjoint from
theirs (`TxMessage.Clear`).  So a receiver checks a frame by zeroing the field again
(`crc_protection`).
-/

import Canforge.Core.MessageCodec
import Canforge.Lib.Crc
import Canforge.Sim.Runnable

namespace Canforge

namespace Core

open Lib

/-! ### Fields that are zero -/

namespace SignalLayout

variable {s : SignalLayout} {data d : List Byte}

/-- Every bit of the signal is zero. -/
def Clear (s : SignalLayout) (data : List Byte) : Prop := ∀ a ∈ s.run, bitOf data a = false

/-- What is written on other cells leaves them zero. -/
theorem Clear.write {t : SignalLayout} {v : ℕ → Bool} (h : s.Clear data)
    (hdisjoint : Disjoint t.run s.run) (hw : Writes t.cell t.bitLength v (bitOf data) (bitOf d)) :
    s.Clear d := by
  intro a ha
  rw [hw.frame a (Set.disjoint_right.1 hdisjoint ha)]
  exact h a ha

/-- **Zeroing a field that was written undoes the write** when the field was zero before. -/
theorem Clear.zeroed (h : s.Clear data) (hfits : s.fits data.length) {raw : BitVec 64}
    (hd : s.encodeRaw raw data = some d) : s.encodeRaw 0 d = some data := by
  obtain ⟨d', hd', hlength, hw⟩ := encodeRaw_spec hfits raw
  obtain rfl : d' = d := Option.some.inj (hd'.symm.trans hd)
  obtain ⟨e, he, hlength', hw'⟩ := encodeRaw_spec (s := s) (hlength ▸ hfits : s.fits d'.length) 0
  rw [he]
  refine congrArg some (ext_bitOf (hlength'.trans hlength) (funext fun a => ?_))
  by_cases ha : a ∈ s.run
  · obtain ⟨j, hj, rfl⟩ := ha
    rw [hw'.read j hj, h _ (mem_cells hj)]
    exact BitVec.getLsbD_zero
  · rw [hw'.frame a ha, hw.frame a ha]

end SignalLayout

variable {R : Type} [Scalar R]

/-- **Encoding writes on the run of its signal at most**, and on nothing of a signal that does not
fit. -/
theorem Signal.encode_frame {s : Signal R} {f f' : Frame} {v : R} {status : Result Unit}
    (hsize : f.size ≤ 8) (h : s.encode f v = some (status, f')) : (∃ d, f' = f.setData d) ∧
      ∀ a, (s.layout.fits f.size → a ∉ s.layout.run) → bitOf f'.data a = bitOf f.data a := by
  have hsame : ∃ d, f = f.setData d := ⟨f.data, (BasicFrame.setData_self f).symm⟩
  by_cases hfits : s.layout.fits f.size
  · have hcopy := h
    rw [Signal.encode, if_pos hfits] at h
    cases hencode : s.layout.encode v f.data with
    | none => simp [hencode] at h
    | some r =>
      cases r with
      | ok d =>
        simp only [hencode, Option.bind_eq_bind, Option.bind_some, Option.some.injEq,
          Prod.mk.injEq] at h
        obtain ⟨rfl, hd⟩ := h
        obtain ⟨-, hw⟩ := Signal.encode_ok hfits hsize hcopy
        exact ⟨⟨d, hd.symm⟩, fun a ha => hw.frame a (ha hfits)⟩
      | error e =>
        simp only [hencode, Option.bind_eq_bind, Option.bind_some, Option.some.injEq,
          Prod.mk.injEq] at h
        obtain ⟨-, rfl⟩ := h
        exact ⟨hsame, fun a _ => rfl⟩
  · rw [Signal.encode, if_neg hfits] at h
    cases h
    exact ⟨hsame, fun a _ => rfl⟩

end Core

namespace Sim

open Canforge.Core IsoTp Lib

/-! ### The CRC -/

/-- The bits of a buffer in the order of transmission. -/
def bitsOfBuffer (data : List Byte) : List Bool := data.flatMap fun byte => msbBits 8 byte.toNat

/-- The generator of `crc8_sae_j1850`. -/
def kCrc8Generator : Byte := 0x1D

theorem crc8Bit_eq (crc : Byte) : crc8Bit crc = crcBit kCrc8Generator crc false := by
  have hmsb : (crc &&& 0x80 ≠ 0) ↔ crc.msb = true := by
    revert crc
    decide
  unfold crc8Bit crcBit
  dsimp only
  by_cases h : crc.msb = true
  · rw [if_pos (hmsb.2 h), h]
    rfl
  · rw [if_neg (fun hne => h (hmsb.1 hne)), Bool.not_eq_true] at *
    rw [h]
    rfl

/-- **`crc8_sae_j1850` is the register over the bits of the buffer.** -/
theorem crc8SaeJ1850_eq (data : List Byte) :
    crc8SaeJ1850 data = crcBits kCrc8Generator 0xFF (bitsOfBuffer data) ^^^ 0xFF := by
  have hloop : ∀ crc : Byte, data.foldl (fun crc byte => crc8Bit^[8] (crc ^^^ byte)) crc =
      crcBits kCrc8Generator crc (bitsOfBuffer data) := by
    induction data with
    | nil => exact fun _ => rfl
    | cons byte data ih =>
      intro crc
      have hbyte : crc8Bit^[8] (crc ^^^ byte) = crcBits kCrc8Generator crc (msbBits 8 byte.toNat) := by
        rw [crcBits_word, funext crc8Bit_eq]
      rw [List.foldl_cons, ih, hbyte, ← crcBits_append]
      rfl
  rw [crc8SaeJ1850, hloop]

/-- **A burst of at most eight bits changes the checksum.** -/
theorem crc8SaeJ1850_ne_of_burst {a b : List Byte} (h : Burst 8 (bitsOfBuffer a) (bitsOfBuffer b)) :
    crc8SaeJ1850 a ≠ crc8SaeJ1850 b := by
  rw [crc8SaeJ1850_eq, crc8SaeJ1850_eq]
  intro heq
  exact crcBits_ne_of_burst (p := kCrc8Generator) rfl h 0xFF ((BitVec.xor_left_inj _).1 heq)

/-! ### The frame it covers -/

variable {G R : Type} [Scalar R] [Engine G R]

namespace TxMessage

variable {tx : TxMessage G R} {t : SignalLayout} {f f' : Frame}

/-- **The bindings write on the runs of their signals at most.** -/
theorem encodeBindings_frame {m : Message R} {plant : Option (Vehicle R)} {now : ℕ}
    {bindings after : List (SignalBinding G R)} (hsize : f.size ≤ 8)
    (h : encodeBindings m plant now bindings f = some (f', after)) : (∃ d, f' = f.setData d) ∧
      ∀ a, (∀ b ∈ bindings, ∀ s, m.findSignal b.signal = some s → s.layout.fits f.size →
        a ∉ s.layout.run) → bitOf f'.data a = bitOf f.data a := by
  induction bindings generalizing f after with
  | nil =>
    cases h
    exact ⟨⟨_, (BasicFrame.setData_self _).symm⟩, fun _ _ => rfl⟩
  | cons b bindings ih =>
    have hskip : ∀ {after'}, encodeBindings m plant now bindings f = some (f', after') →
        (∃ d, f' = f.setData d) ∧
          ∀ a, (∀ b' ∈ b :: bindings, ∀ s, m.findSignal b'.signal = some s →
            s.layout.fits f.size → a ∉ s.layout.run) → bitOf f'.data a = bitOf f.data a :=
      fun hrest => ⟨(ih hsize hrest).1, fun a ha =>
        (ih hsize hrest).2 a fun b' hb' => ha b' (List.mem_cons_of_mem b hb')⟩
    rw [encodeBindings] at h
    split at h
    · obtain ⟨⟨g, after'⟩, hg, hdone⟩ := Option.bind_eq_some_iff.1 h
      cases hdone
      exact hskip hg
    · rename_i signal hsignal
      dsimp only at h
      split at h
      · obtain ⟨⟨g, after'⟩, hg, hdone⟩ := Option.bind_eq_some_iff.1 h
        cases hdone
        exact hskip hg
      · obtain ⟨⟨status, g⟩, hencode, h⟩ := Option.bind_eq_some_iff.1 h
        obtain ⟨⟨g', after'⟩, hg, hdone⟩ := Option.bind_eq_some_iff.1 h
        cases hdone
        obtain ⟨⟨d, rfl⟩, hone⟩ := Signal.encode_frame hsize hencode
        dsimp only at hg
        obtain ⟨⟨d', hd'⟩, hrest⟩ := @ih (f.setData d) _ hsize hg
        refine ⟨⟨d', hd'⟩, fun a ha => ?_⟩
        rw [hrest a fun b' hb' => ha b' (List.mem_cons_of_mem b hb')]
        exact hone a (ha b List.mem_cons_self signal hsignal)

omit [Engine G R] [Scalar R] in
theorem encodeCounter_clear {counter : BitVec 32} (hclear : t.Clear f.data)
    (hcounter : tx.counterSignal ≠ [] → ∀ s, tx.message.findSignal tx.counterSignal = some s →
      s.layout.fits 8 ∧ Disjoint s.layout.run t.run)
    (h : tx.encodeCounter counter f = some f') : f'.size = f.size ∧ t.Clear f'.data := by
  unfold encodeCounter at h
  split at h
  · rename_i c hc
    split_ifs at h with hempty
    · cases h
      exact ⟨rfl, hclear⟩
    · obtain ⟨hfits, hdisjoint⟩ := hcounter (by simpa using hempty) c hc
      obtain ⟨value, -, h⟩ := Option.bind_eq_some_iff.1 h
      obtain ⟨d, hd, hdone⟩ := Option.bind_eq_some_iff.1 h
      cases hdone
      have hdata : c.layout.fits f.data.length := f.data_length.symm ▸ hfits
      obtain ⟨d', hd', hlength, hw⟩ := SignalLayout.encodeRaw_spec hdata value
      obtain rfl : d' = d := Option.some.inj (hd'.symm.trans hd)
      refine ⟨rfl, ?_⟩
      rw [BasicFrame.setData_data (hlength.trans f.data_length)]
      exact hclear.write hdisjoint hw
  · cases h
    exact ⟨rfl, hclear⟩

omit [Engine G R] [Scalar R] in
/-- **The checksum is that of the frame without it.** -/
theorem encodeChecksum_zeroed {c : Signal R} (hkind : tx.checksum = .crc8Sae)
    (hname : tx.checksumSignal ≠ [])
    (hc : tx.message.findSignal tx.checksumSignal = some c) (hbits : c.layout.bitLength = 8)
    (hfits : c.layout.fits 8) (hclear : c.layout.Clear f.data)
    (h : tx.encodeChecksum f = some f') :
    c.layout.encodeRaw 0 f'.data = some f.data ∧ f'.size = f.size ∧
      c.layout.decodeRaw f'.data = some ((crc8SaeJ1850 f.bytes).setWidth 64) := by
  have hdata : c.layout.fits f.data.length := f.data_length.symm ▸ hfits
  have hempty : ¬(tx.checksum = .none ∨ tx.checksumSignal.isEmpty = true) := by
    simp [hkind, hname]
  unfold encodeChecksum at h
  rw [hc] at h
  dsimp only at h
  rw [if_neg hempty, checksumOf, hkind] at h
  obtain ⟨d, hd, hdone⟩ := Option.bind_eq_some_iff.1 h
  cases hdone
  have hlength : d.length = 8 := by
    obtain ⟨d', hd', hlength, -⟩ := SignalLayout.encodeRaw_spec hdata
      ((crc8SaeJ1850 f.bytes).setWidth 64)
    rw [← Option.some.inj (hd'.symm.trans hd), hlength, f.data_length]
  rw [BasicFrame.setData_data hlength]
  refine ⟨hclear.zeroed hdata hd, rfl, ?_⟩
  rw [SignalLayout.decodeRaw_encodeRaw hdata hd, hbits]
  refine congrArg some (BitVec.eq_of_getLsbD_eq fun i hi => ?_)
  rw [BitVec.getLsbD_and, getLsbD_bitMask, BitVec.getLsbD_setWidth]
  by_cases h8 : i < 8
  · simp [h8, hi]
  · simp [h8, BitVec.getLsbD_of_ge _ i (Nat.not_lt.1 h8)]

end TxMessage

/-- **What the CRC protects.**  Two buffers that differ in a burst of at most eight bits have
different checksums; and a frame that is built carries the checksum of what it is with the field
zeroed, when nothing else is written on the field. -/
theorem crc_protection :
    (∀ a b : List Byte, Burst 8 (bitsOfBuffer a) (bitsOfBuffer b) →
      crc8SaeJ1850 a ≠ crc8SaeJ1850 b) ∧
    ∀ (slot built : Slot G R) (plant : Option (Vehicle R)) (now : ℕ) (frame : Frame) (c : Signal R),
      slot.tx.checksum = .crc8Sae → slot.tx.checksumSignal ≠ [] →
      slot.tx.message.findSignal slot.tx.checksumSignal = some c →
      c.layout.bitLength = 8 → c.layout.fits slot.tx.message.dlc →
      (∀ b ∈ slot.tx.bindings, ∀ s, slot.tx.message.findSignal b.signal = some s →
        Disjoint s.layout.run c.layout.run) →
      (slot.tx.counterSignal ≠ [] →
        ∀ s, slot.tx.message.findSignal slot.tx.counterSignal = some s →
          s.layout.fits slot.tx.message.dlc ∧ Disjoint s.layout.run c.layout.run) →
      slot.build plant now = some (frame, built) →
      ∃ d, c.layout.encodeRaw 0 frame.data = some d ∧
        c.layout.decodeRaw frame.data =
          some ((crc8SaeJ1850 (frame.setData d).bytes).setWidth 64) := by
  refine ⟨fun _ _ => crc8SaeJ1850_ne_of_burst, ?_⟩
  intro slot built plant now frame c hkind hname hc hbits hfits hbound hcounter h
  have hdlc := (Slot.canBuild_of_build h).dlc
  have hfits8 : ∀ {s : SignalLayout}, s.fits slot.tx.message.dlc → s.fits 8 :=
    fun hs => hs.mono hdlc
  obtain ⟨f₀, hempty, hsize₀, hzero⟩ := makeEmpty_ok slot.tx.message.id hdlc
  unfold Slot.build at h
  dsimp only at h
  rw [hempty] at h
  obtain ⟨f, hf, h⟩ := Option.bind_eq_some_iff.1 h
  obtain rfl : f₀ = f := Option.some.inj hf
  obtain ⟨⟨f₁, bindings⟩, hbindings, h⟩ := Option.bind_eq_some_iff.1 h
  obtain ⟨f₂, hcount, h⟩ := Option.bind_eq_some_iff.1 h
  obtain ⟨f₃, hsum, hdone⟩ := Option.bind_eq_some_iff.1 h
  cases hdone
  obtain ⟨-, hkept⟩ := TxMessage.encodeBindings_frame (hsize₀ ▸ hdlc) hbindings
  have hclear₁ : c.layout.Clear f₁.data := fun a ha =>
    (hkept a fun b hb s hs _ => Set.disjoint_right.1 (hbound b hb s hs) ha).trans (hzero a)
  obtain ⟨-, hclear₂⟩ := TxMessage.encodeCounter_clear hclear₁
    (fun hne s hs => ⟨hfits8 (hcounter hne s hs).1, (hcounter hne s hs).2⟩) hcount
  obtain ⟨hback, hsize₃, hread⟩ :=
    TxMessage.encodeChecksum_zeroed hkind hname hc hbits (hfits8 hfits) hclear₂ hsum
  refine ⟨f₂.data, hback, hread.trans ?_⟩
  have hbytes : ((f₃.setTimestampNs now).setData f₂.data).bytes = f₂.bytes := by
    rw [BasicFrame.bytes, BasicFrame.setData_data f₂.data_length, BasicFrame.bytes,
      BasicFrame.setData_size, BasicFrame.setTimestampNs_size, hsize₃]
  rw [hbytes]

/-- An unscaled signal of some bits. -/
def plainLayout (startBit bitLength : ℕ) : ScaledLayout ℚ :=
  { startBit, bitLength, factor := 1, offset := 0, minimum := 0, maximum := 0 }

/-- A message with a bound signal, a CRC across two bytes and a counter. -/
def guardedSlot : Slot ℕ ℚ :=
  { tx :=
      { message :=
          { name := ascii "Guarded", id := ⟨0x123, CanId.inRange_standard⟩, dlc := 3
            signals := [{ name := ascii "Speed", layout := plainLayout 0 10 },
                        { name := ascii "Crc", layout := plainLayout 11 8 },
                        { name := ascii "Count", layout := plainLayout 20 4 }] }
        bindings := [{ signal := ascii "Speed", source := some (.constant 0x155) }]
        counterSignal := ascii "Count", checksumSignal := ascii "Crc", checksum := .crc8Sae }
    rt := { counter := 21 } }

theorem plainLayout_disjoint {a n b m : ℕ} (h : a + n ≤ b) :
    Disjoint (plainLayout a n).run (plainLayout b m).run := by
  refine Set.disjoint_left.2 ?_
  rintro _ ⟨i, hi, rfl⟩ ⟨j, -, hj⟩
  have heq : b + j = a + i := addressOf_injective .intel hj
  have hlt : i < n := hi
  omega

/-- A burst across the middle of a byte, and a frame whose sources and counter are written. -/
theorem guarded_frame : crc8SaeJ1850 [0x12, 0x34] ≠ crc8SaeJ1850 [0x12, 0x4C] ∧
    ∃ (frame : Frame) (built : Slot ℕ ℚ) (d : List Byte),
      guardedSlot.build none 7 = some (frame, built) ∧
        (plainLayout 11 8).encodeRaw 0 frame.data = some d ∧
          (plainLayout 11 8).decodeRaw frame.data =
            some ((crc8SaeJ1850 (frame.setData d).bytes).setWidth 64) := by
  obtain ⟨hburst, hframe⟩ := crc_protection (G := ℕ) (R := ℚ)
  refine ⟨hburst _ _ ⟨msbBits 8 0x12, msbBits 8 0x34, msbBits 8 0x4C, [], rfl, rfl, rfl, le_rfl,
    by decide⟩, ?_⟩
  have hbuilt : (guardedSlot.build none 7).isSome = true := by decide +kernel
  obtain ⟨⟨frame, built⟩, hbuild⟩ := Option.isSome_iff_exists.1 hbuilt
  obtain ⟨d, hd, hread⟩ := hframe guardedSlot built none 7 frame
    { name := ascii "Crc", layout := plainLayout 11 8 } rfl (by decide) rfl rfl (by decide)
    (by
      intro b hb s hs
      obtain rfl := List.mem_singleton.1 hb
      cases hs
      exact plainLayout_disjoint (by decide))
    (by
      intro _ s hs
      cases hs
      exact ⟨by decide, (plainLayout_disjoint (by decide)).symm⟩)
    hbuild
  exact ⟨frame, built, d, hbuild, hd, hread⟩

end Sim
end Canforge
