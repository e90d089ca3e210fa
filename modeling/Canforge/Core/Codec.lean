/-
# The fast codec, the reference codec and what both do

The `j`-th bit of a signal's run is the cell `SignalLayout.cell j` of the buffer
and holds bit `SignalLayout.rank j` of the raw value.  With these two functions
the four entry points of `core/src/Signal.cpp` have one specification each:
decoding collects the cells (`decodeRaw_spec`, `decodeRawReference_spec`),
encoding is `Lib.Writes` on them (`encodeRaw_spec`, `encodeRawReference_spec`).
The word-at-a-time codec equals the bit-at-a-time one because the specification
leaves nothing open (`fast_eq_reference`), and the laws of a write to a run of
cells are the laws of the codec (`encodeRaw_decodeRaw_law`).
-/

import Canforge.Core.SignalBits

namespace Canforge
namespace Core

open Lib

theorem addressOf_injective (order : ByteOrder) : Function.Injective (addressOf · order) := by
  intro q q' h
  cases order <;> simp only [addressOf, Prod.mk.injEq] at h <;> omega

theorem addressOf_snd_lt (q : ℕ) (order : ByteOrder) : (addressOf q order).2 < 8 := by
  cases order <;> simp only [addressOf] <;> omega

namespace SignalLayout

variable {s t : SignalLayout} {data : List Byte}

/-- The `j`-th cell of the signal's run, in canonical order. -/
def cell (s : SignalLayout) (j : ℕ) : ℕ × ℕ := addressOf (s.canonicalStart + j) s.byteOrder

/-- The bit of the raw value that the `j`-th cell of the run holds. -/
def rank (s : SignalLayout) (j : ℕ) : ℕ :=
  match s.byteOrder with
  | .intel => j
  | .motorola => s.bitLength - 1 - j

/-- The cells of the signal: the Intel run or the Motorola sawtooth. -/
def run (s : SignalLayout) : Set (ℕ × ℕ) := cells s.cell s.bitLength

theorem rank_lt {j : ℕ} (h : j < s.bitLength) : s.rank j < s.bitLength := by
  unfold rank; split <;> omega

theorem rank_rank {j : ℕ} (h : j < s.bitLength) : s.rank (s.rank j) = j := by
  unfold rank
  cases s.byteOrder with
  | intel => rfl
  | motorola => simp only; omega

theorem cell_injective (s : SignalLayout) : Function.Injective s.cell := fun _ _ h =>
  Nat.add_left_cancel (addressOf_injective s.byteOrder h)

theorem cell_notMem (s : SignalLayout) (n : ℕ) : s.cell n ∉ cells s.cell n := fun ⟨_, hi, he⟩ =>
  absurd (s.cell_injective he) (Nat.ne_of_lt hi)

theorem cell_fst_lt (h : s.fits data.length) {j : ℕ} (hj : j < s.bitLength) :
    (s.cell j).1 < data.length := by
  obtain ⟨_, _, h⟩ := h
  unfold canonicalEnd at h
  unfold cell addressOf
  split <;> simp only <;> omega

theorem snd_lt_of_mem_run {a : ℕ × ℕ} (h : a ∈ s.run) : a.2 < 8 := by
  obtain ⟨j, _, rfl⟩ := h
  exact addressOf_snd_lt _ _

/-- A cell of an Intel run, by its byte and bit. -/
theorem mem_run_intel (h : s.byteOrder = .intel) {i k : ℕ} (hk : k < 8) :
    (i, k) ∈ s.run ↔
      s.canonicalStart ≤ 8 * i + k ∧ 8 * i + k < s.canonicalStart + s.bitLength := by
  constructor
  · rintro ⟨j, hj, he⟩
    simp only [cell, h, addressOf, Prod.mk.injEq] at he
    omega
  · intro hw
    refine ⟨8 * i + k - s.canonicalStart, by omega, ?_⟩
    simp only [cell, h, addressOf, Prod.mk.injEq]
    omega

/-- A cell of a Motorola sawtooth, by its byte and bit. -/
theorem mem_run_motorola (h : s.byteOrder = .motorola) {i k : ℕ} (hk : k < 8) :
    (i, k) ∈ s.run ↔ s.canonicalStart ≤ 8 * i + (7 - k) ∧
      8 * i + (7 - k) < s.canonicalStart + s.bitLength := by
  constructor
  · rintro ⟨j, hj, he⟩
    simp only [cell, h, addressOf, Prod.mk.injEq] at he
    omega
  · intro hw
    refine ⟨8 * i + (7 - k) - s.canonicalStart, by omega, ?_⟩
    simp only [cell, h, addressOf, Prod.mk.injEq]
    omega

/-! ### Decoding -/

/-- **`decode_raw` collects the cells of the signal.** -/
theorem decodeRaw_spec (h : s.fits data.length) : ∃ w, s.decodeRaw data = some w ∧
    ∀ i, w.getLsbD i = (decide (i < s.bitLength) && bitOf data (s.cell (s.rank i))) := by
  obtain ⟨h₁, h₆₄, hend⟩ := h
  unfold decodeRaw cell rank
  cases s.byteOrder with
  | intel => exact extractIntel_spec h₁ h₆₄ hend
  | motorola => exact extractMotorola_spec h₁ h₆₄ hend

/-- A bit read by the reference codec. -/
theorem getLsbD_bit (p : Byte) (b j : ℕ) :
    (((p >>> b) &&& 1#8).setWidth 64).getLsbD j = (decide (j = 0) && p.getLsbD b) := by
  rw [BitVec.getLsbD_setWidth, BitVec.getLsbD_and, BitVec.getLsbD_ushiftRight,
    BitVec.getLsbD_one]
  by_cases hj : j = 0 <;> simp [hj]

/-- The bits the reference codec has collected after `n` iterations. -/
theorem decodeRawReferenceLoop_spec (h : s.fits data.length) {n : ℕ} (hn : n ≤ s.bitLength) :
    ∃ w, s.decodeRawReferenceLoop data n = some w ∧ ∀ i, w.getLsbD i = (decide (i < n) &&
      bitOf data (s.cell (match s.byteOrder with | .intel => i | .motorola => n - 1 - i))) := by
  induction n with
  | zero => exact ⟨0, rfl, fun i => by simp⟩
  | succ n ih =>
    obtain ⟨w, hw, hb⟩ := ih (by omega)
    have hlen : s.bitLength ≤ 64 := h.2.1
    have hread := readByte_eq (cell_fst_lt h (show n < s.bitLength by omega))
    have hbit := getLsbD_bit (data.getD (s.cell n).1 0) (s.cell n).2
    simp only [decodeRawReferenceLoop, hw, ← cell.eq_1, hread, Option.bind_eq_bind,
      Option.bind_some]
    cases ho : s.byteOrder with
    | intel =>
      simp only [ho] at hb
      refine ⟨_, by simp only [shl_eq _ (show n < 64 by omega), Option.bind_some]; rfl,
        fun i => ?_⟩
      simp only
      rw [BitVec.getLsbD_or, BitVec.getLsbD_shiftLeft, hb, hbit]
      rcases Nat.lt_trichotomy i n with hi | rfl | hi
      · simp [hi, show i < n + 1 by omega]
      · simp [show i < 64 by omega, bitOf]
      · simp [show ¬ i < n by omega, show ¬ i < n + 1 by omega, show i - n ≠ 0 by omega]
    | motorola =>
      simp only [ho] at hb
      refine ⟨_, by simp only [shl_eq _ (show 1 < 64 by omega), Option.bind_some]; rfl,
        fun i => ?_⟩
      simp only
      rw [BitVec.getLsbD_or, BitVec.getLsbD_shiftLeft, hb, hbit]
      rcases Nat.eq_zero_or_pos i with rfl | hi
      · simp [bitOf]
      · rw [show n + 1 - 1 - i = n - 1 - (i - 1) by omega]
        rcases Nat.lt_or_ge i (n + 1) with hi' | hi'
        · simp [hi', show ¬ i < 1 by omega, show i < 64 by omega, show i - 1 < n by omega,
            show i ≠ 0 by omega]
        · simp [show ¬ i < n + 1 by omega, show ¬ i - 1 < n by omega, show i ≠ 0 by omega]

/-- **`decode_raw_reference` collects the same cells.** -/
theorem decodeRawReference_spec (h : s.fits data.length) :
    ∃ w, s.decodeRawReference data = some w ∧
      ∀ i, w.getLsbD i = (decide (i < s.bitLength) && bitOf data (s.cell (s.rank i))) :=
  decodeRawReferenceLoop_spec h le_rfl

/-! ### Encoding -/

/-- **`encode_raw` writes the raw value on the run and nothing else.** -/
theorem encodeRaw_spec (h : s.fits data.length) (raw : BitVec 64) :
    ∃ d, s.encodeRaw raw data = some d ∧ d.length = data.length ∧
      Writes s.cell s.bitLength (fun j => raw.getLsbD (s.rank j)) (bitOf data) (bitOf d) := by
  obtain ⟨h₁, h₆₄, hend⟩ := h
  unfold encodeRaw
  cases ho : s.byteOrder with
  | intel =>
    obtain ⟨d, hd, hlen, hb⟩ := insertIntel_spec raw h₁ h₆₄ hend
    refine ⟨d, hd, hlen, fun j hj => ?_, fun ⟨i, k⟩ ha => ?_⟩
    · simp only [cell, rank, ho, addressOf]
      rw [hb _ _ (by omega), if_pos (by omega)]
      congr 1
      omega
    · rcases Nat.lt_or_ge k 8 with hk | hk
      · rw [hb i k hk, if_neg (mt (mem_run_intel ho hk).2 ha)]
      · rw [bitOf_of_ge hk, bitOf_of_ge hk]
  | motorola =>
    obtain ⟨d, hd, hlen, hb⟩ := insertMotorola_spec raw h₁ h₆₄ hend
    refine ⟨d, hd, hlen, fun j hj => ?_, fun ⟨i, k⟩ ha => ?_⟩
    · simp only [cell, rank, ho, addressOf]
      rw [hb _ _ (by omega), if_pos (by omega)]
      congr 1
      omega
    · rcases Nat.lt_or_ge k 8 with hk | hk
      · rw [hb i k hk, if_neg (mt (mem_run_motorola ho hk).2 ha)]
      · rw [bitOf_of_ge hk, bitOf_of_ge hk]

/-- A byte after the reference codec has set one bit of it. -/
theorem getLsbD_setBit (p : Byte) (c : Prop) [Decidable c] {b k : ℕ} (hb : b < 8) (hk : k < 8) :
    ((p &&& ~~~(1#8 <<< b)) ||| (if c then 1#8 <<< b else 0#8)).getLsbD k =
      if k = b then decide c else p.getLsbD k := by
  have hone : (1#8 <<< b).getLsbD k = decide (k = b) := by
    rw [BitVec.getLsbD_shiftLeft, BitVec.getLsbD_one]
    by_cases h : k = b
    · simp [h, hb]
    · rcases Nat.lt_or_ge k b with h' | h'
      · simp [h, h']
      · simp [h, show k - b ≠ 0 by omega]
  have hif : (if c then 1#8 <<< b else 0#8).getLsbD k = (decide c && decide (k = b)) := by
    split_ifs with hc
    · rw [hone, decide_eq_true hc, Bool.true_and]
    · rw [BitVec.getLsbD_zero, decide_eq_false hc, Bool.false_and]
  rw [BitVec.getLsbD_or, BitVec.getLsbD_and, BitVec.getLsbD_not, hone, hif]
  by_cases h : k = b <;> simp [h, hk]

theorem ushiftRight_and_one_ne_zero (v : BitVec 64) (n : ℕ) :
    v >>> n &&& 1#64 ≠ 0#64 ↔ v.getLsbD n = true := by
  constructor
  · intro h
    by_contra hn
    rw [Bool.not_eq_true] at hn
    refine h (BitVec.eq_of_getLsbD_eq fun j hj => ?_)
    rw [BitVec.getLsbD_and, BitVec.getLsbD_ushiftRight, BitVec.getLsbD_zero,
      BitVec.getLsbD_one]
    by_cases hj0 : j = 0 <;> simp [hj0, hn]
  · intro h h0
    have := congrArg (·.getLsbD 0) h0
    simp [h] at this

/-- One iteration of the reference codec, in terms of cells. -/
theorem encodeRawReferenceLoop_succ (s : SignalLayout) (v : BitVec 64) (data : List Byte) (n : ℕ) :
    s.encodeRawReferenceLoop v data (n + 1) = (do
      let d ← s.encodeRawReferenceLoop v data n
      let w ← shr v (s.rank n)
      let p ← readByte d (s.cell n).1
      writeByte d (s.cell n).1 ((p &&& ~~~(1#8 <<< (s.cell n).2)) |||
        (if w &&& 1#64 ≠ 0#64 then 1#8 <<< (s.cell n).2 else 0#8))) := rfl

/-- The cells the reference codec has written after `n` iterations. -/
theorem encodeRawReferenceLoop_spec (h : s.fits data.length) (v : BitVec 64) {n : ℕ}
    (hn : n ≤ s.bitLength) :
    ∃ d, s.encodeRawReferenceLoop v data n = some d ∧ d.length = data.length ∧
      Writes s.cell n (fun j => v.getLsbD (s.rank j)) (bitOf data) (bitOf d) := by
  induction n with
  | zero => exact ⟨data, rfl, rfl, ⟨fun i hi => absurd hi (Nat.not_lt_zero i), fun _ _ => rfl⟩⟩
  | succ n ih =>
    obtain ⟨d, hd, hlen, hw⟩ := ih (by omega)
    have hlt : (s.cell n).1 < d.length :=
      hlen ▸ cell_fst_lt h (show n < s.bitLength by omega)
    have hrank : s.rank n < 64 := lt_of_lt_of_le (rank_lt (by omega)) h.2.1
    have hb : (s.cell n).2 < 8 := addressOf_snd_lt _ _
    simp only [encodeRawReferenceLoop_succ, hd, shr_eq _ hrank, readByte_eq hlt,
      writeByte_eq _ hlt, Option.bind_eq_bind, Option.bind_some]
    refine ⟨_, rfl, by simpa using hlen, hw.succ (s.cell_notMem n) ?_ fun a ha => ?_⟩
    · rw [bitOf_set _ hlt, if_pos rfl, getLsbD_setBit _ _ hb hb, if_pos rfl]
      rw [Bool.eq_iff_iff, decide_eq_true_iff]
      exact ushiftRight_and_one_ne_zero v (s.rank n)
    · rw [bitOf_set _ hlt]
      by_cases ha' : a.1 = (s.cell n).1
      · rw [if_pos ha']
        rcases Nat.lt_or_ge a.2 8 with hk | hk
        · rw [getLsbD_setBit _ _ hb hk, if_neg fun he => ha (Prod.ext ha' he), bitOf, ha']
        · rw [BitVec.getLsbD_of_ge _ _ hk, bitOf_of_ge hk]
      · rw [if_neg ha']

/-- The mask takes away no bit of the signal. -/
theorem getLsbD_masked (raw : BitVec 64) (h : s.bitLength ≤ 64) {j : ℕ} (hj : j < s.bitLength) :
    (raw &&& bitMask s.bitLength).getLsbD (s.rank j) = raw.getLsbD (s.rank j) := by
  have := rank_lt hj
  rw [BitVec.getLsbD_and, getLsbD_bitMask]
  simp [this, show s.rank j < 64 by omega]

/-- **`encode_raw_reference` writes the same cells.** -/
theorem encodeRawReference_spec (h : s.fits data.length) (raw : BitVec 64) :
    ∃ d, s.encodeRawReference raw data = some d ∧ d.length = data.length ∧
      Writes s.cell s.bitLength (fun j => raw.getLsbD (s.rank j)) (bitOf data) (bitOf d) := by
  obtain ⟨d, hd, hlen, hw⟩ :=
    encodeRawReferenceLoop_spec h (raw &&& bitMask s.bitLength) le_rfl
  exact ⟨d, hd, hlen, fun j hj => (hw.read j hj).trans (getLsbD_masked raw h.2.1 hj), hw.frame⟩

/-! ### The two codecs agree -/

/-- **The fast codec is the reference codec.**  On a buffer the layout fits, both
decoders return the same value and both encoders the same buffer; the fast ones
have a result, so they read and write below the end of the buffer only, and what
lies behind it neither changes the result nor is changed. -/
theorem fast_eq_reference (h : s.fits data.length) :
    (∃ w, s.decodeRaw data = some w ∧ s.decodeRawReference data = some w ∧
      ∀ behind, s.decodeRaw (data ++ behind) = some w) ∧
    ∀ raw, ∃ d, s.encodeRaw raw data = some d ∧ s.encodeRawReference raw data = some d ∧
      d.length = data.length ∧ ∀ behind, s.encodeRaw raw (data ++ behind) = some (d ++ behind) := by
  have hbehind : ∀ behind : List Byte, s.fits (data ++ behind).length := fun behind =>
    ⟨h.1, h.2.1, by rw [List.length_append]; have := h.2.2; omega⟩
  refine ⟨?_, fun raw => ?_⟩
  · obtain ⟨w, hw, hb⟩ := decodeRaw_spec h
    obtain ⟨w', hw', hb'⟩ := decodeRawReference_spec h
    refine ⟨w, hw, ?_, fun behind => ?_⟩
    · rw [hw', BitVec.eq_of_getLsbD_eq fun i _ => (hb' i).trans (hb i).symm]
    · obtain ⟨u, hu, hbu⟩ := decodeRaw_spec (hbehind behind)
      rw [hu, BitVec.eq_of_getLsbD_eq fun i _ => (hbu i).trans ?_]
      rw [hb i]
      by_cases hi : i < s.bitLength
      · rw [bitOf_append_left _ (cell_fst_lt h (rank_lt hi))]
      · simp [hi]
  · obtain ⟨d, hd, hlen, hw⟩ := encodeRaw_spec h raw
    obtain ⟨d', hd', hlen', hw'⟩ := encodeRawReference_spec h raw
    refine ⟨d, hd, ?_, hlen, fun behind => ?_⟩
    · rw [hd', ext_bitOf (hlen'.trans hlen.symm) (hw'.unique hw)]
    · obtain ⟨e, he, hle, hwe⟩ := encodeRaw_spec (hbehind behind) raw
      have hd_append : Writes s.cell s.bitLength (fun j => raw.getLsbD (s.rank j))
          (bitOf (data ++ behind)) (bitOf (d ++ behind)) := by
        refine ⟨fun j hj => ?_, fun a ha => ?_⟩
        · rw [bitOf_append_left _ (hlen ▸ cell_fst_lt h hj), hw.read j hj]
        · rw [bitOf_append, bitOf_append, hlen, hw.frame a ha]
      rw [he, ext_bitOf (by simp [hle, hlen]) (hwe.unique hd_append)]

/-- The layout of a 64-bit Motorola signal that straddles nine bytes. -/
theorem fast_eq_reference_nine_bytes :
    (∃ w, ({ startBit := 3, bitLength := 64, byteOrder := .motorola } : SignalLayout).decodeRaw
        (List.replicate 9 0xA5#8) = some w ∧
      ({ startBit := 3, bitLength := 64, byteOrder := .motorola } : SignalLayout).decodeRawReference
        (List.replicate 9 0xA5#8) = some w) :=
  let ⟨⟨w, hw, hr, _⟩, _⟩ := fast_eq_reference
    (show SignalLayout.fits { startBit := 3, bitLength := 64, byteOrder := .motorola }
      (List.replicate 9 0xA5#8).length from by decide)
  ⟨w, hw, hr⟩

/-! ### Writing, reading back and leaving the rest alone -/

/-- What is written is read back, as far as it fits. -/
theorem decodeRaw_encodeRaw {d : List Byte} {raw : BitVec 64} (hs : s.fits data.length)
    (he : s.encodeRaw raw data = some d) :
    s.decodeRaw d = some (raw &&& bitMask s.bitLength) := by
  obtain ⟨d', he', hlen, hw⟩ := encodeRaw_spec hs raw
  obtain rfl : d' = d := Option.some.inj (he'.symm.trans he)
  obtain ⟨w, hdec, hb⟩ := decodeRaw_spec (s := s) (hlen ▸ hs : s.fits d'.length)
  rw [hdec]
  congr 1
  refine BitVec.eq_of_getLsbD_eq fun i _ => ?_
  rw [hb, BitVec.getLsbD_and, getLsbD_bitMask]
  by_cases hi : i < s.bitLength
  · rw [hw.read _ (rank_lt hi), rank_rank hi]
    have := hs.2.1
    simp [hi, show i < 64 by omega]
  · simp [hi]

/-- What a fitting encode leaves for a fitting decode of a disjoint run. -/
theorem decodeRaw_of_disjoint (hs : s.fits data.length) (ht : t.fits data.length)
    (hd : Disjoint s.run t.run) (raw : BitVec 64) :
    (s.encodeRaw raw data).bind t.decodeRaw = t.decodeRaw data := by
  obtain ⟨d, he, hlen, hw⟩ := encodeRaw_spec hs raw
  obtain ⟨w, hdec, hb⟩ := decodeRaw_spec ht
  obtain ⟨w', hdec', hb'⟩ := decodeRaw_spec (s := t) (hlen ▸ ht : t.fits d.length)
  rw [he, Option.bind_some, hdec, hdec']
  congr 1
  refine BitVec.eq_of_getLsbD_eq fun i _ => ?_
  rw [hb', hb]
  by_cases hi : i < t.bitLength
  · rw [hw.read_of_disjoint hd (rank_lt hi)]
  · simp [hi]

/-- **The law of the codec.**  An encode followed by a decode of the same layout
returns the value masked to the signal's length; every bit outside the run is
unchanged; and for layouts with disjoint runs, whatever their byte orders, the
two encodes commute and neither changes what the other decodes to. -/
theorem encodeRaw_decodeRaw_law (hs : s.fits data.length) (raw : BitVec 64) :
    (∃ d, s.encodeRaw raw data = some d ∧ d.length = data.length ∧
      s.decodeRaw d = some (raw &&& bitMask s.bitLength) ∧
      ∀ a ∉ s.run, bitOf d a = bitOf data a) ∧
    ∀ t : SignalLayout, t.fits data.length → Disjoint s.run t.run → ∀ raw' : BitVec 64,
      (s.encodeRaw raw data).bind (t.encodeRaw raw') =
        (t.encodeRaw raw' data).bind (s.encodeRaw raw) ∧
      (s.encodeRaw raw data).bind t.decodeRaw = t.decodeRaw data ∧
      (t.encodeRaw raw' data).bind s.decodeRaw = s.decodeRaw data := by
  obtain ⟨d, he, hlen, hw⟩ := encodeRaw_spec hs raw
  refine ⟨⟨d, he, hlen, decodeRaw_encodeRaw hs he, hw.frame⟩, fun t ht hd raw' =>
    ⟨?_, decodeRaw_of_disjoint hs ht hd raw, decodeRaw_of_disjoint ht hs hd.symm raw'⟩⟩
  obtain ⟨d', he', hlen', hw'⟩ := encodeRaw_spec ht raw'
  obtain ⟨e, hee, hle, hwe⟩ := encodeRaw_spec (s := t) (hlen ▸ ht : t.fits d.length) raw'
  obtain ⟨e', hee', hle', hwe'⟩ := encodeRaw_spec (s := s) (hlen' ▸ hs : s.fits d'.length) raw
  rw [he, he', Option.bind_some, Option.bind_some, hee, hee',
    ext_bitOf (by omega) (Writes.comm hd hw hwe hw' hwe')]

/-- A twelve-bit Motorola signal and a four-bit Intel one that share byte 1. -/
theorem encodeRaw_decodeRaw_law_shared_byte :
    (({ startBit := 7, bitLength := 12, byteOrder := .motorola } : SignalLayout).encodeRaw 0xABC
        [0#8, 0x0F#8]).bind
      ({ startBit := 8, bitLength := 4, byteOrder := .intel } : SignalLayout).decodeRaw =
    ({ startBit := 8, bitLength := 4, byteOrder := .intel } : SignalLayout).decodeRaw
      [0#8, 0x0F#8] := by
  refine ((encodeRaw_decodeRaw_law (s := { startBit := 7, bitLength := 12, byteOrder := .motorola })
    (show SignalLayout.fits _ [0#8, 0x0F#8].length from by decide) 0xABC).2
    { startBit := 8, bitLength := 4 } (by decide)
    ?_ 0).2.1
  rw [Set.disjoint_left]
  rintro ⟨i, k⟩ h h'
  have hk : k < 8 := snd_lt_of_mem_run h
  rw [mem_run_motorola rfl hk] at h
  rw [mem_run_intel rfl hk] at h'
  simp only [canonicalStart] at h h'
  omega

end SignalLayout

end Core
end Canforge
