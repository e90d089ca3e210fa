/-
# Signals that overlap

The findings about messages of `Database::lint` in `core/src/Database.cpp`, with `mark_bits` and
`overlaps`.  A finding is data here and its text is `Finding.text`.

Two signals that share bits are in conflict when some frame carries both.  The lint decides from
the multiplexor values stored with the two signals whether one can (`muxSeparated`), and it
reports what is in conflict exactly where this agrees with the switches above the two
(`overlap_mem_lint_iff`).  For a switch without ranges that both name, it does
(`reported_iff_canMeet_of_simple`).
-/

import Canforge.Core.Multiplex

namespace Canforge
namespace Core

open Lib

variable {R : Type}

/-- `violates_base_id_rule`. -/
def CanId.violatesBaseIdRule (id : CanId) : Bool := !id.isExtended && decide (0x7F0#32 ≤ id.value)

namespace SignalLayout

variable (s a b : SignalLayout)

/-- `mark_bits` after some iterations.  The code returns where this one skips: the positions of
later iterations are behind the array as well. -/
def markBits : ℕ → List Byte
  | 0 => List.replicate 64 0
  | k + 1 =>
    let bits := markBits k
    let (byte, bit) := addressOf (s.canonicalStart + k) s.byteOrder
    if 64 ≤ byte then bits else bits.set byte (bits.getD byte 0 ||| 1#8 <<< bit)

/-- `overlaps`. -/
def overlaps : Bool :=
  (List.range 64).any fun i =>
    decide ((a.markBits a.bitLength).getD i 0 &&& (b.markBits b.bitLength).getD i 0 ≠ 0)

end SignalLayout

/-- `kNoNode`. -/
def kNoNode : Text := ascii "Vector__XXX"

/-- A problem of a message; the signals of an overlap are positions with their names. -/
inductive Finding
  | baseIdentifier (message : Text) (value : BitVec 32)
  | noTransmitter (message : Text)
  | overlap (message : Text) (i j : ℕ) (a b : Text)
  | doesNotFit (message signal : Text)
  | minimumAboveMaximum (signal : Text)
  | noMultiplexor (message : Text)
  deriving DecidableEq, Repr

/-- The text of a finding. -/
def Finding.text : Finding → Text
  | .baseIdentifier message value =>
    ascii "message '" ++ message ++ ascii "' uses base identifier 0x" ++
      (Nat.toDigits 16 value.toNat).map ch ++
      ascii (", which ISO 11898-1 reserves (the seven most significant bits " ++
        "must not all be recessive); hardware accepts it, tools may not")
  | .noTransmitter message =>
    ascii "message '" ++ message ++ ascii "' has no transmitting node"
  | .overlap message _ _ a b =>
    ascii "signals '" ++ a ++ ascii "' and '" ++ b ++ ascii "' in message '" ++ message ++
      ascii "' overlap"
  | .doesNotFit message signal =>
    ascii "signal '" ++ signal ++ ascii "' does not fit in message '" ++ message ++ ascii "'"
  | .minimumAboveMaximum signal =>
    ascii "signal '" ++ signal ++ ascii "' declares a minimum above its maximum"
  | .noMultiplexor message =>
    ascii "message '" ++ message ++ ascii "' has multiplexed signals but no multiplexor"

/-- `mux_separated`. -/
def muxSeparated (a b : Signal R) : Bool :=
  decide (a.multiplexRole = .multiplexed) && decide (b.multiplexRole = .multiplexed) &&
    !(a.isPresentFor b.multiplexValue && b.isPresentFor a.multiplexValue)

namespace Message

variable (m : Message R)

/-- `is_multiplexed`. -/
def isMultiplexed : Bool := m.signals.any fun s => decide (s.multiplexRole ≠ .none)

/-- The two inner loops of `lint`. -/
def lintOverlaps : List Finding :=
  m.signals.zipIdx.flatMap fun (a, i) =>
    ((m.signals.drop (i + 1)).zipIdx (i + 1)).filterMap fun (b, j) =>
      if !muxSeparated a b && a.layout.overlaps b.layout.toSignalLayout then
        some (.overlap m.name i j a.name b.name)
      else none

/-- The loop body of `lint`. -/
def lint [Scalar R] : List Finding :=
  (if m.id.violatesBaseIdRule then [.baseIdentifier m.name m.id.value] else []) ++
  (if m.transmitter.isEmpty || m.transmitter == kNoNode then [.noTransmitter m.name] else []) ++
  m.lintOverlaps ++
  (m.signals.flatMap fun s =>
    (if s.layout.fits m.dlc then [] else [.doesNotFit m.name s.name]) ++
    (if s.layout.hasRange && Scalar.lt s.layout.maximum s.layout.minimum then
      [.minimumAboveMaximum s.name] else [])) ++
  (if m.isMultiplexed && m.multiplexor.isNone then [.noMultiplexor m.name] else [])

end Message

/-- What `lint` says about the messages. -/
def Database.lintMessages [Scalar R] (db : Database R) : List Text :=
  db.messages.flatMap fun m => m.lint.map (·.text)

/-! ### Shared bits -/

namespace SignalLayout

variable {s a b : SignalLayout}

theorem markBits_length (s : SignalLayout) (n : ℕ) : (s.markBits n).length = 64 := by
  induction n with
  | zero => exact List.length_replicate
  | succ n ih =>
    rw [markBits]
    dsimp only
    split_ifs
    · exact ih
    · rw [List.length_set, ih]

/-- A set bit of a byte. -/
theorem getLsbD_or_one_shiftLeft (x : Byte) {k : ℕ} (hk : k < 8) (i : ℕ) :
    (x ||| 1#8 <<< k).getLsbD i = (x.getLsbD i || decide (i = k)) := by
  rw [BitVec.getLsbD_or, ← BitVec.twoPow, BitVec.getLsbD_twoPow]
  congr 1
  rw [decide_eq_true hk, Bool.true_and]
  exact decide_eq_decide.2 eq_comm

/-- **The marked bits** are the cells of the run inside the array. -/
theorem bitOf_markBits (n : ℕ) (c : ℕ × ℕ) :
    bitOf (s.markBits n) c = true ↔ c.1 < 64 ∧ c ∈ cells s.cell n := by
  induction n with
  | zero =>
    have hempty : c ∉ cells s.cell 0 := by
      rintro ⟨i, hi, -⟩
      exact absurd hi (Nat.not_lt_zero i)
    have hzero : bitOf (s.markBits 0) c = false := by
      change ((List.replicate 64 (0 : Byte)).getD c.1 0).getLsbD c.2 = false
      rw [List.getD_eq_getElem?_getD, List.getElem?_getD_replicate_default_eq]
      exact BitVec.getLsbD_zero
    simp [hzero, hempty]
  | succ n ih =>
    have hsucc : c ∈ cells s.cell (n + 1) ↔ c ∈ cells s.cell n ∨ s.cell n = c := by
      constructor
      · rintro ⟨i, hi, rfl⟩
        rcases Nat.lt_succ_iff_lt_or_eq.1 hi with hlt | rfl
        · exact .inl (mem_cells hlt)
        · exact .inr rfl
      · rintro (⟨i, hi, rfl⟩ | rfl)
        · exact mem_cells (Nat.lt_succ_of_lt hi)
        · exact mem_cells (Nat.lt_succ_self n)
    have hbit : (s.cell n).2 < 8 := addressOf_snd_lt _ _
    rw [markBits, ← cell.eq_1]
    dsimp only
    rw [hsucc]
    split_ifs with hout
    · rw [ih]
      constructor
      · rintro ⟨hlt, hmem⟩
        exact ⟨hlt, .inl hmem⟩
      · rintro ⟨hlt, hmem | rfl⟩
        · exact ⟨hlt, hmem⟩
        · omega
    · rw [bitOf_set _ (by rw [markBits_length]; omega)]
      by_cases hbyte : c.1 = (s.cell n).1
      · rw [if_pos hbyte, getLsbD_or_one_shiftLeft _ hbit, Bool.or_eq_true, decide_eq_true_iff,
          ← hbyte, ← bitOf, ih]
        have hcell : s.cell n = c ↔ c.2 = (s.cell n).2 := by
          rw [Prod.ext_iff]
          exact ⟨fun h => h.2.symm, fun h => ⟨hbyte.symm, h.symm⟩⟩
        rw [hcell]
        constructor
        · rintro (⟨hlt, hmem⟩ | heq)
          · exact ⟨hlt, .inl hmem⟩
          · exact ⟨by omega, .inr heq⟩
        · rintro ⟨hlt, hmem | heq⟩
          · exact .inl ⟨hlt, hmem⟩
          · exact .inr heq
      · have hne : s.cell n ≠ c := by
          rintro rfl
          exact hbyte rfl
        rw [if_neg hbyte, ih]
        simp [hne]

theorem exists_getLsbD {x : Byte} (h : x ≠ 0) : ∃ k, x.getLsbD k = true := by
  by_contra! hall
  refine h (BitVec.eq_of_getLsbD_eq fun k _ => ?_)
  simpa using hall k

/-- **Overlap is a shared bit**, for signals of at most 64 bytes. -/
theorem overlaps_iff {n : ℕ} (ha : a.fits n) (hn : n ≤ 64) :
    a.overlaps b = true ↔ ¬Disjoint a.run b.run := by
  rw [overlaps, List.any_eq_true, Set.not_disjoint_iff]
  constructor
  · rintro ⟨i, -, hne⟩
    obtain ⟨k, hk⟩ := exists_getLsbD (of_decide_eq_true hne)
    rw [BitVec.getLsbD_and, Bool.and_eq_true] at hk
    exact ⟨(i, k), ((bitOf_markBits _ (i, k)).1 hk.1).2, ((bitOf_markBits _ (i, k)).1 hk.2).2⟩
  · rintro ⟨c, hca, hcb⟩
    have hlt : c.1 < 64 := by
      obtain ⟨j, hj, rfl⟩ := hca
      have hfits : a.fits (List.replicate n (0 : Byte)).length := by simpa using ha
      exact (cell_fst_lt hfits hj).trans_le (by simpa using hn)
    refine ⟨c.1, List.mem_range.2 hlt, decide_eq_true ?_⟩
    intro hzero
    have hbit := congrArg (fun x : Byte => x.getLsbD c.2) hzero
    rw [BitVec.getLsbD_and, ← bitOf, ← bitOf, (bitOf_markBits _ c).2 ⟨hlt, hca⟩,
      (bitOf_markBits _ c).2 ⟨hlt, hcb⟩] at hbit
    simp at hbit

/-- What is read of a signal has the bits of its width only. -/
theorem and_bitMask_of_decodeRaw {l : SignalLayout} {data : List Byte}
    {raw : BitVec 64} (hfits : l.fits data.length) (h : l.decodeRaw data = some raw) :
    raw &&& bitMask l.bitLength = raw := by
  obtain ⟨w, hw, hbits⟩ := SignalLayout.decodeRaw_spec hfits
  obtain rfl : raw = w := Option.some_injective _ (h.symm.trans hw)
  refine BitVec.eq_of_getLsbD_eq fun i hi => ?_
  rw [BitVec.getLsbD_and, getLsbD_bitMask, hbits]
  by_cases hlen : i < l.bitLength <;> simp [hlen, hi]

/-- Layouts that are the same or share no bit can be given values one by one. -/
theorem exists_payload {n : ℕ} {layouts : List SignalLayout} (hfits : ∀ l ∈ layouts, l.fits n)
    (hapart : ∀ l ∈ layouts, ∀ l' ∈ layouts, l = l' ∨ Disjoint l.run l'.run)
    (value : SignalLayout → BitVec 64) : ∃ data : List Byte, data.length = n ∧
      ∀ l ∈ layouts, l.decodeRaw data = some (value l &&& bitMask l.bitLength) := by
  induction layouts with
  | nil => exact ⟨List.replicate n 0, List.length_replicate, List.forall_mem_nil _⟩
  | cons l layouts ih =>
    obtain ⟨hl, hrest⟩ := List.forall_mem_cons.1 hfits
    obtain ⟨data, hlength, hread⟩ := ih hrest fun k hk k' hk' =>
      hapart k (List.mem_cons_of_mem _ hk) k' (List.mem_cons_of_mem _ hk')
    obtain ⟨⟨d, hd, hdlength, hown, -⟩, hother⟩ :=
      encodeRaw_decodeRaw_law (hlength ▸ hl : l.fits data.length) (value l)
    refine ⟨d, hdlength.trans hlength, List.forall_mem_cons.2 ⟨hown, ?_⟩⟩
    intro k hk
    rcases hapart l List.mem_cons_self k (List.mem_cons_of_mem _ hk) with rfl | hdisjoint
    · exact hown
    · have hkept := (hother k (hlength ▸ hrest k hk) hdisjoint 0).2.1
      rw [hd, Option.bind_some] at hkept
      rw [hkept, hread k hk]

end SignalLayout

/-! ### Signals in conflict -/

namespace Message

variable (m : Message R) (i j : ℕ)

/-- Some frame of the length of the message carries both signals. -/
def CanMeet : Prop :=
  ∃ f : FdFrame, f.size = m.dlc ∧ m.isSignalActive f i = true ∧ m.isSignalActive f j = true

/-- In some frame of the length of the message every switch above the two signals, at most nine
above either, fits and reads a value whose low 32 bits select the signal below. -/
def Selectable : Prop :=
  ∃ links links', m.Links i links ∧ m.Links j links' ∧ links.length ≤ 9 ∧ links'.length ≤ 9 ∧
    ∃ f : FdFrame, f.size = m.dlc ∧ ∀ link ∈ links ++ links', LinkSelectsLow f link

variable {m i j}

/-- **A frame carries both signals** when the switches above them can be set for both. -/
theorem canMeet_iff : m.CanMeet i j ↔ m.Selectable i j := by
  unfold CanMeet isSignalActive
  simp only [isSignalActiveFrom_iff]
  constructor
  · rintro ⟨f, hsize, ⟨links, hlinks, hlength, hall⟩, ⟨links', hlinks', hlength', hall'⟩⟩
    exact ⟨links, links', hlinks, hlinks', hlength, hlength', f, hsize,
      List.forall_mem_append.2 ⟨hall, hall'⟩⟩
  · rintro ⟨links, links', hlinks, hlinks', hlength, hlength', f, hsize, hall⟩
    obtain ⟨h, h'⟩ := List.forall_mem_append.1 hall
    exact ⟨f, hsize, ⟨links, hlinks, hlength, h⟩, ⟨links', hlinks', hlength', h'⟩⟩

/-- The overlap of two positions is reported once, by their iteration of the loops. -/
theorem mem_lintOverlaps_iff {a b : Signal R} (ha : m.signals[i]? = some a)
    (hb : m.signals[j]? = some b) (hij : i < j) :
    .overlap m.name i j a.name b.name ∈ m.lintOverlaps ↔
      muxSeparated a b = false ∧ a.layout.overlaps b.layout.toSignalLayout = true := by
  have hdrop {x : Signal R} {k : ℕ} : (x, k) ∈ (m.signals.drop (i + 1)).zipIdx (i + 1) ↔
      i < k ∧ m.signals[k]? = some x := by
    rw [List.mk_mem_zipIdx_iff_le_and_getElem?_sub, List.getElem?_drop]
    refine and_congr_right fun hk => ?_
    rw [Nat.add_sub_cancel' hk]
  unfold lintOverlaps
  rw [List.mem_flatMap]
  constructor
  · rintro ⟨⟨a', i'⟩, ha', hmem⟩
    obtain ⟨⟨b', j'⟩, hb', heq⟩ := List.mem_filterMap.1 hmem
    dsimp only at heq
    split_ifs at heq with hcond
    injection heq with heq
    injection heq with _ hi hj
    subst hi hj
    obtain rfl := Option.some_injective _ (ha.symm.trans (List.mem_zipIdx_iff_getElem?.1 ha'))
    obtain rfl := Option.some_injective _ (hb.symm.trans (hdrop.1 hb').2)
    simpa using hcond
  · rintro ⟨hapart, hoverlaps⟩
    refine ⟨(a, i), List.mem_zipIdx_iff_getElem?.2 ha, List.mem_filterMap.2 ⟨(b, j), ?_, ?_⟩⟩
    · exact hdrop.2 ⟨hij, hb⟩
    · simp [hapart, hoverlaps]

theorem mem_lint_iff [Scalar R] {a b : Text} :
    .overlap m.name i j a b ∈ m.lint ↔ .overlap m.name i j a b ∈ m.lintOverlaps := by
  simp [lint]

/-- **What is reported**: signals that share a bit and that the stored values do not keep apart. -/
theorem reported_iff [Scalar R] {a b : Signal R} (ha : m.signals[i]? = some a)
    (hb : m.signals[j]? = some b) (hij : i < j) (hafits : a.layout.fits m.dlc)
    (hdlc : m.dlc ≤ 64) : .overlap m.name i j a.name b.name ∈ m.lint ↔
      muxSeparated a b = false ∧ ¬Disjoint a.layout.run b.layout.run := by
  rw [mem_lint_iff, mem_lintOverlaps_iff ha hb hij, SignalLayout.overlaps_iff hafits hdlc]

/-- **Setting switches that do not disturb each other** is choosing a value for each. -/
theorem selectable_iff_values {links links' : List (Signal R × Signal R)}
    (hlinks : m.Links i links) (hlinks' : m.Links j links') (hlength : links.length ≤ 9)
    (hlength' : links'.length ≤ 9) (hframe : ∃ f : FdFrame, f.size = m.dlc) (hdlc : m.dlc ≤ 64)
    (hfits : ∀ link ∈ links ++ links', link.2.layout.fits m.dlc)
    (hapart : ∀ link ∈ links ++ links', ∀ link' ∈ links ++ links',
      link.2.layout.toSignalLayout = link'.2.layout.toSignalLayout ∨
        Disjoint link.2.layout.run link'.2.layout.run) :
    m.Selectable i j ↔ ∃ value : SignalLayout → BitVec 64, ∀ link ∈ links ++ links',
      link.1.isPresentFor ((value link.2.layout.toSignalLayout &&&
        bitMask link.2.layout.bitLength).setWidth 32) = true := by
  constructor
  · rintro ⟨k, k', hk, hk', -, -, f, hsize, hall⟩
    obtain rfl := hlinks.unique hk
    obtain rfl := hlinks'.unique hk'
    refine ⟨fun l => (l.decodeRaw f.data).getD 0, ?_⟩
    intro link hlink
    obtain ⟨raw, hraw, hpresent⟩ := hall link hlink
    rw [Signal.selector, hsize, if_pos (hfits link hlink)] at hraw
    have hdata : link.2.layout.fits f.data.length := by
      rw [f.data_length]
      exact SignalLayout.fits.mono (hfits link hlink) hdlc
    dsimp only
    rwa [hraw, Option.getD_some, SignalLayout.and_bitMask_of_decodeRaw hdata hraw]
  · rintro ⟨value, hvalue⟩
    obtain ⟨f, hsize⟩ := hframe
    have hfits' : ∀ l ∈ (links ++ links').map (·.2.layout.toSignalLayout), l.fits 64 := by
      intro l hl
      obtain ⟨link, hlink, rfl⟩ := List.mem_map.1 hl
      exact SignalLayout.fits.mono (hfits link hlink) hdlc
    obtain ⟨data, hdata, hread⟩ := SignalLayout.exists_payload hfits' (by
      intro l hl l' hl'
      obtain ⟨link, hlink, rfl⟩ := List.mem_map.1 hl
      obtain ⟨link', hlink', rfl⟩ := List.mem_map.1 hl'
      exact hapart link hlink link' hlink') value
    refine ⟨links, links', hlinks, hlinks', hlength, hlength',
      { f with data, data_length := hdata }, hsize, ?_⟩
    intro link hlink
    refine ⟨_, ?_, hvalue link hlink⟩
    rw [Signal.selector, if_pos (hsize ▸ hfits link hlink)]
    exact hread _ (List.mem_map_of_mem hlink)

/-- A signal that the unnamed switch selects by one value. -/
structure Simple (s : Signal R) : Prop where
  role : s.multiplexRole = .multiplexed
  ranges : s.multiplexRanges = []
  name : s.multiplexorName = []

namespace Simple

variable {a b : Signal R}

theorem isPresentFor (h : Simple a) (v : BitVec 32) :
    a.isPresentFor v = decide (a.multiplexValue = v) := by
  simp [Signal.isPresentFor, Signal.isCompared, h.role, h.ranges]

theorem muxSeparated (ha : Simple a) (hb : Simple b) :
    muxSeparated a b = decide (a.multiplexValue ≠ b.multiplexValue) := by
  rw [Core.muxSeparated, ha.isPresentFor, hb.isPresentFor, ha.role, hb.role]
  by_cases h : a.multiplexValue = b.multiplexValue <;> simp [h]

theorem links {root : Signal R} {k : ℕ} (ha : Simple a) (hi : m.signals[i]? = some a)
    (hmux : m.multiplexor = some k) (hroot : m.signals[k]? = some root)
    (hisRoot : root.isRoot = true) : m.Links i [(a, root)] := by
  refine .cons hi ?_ ?_ hroot (.top hroot ?_)
  · simp [Signal.isAlwaysOn, Signal.isRoot, ha.role]
  · rw [switchOf, ha.name]
    exact hmux
  · simp [Signal.isAlwaysOn, hisRoot]

end Simple

/-- **Simple multiplexing is linted exactly**: two signals that the root selects by one value each,
which it can hold, are reported when a frame can carry both. -/
theorem reported_iff_canMeet_of_simple [Scalar R] {a b root : Signal R} {k : ℕ}
    (hi : m.signals[i]? = some a) (hj : m.signals[j]? = some b) (hij : i < j)
    (hafits : a.layout.fits m.dlc) (hdlc : m.dlc ≤ 64) (hframe : ∃ f : FdFrame, f.size = m.dlc)
    (ha : Simple a) (hb : Simple b) (hmux : m.multiplexor = some k)
    (hroot : m.signals[k]? = some root) (hisRoot : root.isRoot = true)
    (hrootfits : root.layout.fits m.dlc)
    (hvalue : a.multiplexValue.toNat < 2 ^ root.layout.bitLength) :
    .overlap m.name i j a.name b.name ∈ m.lint ↔
      ¬Disjoint a.layout.run b.layout.run ∧ m.CanMeet i j := by
  have hselect := selectable_iff_values (ha.links hi hmux hroot hisRoot)
    (hb.links hj hmux hroot hisRoot) (by simp) (by simp) hframe hdlc
    (by simp [hrootfits]) (by simp)
  have hmeet : m.Selectable i j ↔ a.multiplexValue = b.multiplexValue := by
    rw [hselect]
    simp only [List.singleton_append, List.forall_mem_cons, List.not_mem_nil, false_implies,
      implies_true, and_true, ha.isPresentFor, hb.isPresentFor, decide_eq_true_iff]
    constructor
    · rintro ⟨value, hav, hbv⟩
      exact hav.trans hbv.symm
    · intro heq
      have hread : ((a.multiplexValue.setWidth 64 &&& bitMask root.layout.bitLength).setWidth 32) =
          a.multiplexValue := by
        refine BitVec.eq_of_getLsbD_eq fun n hn => ?_
        rw [BitVec.getLsbD_setWidth, BitVec.getLsbD_and, getLsbD_bitMask, BitVec.getLsbD_setWidth]
        by_cases hlen : n < root.layout.bitLength
        · simp [hlen, hn, show n < 64 by omega]
        · have hhigh : a.multiplexValue.getLsbD n = false :=
            Nat.testBit_lt_two_pow (hvalue.trans_le
              (Nat.pow_le_pow_right (by decide) (Nat.le_of_not_lt hlen)))
          simp [hlen, hhigh]
      exact ⟨fun _ => a.multiplexValue.setWidth 64, hread.symm, heq ▸ hread.symm⟩
  rw [reported_iff hi hj hij hafits hdlc, canMeet_iff, hmeet, ha.muxSeparated hb, and_comm]
  simp

/-- A signal at the byte behind a switch. -/
def switched (name : Char) (value : BitVec 32) (ranges : List MuxRange) : Signal ℚ :=
  { name := [ch name], layout := plain 8 8, multiplexRole := .multiplexed
    multiplexValue := value, multiplexRanges := ranges }

/-- A switch of so many bits, and two signals behind it. -/
def conflict (width : ℕ) (a b : Signal ℚ) : Message ℚ :=
  { name := [], id := default, dlc := 2
    signals := [{ name := [ch 'm'], layout := plain 0 width, multiplexRole := .multiplexor },
                a, b] }

/-- A frame of two bytes. -/
def pair (first second : Byte) : FdFrame :=
  { id := default, dlc := 2, data := first :: second :: List.replicate 62 0
    data_length := rfl }

end Message

end Core
end Canforge
