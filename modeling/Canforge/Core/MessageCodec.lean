/-
# Whole messages

`Message::encode` of `core/src/Message.cpp`, and `for_each_active_signal` and `decode` of
`core/include/canforge/core/Message.hpp`.

An encoding writes the start values of all the signals that declare one, then the named values,
and the last write over a bit is the one that is sent.  Start values of signals that are not
active are written as well, so an unnamed active signal carries its own start value exactly when
no later one was written over its bits with another content (`decode_encode_iff`).
-/

import Canforge.Core.Multiplex

namespace Canforge
namespace Core

open Lib

variable {R : Type} [Scalar R]

/-- A loop of steps that may fail; `none` is a step outside its buffer. -/
def tryEach {α β : Type} (step : β → α → Option (Result β)) (b : β) : List α → Option (Result β)
  | [] => some (.ok b)
  | a :: rest =>
    match step b a with
    | none => none
    | some (.error e) => some (.error e)
    | some (.ok b') => tryEach step b' rest

/-- `DecodedSignal`; the signal is its position. -/
structure DecodedSignal (R : Type) where
  signal : ℕ
  raw : BitVec 64
  value : R

namespace Signal

variable (s : Signal R)

omit [Scalar R] in
/-- The start value that a signal declares. -/
def startValue : Option R := (s.attributes.find (ascii "GenSigStartValue")).map (·.number)

/-- The first loop body of `Message::encode`. -/
def writeStart (frame : Frame) (s : Signal R) : Option (Result Frame) :=
  match s.startValue with
  | none => some (.ok frame)
  | some v =>
    if s.layout.fits frame.size then
      (s.layout.encode v frame.data).map fun r => r.map frame.setData
    else some (.ok frame)

end Signal

namespace Message

variable (m : Message R)

/-- The second loop body of `Message::encode`. -/
def writeValue (frame : Frame) (named : Text × R) : Option (Result Frame) :=
  match m.findSignal named.1 with
  | none => some (.error ⟨.codecUnknownSignal, "no signal with that name in this message", (0, 0)⟩)
  | some s => (s.encode frame named.2).map fun r => r.1.map fun _ => r.2

/-- `encode`. -/
def encode (values : List (Text × R)) : Option (Result Frame) :=
  if 8 < m.dlc then
    some (.error ⟨.framePayloadTooLarge,
      "message is larger than a classic CAN frame; use FdFrame", (m.dlc, 8)⟩)
  else
    match BasicFrame.makeEmpty 8 m.id m.dlc with
    | .error e => some (.error e)
    | .ok frame =>
      match tryEach Signal.writeStart frame m.signals with
      | none => none
      | some (.error e) => some (.error e)
      | some (.ok frame) => tryEach m.writeValue frame values

variable {capacity : ℕ} (f : BasicFrame capacity)

/-- `for_each_active_signal` of some signals and their positions. -/
def forEachActiveSignal : List (Signal R × ℕ) → Option (List (DecodedSignal R))
  | [] => some []
  | (s, i) :: rest =>
    if ¬s.layout.fits f.size then forEachActiveSignal rest
    else if ¬m.isSignalActive f i then forEachActiveSignal rest
    else do
      let raw ← s.layout.decodeRaw f.data
      let decoded ← forEachActiveSignal rest
      return ⟨i, raw, s.layout.rawToPhysical raw⟩ :: decoded

/-- `decode`. -/
def decode : Option (List (DecodedSignal R)) := m.forEachActiveSignal f m.signals.zipIdx

end Message

/-! ### What a message is to carry -/

omit [Scalar R] in
/-- The last value given for a name. -/
def lastValue (values : List (Text × R)) (name : Text) : Option R :=
  (values.reverse.find? (·.1 = name)).map (·.2)

/-- The raw value a signal is to carry: of the last value given for it, else of its start value,
else zero. -/
def Signal.wanted (s : Signal R) (values : List (Text × R)) : BitVec 64 :=
  match lastValue values s.name with
  | some v => s.layout.physicalToRaw v
  | none =>
    match s.startValue with
    | some v => s.layout.physicalToRaw v
    | none => 0

/-- What the start value of a signal puts at a cell, if anything. -/
def Signal.startBitAt (s : Signal R) (a : ℕ × ℕ) : Option Bool :=
  s.startValue.bind fun v => stored s.layout.cell s.layout.bitLength
    (fun j => (s.layout.physicalToRaw v).getLsbD (s.layout.rank j)) a

namespace Message

variable (m : Message R) {capacity : ℕ} (f : BasicFrame capacity) (values : List (Text × R))

/-- The active signals and what each is to carry. -/
def wanted : List (DecodedSignal R) :=
  (m.signals.zipIdx.filter fun p => m.isSignalActive f p.2).map fun p =>
    ⟨p.2, p.1.wanted values, p.1.layout.rawToPhysical (p.1.wanted values)⟩

/-- What the start value that is written last over a cell puts there. -/
def startBit (a : ℕ × ℕ) : Bool := (m.signals.reverse.findSome? (·.startBitAt a)).getD false

omit [Scalar R] in
/-- Active signals share no bit. -/
def ActiveDisjoint : Prop :=
  ∀ {i j : ℕ} {s t : Signal R}, m.signals[i]? = some s → m.signals[j]? = some t → i ≠ j →
    m.isSignalActive f i = true → m.isSignalActive f j = true →
    Disjoint s.layout.run t.layout.run

omit [Scalar R] in
/-- Named signals are active. -/
def NamedActive : Prop :=
  ∀ {i : ℕ} {s : Signal R}, m.signals[i]? = some s → s.name ∈ values.map (·.1) →
    m.isSignalActive f i = true

/-- At every bit of an unnamed active signal the start value written last puts what the signal's
own start value puts, or zero when it has none. -/
def StartsKept : Prop :=
  ∀ {i : ℕ} {s : Signal R}, m.signals[i]? = some s → m.isSignalActive f i = true →
    s.name ∉ values.map (·.1) → ∀ j < s.layout.bitLength,
      m.startBit (s.layout.cell j) = (s.startBitAt (s.layout.cell j)).getD false

end Message

/-! ### What the writes leave -/

theorem tryEach_cons {α β : Type} {step : β → α → Option (Result β)} {a : α} {rest : List α}
    {b c : β} (h : tryEach step b (a :: rest) = some (.ok c)) :
    ∃ b', step b a = some (.ok b') ∧ tryEach step b' rest = some (.ok c) := by
  rw [tryEach] at h
  split at h
  · cases h
  · cases h
  · exact ⟨_, ‹_›, h⟩

theorem BasicFrame.setData_data {f : Frame} {d : List Byte} (h : d.length = 8) :
    (f.setData d).data = d := List.take_left' h

/-- **A successful encoding** puts its bits on the run and leaves the rest. -/
theorem ScaledLayout.encode_ok {s : ScaledLayout R} {v : R} {f : Frame} {d : List Byte}
    (hfits : s.fits f.data.length) (h : s.encode v f.data = some (.ok d)) :
    Writes s.cell s.bitLength (fun j => (s.physicalToRaw v).getLsbD (s.rank j))
      (bitOf f.data) (bitOf (f.setData d).data) := by
  obtain ⟨d', hencode, hlength, hwrites⟩ := SignalLayout.encodeRaw_spec hfits (s.physicalToRaw v)
  unfold encode at h
  split_ifs at h
  · cases h
  · rw [hencode] at h
    cases h
    rwa [BasicFrame.setData_data (hlength.trans f.data_length)]

namespace Signal

variable {s : Signal R} {f f' : Frame}

/-- What a start value leaves. -/
theorem writeStart_ok (hfits : s.layout.fits f.size) (hsize : f.size ≤ 8)
    (h : writeStart f s = some (.ok f')) : f'.size = f.size ∧
      ∀ a, bitOf f'.data a = (s.startBitAt a).getD (bitOf f.data a) := by
  unfold writeStart at h
  unfold startBitAt
  cases hstart : s.startValue with
  | none =>
    rw [hstart] at h
    cases h
    exact ⟨rfl, fun a => rfl⟩
  | some v =>
    simp only [hstart, if_pos hfits, Option.map_eq_some_iff] at h
    obtain ⟨r, hencode, hr⟩ := h
    cases r with
    | error e => cases hr
    | ok d =>
      cases hr
      have hdata : s.layout.fits f.data.length := by
        rw [f.data_length]
        exact hfits.mono hsize
      exact ⟨rfl, (ScaledLayout.encode_ok hdata hencode).eq_stored⟩

/-- What a named value leaves. -/
theorem encode_ok {v : R} (hfits : s.layout.fits f.size) (hsize : f.size ≤ 8)
    (h : s.encode f v = some (.ok (), f')) : f'.size = f.size ∧
      Writes s.layout.cell s.layout.bitLength
        (fun j => (s.layout.physicalToRaw v).getLsbD (s.layout.rank j))
        (bitOf f.data) (bitOf f'.data) := by
  have hdata : s.layout.fits f.data.length := by
    rw [f.data_length]
    exact hfits.mono hsize
  rw [encode, if_pos hfits] at h
  cases hencode : s.layout.encode v f.data with
  | none => simp [hencode] at h
  | some r =>
    cases r with
    | error e => simp [hencode] at h
    | ok d =>
      simp only [hencode, Option.bind_eq_bind, Option.bind_some, Option.some.injEq,
        Prod.mk.injEq, true_and] at h
      rw [← h]
      exact ⟨rfl, ScaledLayout.encode_ok hdata hencode⟩

end Signal

/-- **The start values together**: at every cell the one written last is left. -/
theorem writeStarts_ok {signals : List (Signal R)} {f f' : Frame}
    (hfits : ∀ s ∈ signals, s.layout.fits f.size) (hsize : f.size ≤ 8)
    (h : tryEach Signal.writeStart f signals = some (.ok f')) : f'.size = f.size ∧
      ∀ a, bitOf f'.data a =
        (signals.reverse.findSome? (·.startBitAt a)).getD (bitOf f.data a) := by
  induction signals generalizing f with
  | nil =>
    cases h
    exact ⟨rfl, fun a => rfl⟩
  | cons s signals ih =>
    obtain ⟨f₁, hfirst, hrest⟩ := tryEach_cons h
    obtain ⟨hs, hsignals⟩ := List.forall_mem_cons.1 hfits
    obtain ⟨hsize₁, hbits₁⟩ := Signal.writeStart_ok hs hsize hfirst
    obtain ⟨hsize', hbits'⟩ := ih (by rwa [hsize₁]) (by rwa [hsize₁]) hrest
    refine ⟨hsize'.trans hsize₁, ?_⟩
    intro a
    rw [hbits', hbits₁, List.reverse_cons, List.findSome?_append]
    cases signals.reverse.findSome? (·.startBitAt a) with
    | none => cases hbit : s.startBitAt a <;> simp [hbit]
    | some b => rfl

/-- What `make_empty` makes. -/
theorem makeEmpty_ok (id : CanId) {n : ℕ} (h : n ≤ 8) : ∃ f : Frame,
    BasicFrame.makeEmpty 8 id n = .ok f ∧ f.size = n ∧ ∀ a, bitOf f.data a = false := by
  have hflags : BasicFrame.validateFlags 8 FrameFlags.none = .ok () := by decide
  have hfd : hasFlag FrameFlags.none FrameFlags.fd = false := by decide
  have hrtr : hasFlag FrameFlags.none FrameFlags.rtr = false := by decide
  have hdlc : lengthToDlc n false = .ok ⟨n, n, 0⟩ := by
    unfold lengthToDlc
    rw [if_neg (by simpa using h)]
    rfl
  unfold BasicFrame.makeEmpty BasicFrame.make
  rw [hflags, List.length_replicate]
  simp only [bind, Except.bind, pure, Except.pure]
  rw [if_neg (by simp [hrtr]), if_neg (by simpa using h), hfd, hdlc]
  refine ⟨_, rfl, ?_, ?_⟩
  · change (if hasFlag FrameFlags.none FrameFlags.rtr then 0 else
      dlcToLength n (hasFlag FrameFlags.none FrameFlags.fd)) = n
    rw [hrtr, hfd, if_neg Bool.false_ne_true, dlcToLength, if_neg (by omega),
      if_neg Bool.false_ne_true, if_neg (by omega)]
  · rintro ⟨i, b⟩
    have hstore : BasicFrame.store 8 (List.replicate n (0 : Byte)) = List.replicate 8 0 := by
      rw [BasicFrame.store, List.replicate_append_replicate, List.take_replicate,
        Nat.min_eq_left (Nat.le_add_left 8 n)]
    have hbyte : (List.replicate 8 (0 : Byte)).getD i 0 = 0 := by
      rw [List.getD_eq_getElem?_getD, List.getElem?_getD_replicate_default_eq]
    change ((BasicFrame.store 8 (List.replicate n (0 : Byte))).getD i 0).getLsbD b = false
    rw [hstore, hbyte]
    exact BitVec.getLsbD_zero

omit [Scalar R] in
theorem lastValue_cons (v : R) (values : List (Text × R)) (n name : Text) :
    lastValue ((n, v) :: values) name =
      (lastValue values name).or (if n = name then some v else none) := by
  unfold lastValue
  rw [List.reverse_cons, List.find?_append]
  cases values.reverse.find? (·.1 = name) with
  | none => by_cases h : n = name <;> simp [h]
  | some p => rfl

omit [Scalar R] in
theorem lastValue_eq_none_iff {values : List (Text × R)} {name : Text} :
    lastValue values name = none ↔ name ∉ values.map (·.1) := by
  rw [lastValue, Option.map_eq_none_iff, List.find?_eq_none, List.mem_map]
  constructor
  · rintro h ⟨p, hp, hname⟩
    exact h p (List.mem_reverse.2 hp) (decide_eq_true hname)
  · intro h p hp hname
    exact h ⟨p, List.mem_reverse.1 hp, of_decide_eq_true hname⟩

namespace Message

variable {m : Message R} {f f' : Frame} {values : List (Text × R)}

/-- A named value is written into a frame of the same size. -/
theorem writeValue_size {named : Text × R} (h : m.writeValue f named = some (.ok f')) :
    f'.size = f.size := by
  unfold writeValue at h
  cases hfind : m.findSignal named.1 with
  | none => simp [hfind] at h
  | some s =>
    simp only [hfind, Option.map_eq_some_iff] at h
    obtain ⟨⟨status, g⟩, hencode, hr⟩ := h
    cases status with
    | error e => cases hr
    | ok u =>
      cases hr
      unfold Signal.encode at hencode
      split_ifs at hencode with hfits
      · cases hd : s.layout.encode named.2 f.data with
        | none => simp [hd] at hencode
        | some r =>
          cases r with
          | error e => simp [hd] at hencode
          | ok d =>
            simp only [hd, Option.bind_eq_bind, Option.bind_some, Option.some.injEq,
              Prod.mk.injEq, true_and] at hencode
            rw [← hencode, BasicFrame.setData_size]
      · cases hencode

theorem writeValues_size (h : tryEach m.writeValue f values = some (.ok f')) :
    f'.size = f.size := by
  induction values generalizing f with
  | nil =>
    cases h
    rfl
  | cons named values ih =>
    obtain ⟨f₁, hfirst, hrest⟩ := tryEach_cons h
    rw [ih hrest, writeValue_size hfirst]

/-- **The named values together**, at a signal that shares no bit with another named one: the last
value given for it is left, and without one what was there. -/
theorem writeValues_ok {s : Signal R} (hfits : ∀ t ∈ m.signals, t.layout.fits f.size)
    (hsize : f.size ≤ 8)
    (hdisjoint : ∀ t ∈ m.signals, t.name ∈ values.map (·.1) →
      t = s ∨ t.name ≠ s.name ∧ Disjoint t.layout.run s.layout.run)
    (h : tryEach m.writeValue f values = some (.ok f')) {j : ℕ} (hj : j < s.layout.bitLength) :
    bitOf f'.data (s.layout.cell j) =
      match lastValue values s.name with
      | some v => (s.layout.physicalToRaw v).getLsbD (s.layout.rank j)
      | none => bitOf f.data (s.layout.cell j) := by
  induction values generalizing f with
  | nil =>
    cases h
    rfl
  | cons named values ih =>
    obtain ⟨n, v⟩ := named
    obtain ⟨f₁, hfirst, hrest⟩ := tryEach_cons h
    unfold writeValue at hfirst
    cases hfind : m.findSignal n with
    | none => simp [hfind] at hfirst
    | some t =>
      obtain ⟨ht, rfl⟩ := mem_of_findSignal hfind
      simp only [hfind, Option.map_eq_some_iff] at hfirst
      obtain ⟨⟨status, g⟩, hencode, hr⟩ := hfirst
      cases status with
      | error e => cases hr
      | ok u =>
        cases hr
        obtain ⟨hsize₁, hwrites⟩ := Signal.encode_ok (hfits t ht) hsize hencode
        rw [ih (by rwa [hsize₁]) (by rwa [hsize₁])
          (fun t ht hn => hdisjoint t ht (List.mem_cons_of_mem _ hn)) hrest, lastValue_cons]
        cases lastValue values s.name with
        | some w => rfl
        | none =>
          rcases hdisjoint t ht List.mem_cons_self with rfl | ⟨hne, hdisj⟩
          · simp [hwrites.read j hj]
          · simp [hne, hwrites.read_of_disjoint hdisj hj]

/-- The steps of an accepted encoding. -/
theorem encode_steps (hvalid : m.validate = .ok ()) (h : m.encode values = some (.ok f)) :
    f.size = m.dlc ∧ m.dlc ≤ 8 ∧ ∃ g : Frame, g.size = m.dlc ∧
      (∀ a, bitOf g.data a = m.startBit a) ∧ tryEach m.writeValue g values = some (.ok f) := by
  have hfits : ∀ t ∈ m.signals, t.layout.fits m.dlc := fun t ht =>
    ScaledLayout.fits_of_validate ((of_validate hvalid).2 t ht)
  unfold encode at h
  split_ifs at h with hlong
  · cases h
  have hdlc : m.dlc ≤ 8 := Nat.le_of_not_lt hlong
  obtain ⟨g, hempty, hsize, hzero⟩ := makeEmpty_ok m.id hdlc
  rw [hempty] at h
  dsimp only at h
  cases hstarts : tryEach Signal.writeStart g m.signals with
  | none => simp [hstarts] at h
  | some r =>
    cases r with
    | error e => simp [hstarts] at h
    | ok g₁ =>
      rw [hstarts] at h
      obtain ⟨hsize₁, hbits₁⟩ := writeStarts_ok (by rwa [hsize]) (by rwa [hsize]) hstarts
      refine ⟨(writeValues_size h).trans (hsize₁.trans hsize), hdlc, g₁, hsize₁.trans hsize, ?_, h⟩
      intro a
      rw [hbits₁, hzero, startBit]

/-- **Encoding, bit by bit**: what an accepted list of values leaves on a signal that shares no
bit with another named one. -/
theorem encode_ok {s : Signal R} (hvalid : m.validate = .ok ())
    (hencode : m.encode values = some (.ok f))
    (hdisjoint : ∀ t ∈ m.signals, t.name ∈ values.map (·.1) →
      t = s ∨ t.name ≠ s.name ∧ Disjoint t.layout.run s.layout.run)
    {j : ℕ} (hj : j < s.layout.bitLength) : bitOf f.data (s.layout.cell j) =
      match lastValue values s.name with
      | some v => (s.layout.physicalToRaw v).getLsbD (s.layout.rank j)
      | none => m.startBit (s.layout.cell j) := by
  obtain ⟨-, hdlc, g, hsize, hstart, hvalues⟩ := encode_steps hvalid hencode
  rw [← hstart]
  refine writeValues_ok ?_ (by rwa [hsize]) hdisjoint hvalues hj
  intro t ht
  rw [hsize]
  exact ScaledLayout.fits_of_validate ((of_validate hvalid).2 t ht)

/-- Decoding loops over the active signals, which all can be read. -/
theorem forEachActiveSignal_eq {raws : Signal R → BitVec 64}
    {signals : List (Signal R × ℕ)}
    (h : ∀ p ∈ signals, p.1.layout.fits f.size ∧ p.1.layout.decodeRaw f.data = some (raws p.1)) :
    m.forEachActiveSignal f signals =
      some ((signals.filter fun p => m.isSignalActive f p.2).map fun p =>
        ⟨p.2, raws p.1, p.1.layout.rawToPhysical (raws p.1)⟩) := by
  induction signals with
  | nil => rfl
  | cons p signals ih =>
    obtain ⟨s, i⟩ := p
    obtain ⟨⟨hfits, hraw⟩, hrest⟩ := List.forall_mem_cons.1 h
    rw [forEachActiveSignal, if_neg (not_not.2 hfits), ih hrest, List.filter_cons]
    by_cases hactive : m.isSignalActive f i = true
    · rw [if_neg (not_not.2 hactive), if_pos hactive, hraw]
      rfl
    · rw [if_pos hactive, if_neg hactive]

/-- A signal is at one position, and its name is at no other one. -/
theorem eq_of_name_eq (hvalid : m.validate = .ok ()) {i j : ℕ} {s t : Signal R}
    (hs : m.signals[i]? = some s) (ht : m.signals[j]? = some t) (hname : s.name = t.name) :
    i = j := by
  obtain ⟨hi, -⟩ := List.getElem?_eq_some_iff.1 hs
  refine (List.getElem?_inj (by simpa using hi) (names_nodup_of_validate hvalid)).1 ?_
  rw [List.getElem?_map, List.getElem?_map, hs, ht, Option.map_some, Option.map_some, hname]

/-- Active signals that share no bit keep apart in the sense of `encode_ok`. -/
theorem ActiveDisjoint.apart (hdisjoint : m.ActiveDisjoint f) (hvalid : m.validate = .ok ())
    (hnamed : m.NamedActive f values) {i : ℕ} {s : Signal R} (hs : m.signals[i]? = some s)
    (hactive : m.isSignalActive f i = true) : ∀ t ∈ m.signals, t.name ∈ values.map (·.1) →
      t = s ∨ t.name ≠ s.name ∧ Disjoint t.layout.run s.layout.run := by
  intro t ht hname
  obtain ⟨k, hk⟩ := List.mem_iff_getElem?.1 ht
  by_cases hki : k = i
  · obtain rfl := hki
    exact .inl (Option.some_injective _ (hk.symm.trans hs))
  · refine .inr ⟨?_, hdisjoint hk hs hki (hnamed hk hname) hactive⟩
    intro heq
    exact hki (eq_of_name_eq hvalid hk hs heq)

/-- The raw value of an integer signal has the bits of its width only. -/
theorem physicalToRaw_getLsbD {s : ScaledLayout R} (hinteger : s.valueType = .integer) (v : R)
    {i : ℕ} (hi : s.bitLength ≤ i) : (s.physicalToRaw v).getLsbD i = false := by
  unfold ScaledLayout.physicalToRaw
  rw [hinteger]
  simp [getLsbD_bitMask, hi.not_gt]

theorem fits_of_encode (hvalid : m.validate = .ok ()) (hencode : m.encode values = some (.ok f))
    {s : Signal R} (hs : s ∈ m.signals) :
    s.layout.fits f.size ∧ s.layout.fits f.data.length := by
  obtain ⟨hsize, hdlc, -⟩ := encode_steps hvalid hencode
  have hfits := ScaledLayout.fits_of_validate ((of_validate hvalid).2 s hs)
  rw [hsize, f.data_length]
  exact ⟨hfits, hfits.mono hdlc⟩

/-- **What is decoded of an active signal**, bit by bit. -/
theorem decodeRaw_eq_wanted_iff {s : Signal R} (hvalid : m.validate = .ok ())
    (hinteger : ∀ s ∈ m.signals, s.layout.valueType = .integer)
    (hencode : m.encode values = some (.ok f)) (hnamed : m.NamedActive f values)
    (hdisjoint : m.ActiveDisjoint f) {i : ℕ} (hs : m.signals[i]? = some s)
    (hactive : m.isSignalActive f i = true) :
    s.layout.decodeRaw f.data = some (s.wanted values) ↔
      (s.name ∉ values.map (·.1) → ∀ j < s.layout.bitLength,
        m.startBit (s.layout.cell j) = (s.startBitAt (s.layout.cell j)).getD false) := by
  have hmem : s ∈ m.signals := List.mem_of_getElem? hs
  have hbits {j : ℕ} (hj : j < s.layout.bitLength) :=
    encode_ok hvalid hencode (hdisjoint.apart hvalid hnamed hs hactive) hj
  obtain ⟨raw, hraw, hread⟩ := SignalLayout.decodeRaw_spec (fits_of_encode hvalid hencode hmem).2
  have hhigh {k : ℕ} (hk : s.layout.bitLength ≤ k) : (s.wanted values).getLsbD k = false := by
    unfold Signal.wanted
    split
    · exact physicalToRaw_getLsbD (hinteger s hmem) _ hk
    · split
      · exact physicalToRaw_getLsbD (hinteger s hmem) _ hk
      · exact BitVec.getLsbD_zero
  -- the raw value is the wanted one exactly when each cell of the run holds its bit
  have hcells : raw = s.wanted values ↔ ∀ j < s.layout.bitLength,
      bitOf f.data (s.layout.cell j) = (s.wanted values).getLsbD (s.layout.rank j) := by
    constructor
    · rintro rfl j hj
      rw [hread, SignalLayout.rank_rank hj, decide_eq_true (SignalLayout.rank_lt hj),
        Bool.true_and]
    · intro h
      refine BitVec.eq_of_getLsbD_eq fun k _ => ?_
      rw [hread]
      by_cases hk : k < s.layout.bitLength
      · rw [h _ (SignalLayout.rank_lt hk), SignalLayout.rank_rank hk, decide_eq_true hk,
          Bool.true_and]
      · rw [hhigh (Nat.le_of_not_lt hk), decide_eq_false hk, Bool.false_and]
  rw [hraw, Option.some.injEq, hcells]
  cases hlast : lastValue values s.name with
  | some v =>
    have hwritten : ¬s.name ∉ values.map (·.1) := by
      rw [← lastValue_eq_none_iff, hlast]
      simp
    refine iff_of_true ?_ (fun h => absurd h hwritten)
    intro j hj
    rw [hbits hj, Signal.wanted, hlast]
  | none =>
    have hunnamed := lastValue_eq_none_iff.1 hlast
    have hown {j : ℕ} (hj : j < s.layout.bitLength) :
        (s.wanted values).getLsbD (s.layout.rank j) =
          (s.startBitAt (s.layout.cell j)).getD false := by
      unfold Signal.wanted Signal.startBitAt
      rw [hlast]
      cases s.startValue with
      | none => exact BitVec.getLsbD_zero
      | some v =>
        rw [Option.bind_some, stored_pos (SignalLayout.cell_injective _) hj]
        rfl
    constructor
    · intro h _ j hj
      rw [← hown hj, ← h j hj, hbits hj, hlast]
    · intro h j hj
      rw [hown hj, ← h hunnamed j hj, hbits hj, hlast]

/-- **Encoding a message and decoding it** gives the active signals with the values wanted of them
exactly when no start value is lost under a later one: at every bit of an unnamed active signal
the start value written last, of whatever signal, puts what the signal's own one puts. -/
theorem decode_encode_iff (hvalid : m.validate = .ok ())
    (hinteger : ∀ s ∈ m.signals, s.layout.valueType = .integer)
    (hencode : m.encode values = some (.ok f)) (hnamed : m.NamedActive f values)
    (hdisjoint : m.ActiveDisjoint f) :
    m.decode f = some (m.wanted f values) ↔ m.StartsKept f values := by
  let raws (s : Signal R) : BitVec 64 := (s.layout.decodeRaw f.data).getD 0
  have hread : ∀ p ∈ m.signals.zipIdx, p.1.layout.fits f.size ∧
      p.1.layout.decodeRaw f.data = some (raws p.1) := by
    rintro ⟨s, i⟩ hp
    have hs : s ∈ m.signals := List.mem_of_getElem? (List.mem_zipIdx_iff_getElem?.1 hp)
    obtain ⟨hsize, hdata⟩ := fits_of_encode hvalid hencode hs
    obtain ⟨raw, hraw, -⟩ := SignalLayout.decodeRaw_spec hdata
    exact ⟨hsize, by simp [raws, hraw]⟩
  have heach {i : ℕ} {s : Signal R} (hs : m.signals[i]? = some s)
      (hactive : m.isSignalActive f i = true) := by
    have hiff := decodeRaw_eq_wanted_iff hvalid hinteger hencode hnamed hdisjoint hs hactive
    rwa [(hread (s, i) (List.mem_zipIdx_iff_getElem?.2 hs)).2, Option.some.injEq] at hiff
  rw [decode, forEachActiveSignal_eq hread, Option.some.injEq, wanted, List.map_inj_left]
  constructor
  · intro h i s hs hactive hunnamed
    have hmem : (s, i) ∈ m.signals.zipIdx.filter fun p => m.isSignalActive f p.2 :=
      List.mem_filter.2 ⟨List.mem_zipIdx_iff_getElem?.2 hs, hactive⟩
    exact (heach hs hactive).1 (DecodedSignal.mk.inj (h _ hmem)).2.1 hunnamed
  · rintro h ⟨s, i⟩ hp
    obtain ⟨hzip, hactive⟩ := List.mem_filter.1 hp
    have hs := List.mem_zipIdx_iff_getElem?.1 hzip
    rw [(heach hs hactive).2 (h hs hactive)]

omit [Scalar R] in
/-- A check of the two conditions over the pairs of signals. -/
theorem activeDisjoint_of_forall (h : ∀ p ∈ m.signals.zipIdx, ∀ q ∈ m.signals.zipIdx,
    p.2 ≠ q.2 → m.isSignalActive f p.2 = true → m.isSignalActive f q.2 = true →
    ∀ a < p.1.layout.bitLength, ∀ b < q.1.layout.bitLength,
      p.1.layout.cell a ≠ q.1.layout.cell b) : m.ActiveDisjoint f := by
  intro i j s t hs ht hne hi hj
  refine Set.disjoint_left.2 ?_
  rintro _ ⟨a, ha, rfl⟩ ⟨b, hb, hcell⟩
  exact h (s, i) (List.mem_zipIdx_iff_getElem?.2 hs) (t, j) (List.mem_zipIdx_iff_getElem?.2 ht)
    hne hi hj a ha b hb hcell.symm

omit [Scalar R] in
theorem namedActive_of_forall (h : ∀ p ∈ m.signals.zipIdx, p.1.name ∈ values.map (·.1) →
    m.isSignalActive f p.2 = true) : m.NamedActive f values := by
  intro i s hs hname
  exact h (s, i) (List.mem_zipIdx_iff_getElem?.2 hs) hname

/-- A switch and two signals at the same byte, the second with a start value. -/
def sharedByte : Message ℚ :=
  { name := [], id := default, dlc := 2
    signals := [
      { name := [ch 'm'], layout := plain 0 8, multiplexRole := .multiplexor },
      { name := [ch 'a'], layout := plain 8 8, multiplexRole := .multiplexed },
      { name := [ch 'b'], layout := plain 8 8, multiplexRole := .multiplexed, multiplexValue := 1,
        attributes := [(ascii "GenSigStartValue", { number := 5 })] }] }

/-- What it encodes to for a value of the switch. -/
def sharedFrame (switch : Byte) : Frame :=
  { zeros with dlc := 2, data := [switch, 5, 0, 0, 0, 0, 0, 0], data_length := rfl }

/-- The law where the switch is set for the signal with the start value. -/
theorem decode_encode_sharedByte :
    sharedByte.decode (sharedFrame 1) =
        some (sharedByte.wanted (sharedFrame 1) [([ch 'm'], 1)]) ↔
      sharedByte.StartsKept (sharedFrame 1) [([ch 'm'], 1)] :=
  decode_encode_iff (by decide +kernel) (by decide +kernel) (by decide +kernel)
    (namedActive_of_forall (by decide +kernel)) (activeDisjoint_of_forall (by decide +kernel))

/-- With the switch set for the other signal the start value is sent all the same. -/
theorem start_value_leaks : sharedByte.validate = .ok () ∧
    (∀ s ∈ sharedByte.signals, s.layout.valueType = .integer) ∧
    sharedByte.encode [([ch 'm'], 0)] = some (.ok (sharedFrame 0)) ∧
    sharedByte.NamedActive (sharedFrame 0) [([ch 'm'], 0)] ∧
    sharedByte.ActiveDisjoint (sharedFrame 0) ∧
    sharedByte.decode (sharedFrame 0) ≠
      some (sharedByte.wanted (sharedFrame 0) [([ch 'm'], 0)]) := by
  refine ⟨by decide +kernel, by decide +kernel, by decide +kernel,
    namedActive_of_forall (by decide +kernel), activeDisjoint_of_forall (by decide +kernel), ?_⟩
  intro h
  have hraws := congrArg (Option.map (List.map (·.raw))) h
  exact absurd hraws (by decide +kernel)

end Message

end Core
end Canforge
