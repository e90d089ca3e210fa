/-
# Multiplexing

`is_present_for` of `core/src/Signal.cpp`, `multiplexor` of `core/src/Message.cpp` and
`is_signal_active` of `core/include/canforge/core/Message.hpp`.  References to a signal are its
position in the message.

What the recursion of the code is for is `Message.Active`.  The signals above one and their
switches are a list of links (`Message.Links`), and both the code and the definition are a
question to each of the links: the code asks at most nine and reads 32 bits of a switch
(`isSignalActive_iff`).
-/

import Canforge.Core.Codec
import Canforge.Core.Message

namespace Canforge
namespace Core

variable {R : Type} {capacity : ℕ}

namespace Signal

variable (s : Signal R)

/-- The values of the multiplexor matter to the signal. -/
def isCompared : Bool := decide (s.multiplexRole = .multiplexed) || decide (s.multiplexRole = .both)

/-- `is_present_for`. -/
def isPresentFor (mux : BitVec 32) : Bool :=
  if !s.isCompared then true
  else if !s.multiplexRanges.isEmpty then s.multiplexRanges.any (·.contains mux)
  else decide (s.multiplexValue = mux)

/-- A signal that nothing switches. -/
def isAlwaysOn : Bool := decide (s.multiplexRole = .none) || s.isRoot

/-- The raw value of a switch that fits the frame.  Reading one that fits does not leave the
buffer, so the value is absent exactly when the switch does not fit (`selector_eq_none_iff`). -/
def selector (f : BasicFrame capacity) : Option (BitVec 64) :=
  if s.layout.fits f.size then s.layout.decodeRaw f.data else none

theorem selector_eq_none_iff {s : Signal R} {f : BasicFrame capacity} (h : f.size ≤ capacity) :
    s.selector f = none ↔ ¬s.layout.fits f.size := by
  unfold selector
  split_ifs with hfits
  · have hdata : s.layout.fits f.data.length := by
      rw [f.data_length]
      exact SignalLayout.fits.mono hfits h
    obtain ⟨raw, hraw, -⟩ := SignalLayout.decodeRaw_spec hdata
    simp [hraw, hfits]
  · simp [hfits]

end Signal

namespace Message

variable (m : Message R) (f : BasicFrame capacity)

/-- `find_signal`, the position. -/
def signalIndex (name : Text) : Option ℕ := m.signals.findIdx? (·.name = name)

/-- `multiplexor`, the position. -/
def multiplexor : Option ℕ :=
  match m.signals.findIdx? (·.isRoot) with
  | some i => some i
  | none => m.signals.findIdx? (·.multiplexRole = .multiplexor)

/-- The signal that switches `s`: the root when none is named. -/
def switchOf (s : Signal R) : Option ℕ :=
  if s.multiplexorName.isEmpty then m.multiplexor else m.signalIndex s.multiplexorName

/-- `is_signal_active` of the signal at a position, at depth `9 - left`. -/
def isSignalActiveFrom : ℕ → ℕ → Bool
  | 0, i =>
    match m.signals[i]? with
    | none => false
    | some s => s.isAlwaysOn
  | left + 1, i =>
    match m.signals[i]? with
    | none => false
    | some s =>
      if s.isAlwaysOn then true
      else
        match m.switchOf s with
        | none => false
        | some j =>
          if j = i then false
          else if !isSignalActiveFrom left j then false
          else
            match m.signals[j]?.bind (·.selector f) with
            | none => false
            | some raw => s.isPresentFor (raw.setWidth 32)

/-- `is_signal_active`; a depth of more than eight is refused. -/
def isSignalActive (i : ℕ) : Bool := m.isSignalActiveFrom f 9 i

end Message

/-! ### What it is for -/

/-- A value of the multiplexor selects the signal. -/
def Signal.Selects (s : Signal R) (value : ℕ) : Prop :=
  s.isCompared = true →
    if s.multiplexRanges = [] then s.multiplexValue.toNat = value
    else ∃ r ∈ s.multiplexRanges, r.low.toNat ≤ value ∧ value ≤ r.high.toNat

namespace Message

/-- **A signal is active** when nothing switches it, or when its switch exists, is active, fits the
frame and reads a value that selects it. -/
inductive Active (m : Message R) (f : BasicFrame capacity) : ℕ → Prop
  | always {i : ℕ} {s : Signal R} (hs : m.signals[i]? = some s) (halways : s.isAlwaysOn = true) :
    Active m f i
  | switched {i j : ℕ} {s sw : Signal R} {raw : BitVec 64} (hs : m.signals[i]? = some s)
    (hswitched : s.isAlwaysOn = false) (hswitch : m.switchOf s = some j)
    (hsw : m.signals[j]? = some sw) (hactive : Active m f j) (hraw : sw.selector f = some raw)
    (hselects : s.Selects raw.toNat) : Active m f i

/-- The links above a signal, up to one that nothing switches: a switched signal and its switch.
A cycle of switches has none. -/
inductive Links (m : Message R) : ℕ → List (Signal R × Signal R) → Prop
  | top {i : ℕ} {s : Signal R} (hs : m.signals[i]? = some s) (halways : s.isAlwaysOn = true) :
    Links m i []
  | cons {i j : ℕ} {s sw : Signal R} {links : List (Signal R × Signal R)}
    (hs : m.signals[i]? = some s) (hswitched : s.isAlwaysOn = false)
    (hswitch : m.switchOf s = some j) (hsw : m.signals[j]? = some sw) (hlinks : Links m j links) :
    Links m i ((s, sw) :: links)

end Message

section Link

variable (f : BasicFrame capacity) (link : Signal R × Signal R)

/-- The switch fits and its value selects the signal. -/
def LinkSelects : Prop := ∃ raw, link.2.selector f = some raw ∧ link.1.Selects raw.toNat

/-- The switch fits and the low 32 bits of its value select the signal. -/
def LinkSelectsLow : Prop :=
  ∃ raw, link.2.selector f = some raw ∧ link.1.isPresentFor (raw.setWidth 32) = true

/-- The value of the switch does not matter or has no more than 32 bits. -/
def LinkNarrow : Prop :=
  link.1.isCompared = true → ∀ raw, link.2.selector f = some raw → raw.toNat < 2 ^ 32

end Link

theorem MuxRange.contains_iff {r : MuxRange} {v : BitVec 32} :
    r.contains v = true ↔ r.low.toNat ≤ v.toNat ∧ v.toNat ≤ r.high.toNat := by
  rw [contains, Bool.and_eq_true, decide_eq_true_iff, decide_eq_true_iff, BitVec.le_def,
    BitVec.le_def]

/-- On 32 bits the code asks what is to be asked. -/
theorem Signal.isPresentFor_iff {s : Signal R} {mux : BitVec 32} :
    s.isPresentFor mux = true ↔ s.Selects mux.toNat := by
  unfold isPresentFor Selects
  cases hcompared : s.isCompared with
  | false => simp
  | true =>
    cases hranges : s.multiplexRanges with
    | nil => simp [BitVec.toNat_inj]
    | cons r ranges => simp [MuxRange.contains_iff]

/-- A value that selects a signal has no more than 32 bits. -/
theorem Signal.Selects.lt {s : Signal R} {value : ℕ} (h : s.Selects value)
    (hcompared : s.isCompared = true) : value < 2 ^ 32 := by
  have hvalue := h hcompared
  split_ifs at hvalue
  · rw [← hvalue]
    exact s.multiplexValue.isLt
  · obtain ⟨r, -, -, hhigh⟩ := hvalue
    exact hhigh.trans_lt r.high.isLt

/-- **Both questions about a link** agree on a narrow one. -/
theorem linkSelects_iff {f : BasicFrame capacity} {link : Signal R × Signal R} :
    LinkSelects f link ↔ LinkSelectsLow f link ∧ LinkNarrow f link := by
  have hlow {raw : BitVec 64} (h : raw.toNat < 2 ^ 32) :
      (raw.setWidth 32).toNat = raw.toNat := by
    rw [BitVec.toNat_setWidth, Nat.mod_eq_of_lt h]
  constructor
  · rintro ⟨raw, hraw, hselects⟩
    refine ⟨⟨raw, hraw, ?_⟩, ?_⟩
    · rw [Signal.isPresentFor_iff]
      intro hcompared
      rw [hlow (hselects.lt hcompared)]
      exact hselects hcompared
    · intro hcompared raw' hraw'
      obtain rfl : raw = raw' := Option.some_injective _ (hraw.symm.trans hraw')
      exact hselects.lt hcompared
  · rintro ⟨⟨raw, hraw, hpresent⟩, hnarrow⟩
    refine ⟨raw, hraw, ?_⟩
    intro hcompared
    rw [Signal.isPresentFor_iff, hlow (hnarrow hcompared raw hraw)] at hpresent
    exact hpresent hcompared

namespace Message

variable {m : Message R} {f : BasicFrame capacity}

/-- A signal has one list of links. -/
theorem Links.unique {i : ℕ} {links links' : List (Signal R × Signal R)} (h : m.Links i links)
    (h' : m.Links i links') : links = links' := by
  induction h generalizing links' with
  | top hs halways =>
    cases h' with
    | top => rfl
    | cons hs' hswitched =>
      obtain rfl := Option.some_injective _ (hs.symm.trans hs')
      rw [halways] at hswitched
      cases hswitched
  | cons hs hswitched hswitch hsw hlinks ih =>
    cases h' with
    | top hs' halways =>
      obtain rfl := Option.some_injective _ (hs.symm.trans hs')
      rw [halways] at hswitched
      cases hswitched
    | cons hs' _ hswitch' hsw' hlinks' =>
      obtain rfl := Option.some_injective _ (hs.symm.trans hs')
      obtain rfl := Option.some_injective _ (hswitch.symm.trans hswitch')
      obtain rfl := Option.some_injective _ (hsw.symm.trans hsw')
      rw [ih hlinks']

/-- A signal with links does not switch itself. -/
theorem Links.ne_switch {i j : ℕ} {s : Signal R} {links : List (Signal R × Signal R)}
    (hs : m.signals[i]? = some s) (hswitched : s.isAlwaysOn = false)
    (hswitch : m.switchOf s = some j) (hlinks : m.Links j links) : j ≠ i := by
  rintro rfl
  have hlonger : m.Links j ((s, s) :: links) := .cons hs hswitched hswitch hs hlinks
  have hlength := congrArg List.length (hlonger.unique hlinks)
  rw [List.length_cons] at hlength
  omega

/-- **A signal is active exactly when all its links select.** -/
theorem active_iff_links {i : ℕ} :
    m.Active f i ↔ ∃ links, m.Links i links ∧ ∀ link ∈ links, LinkSelects f link := by
  constructor
  · intro h
    induction h with
    | always hs halways => exact ⟨[], .top hs halways, List.forall_mem_nil _⟩
    | switched hs hswitched hswitch hsw _ hraw hselects ih =>
      obtain ⟨links, hlinks, hall⟩ := ih
      exact ⟨_, .cons hs hswitched hswitch hsw hlinks,
        List.forall_mem_cons.2 ⟨⟨_, hraw, hselects⟩, hall⟩⟩
  · rintro ⟨links, hlinks, hall⟩
    induction hlinks with
    | top hs halways => exact .always hs halways
    | cons hs hswitched hswitch hsw _ ih =>
      obtain ⟨⟨raw, hraw, hselects⟩, hrest⟩ := List.forall_mem_cons.1 hall
      exact .switched hs hswitched hswitch hsw (ih hrest) hraw hselects

/-- **The code asks the low bits of so many links.** -/
theorem isSignalActiveFrom_iff {left i : ℕ} : m.isSignalActiveFrom f left i = true ↔
    ∃ links, m.Links i links ∧ links.length ≤ left ∧ ∀ link ∈ links, LinkSelectsLow f link := by
  constructor
  · intro h
    induction left generalizing i with
    | zero =>
      rw [isSignalActiveFrom] at h
      cases hs : m.signals[i]? with
      | none => simp [hs] at h
      | some s =>
        rw [hs] at h
        exact ⟨[], .top hs h, le_rfl, List.forall_mem_nil _⟩
    | succ left ih =>
      rw [isSignalActiveFrom] at h
      cases hs : m.signals[i]? with
      | none => simp [hs] at h
      | some s =>
        rw [hs] at h
        dsimp only at h
        cases halways : s.isAlwaysOn with
        | true => exact ⟨[], .top hs halways, Nat.zero_le _, List.forall_mem_nil _⟩
        | false =>
          rw [halways, if_neg Bool.false_ne_true] at h
          cases hswitch : m.switchOf s with
          | none => simp [hswitch] at h
          | some j =>
            rw [hswitch] at h
            dsimp only at h
            split_ifs at h with _ hactive
            cases hsw : m.signals[j]? with
            | none => simp [hsw] at h
            | some sw =>
              rw [hsw, Option.bind_some] at h
              cases hraw : sw.selector f with
              | none => simp [hraw] at h
              | some raw =>
                rw [hraw] at h
                obtain ⟨links, hlinks, hlength, hall⟩ := ih (by simpa using hactive)
                exact ⟨_, .cons hs halways hswitch hsw hlinks, Nat.succ_le_succ hlength,
                  List.forall_mem_cons.2 ⟨⟨raw, hraw, h⟩, hall⟩⟩
  · rintro ⟨links, hlinks, hlength, hall⟩
    induction hlinks generalizing left with
    | top hs halways => cases left <;> simp [isSignalActiveFrom, hs, halways]
    | cons hs hswitched hswitch hsw hlinks ih =>
      rw [List.length_cons] at hlength
      obtain ⟨left, rfl⟩ := Nat.exists_eq_add_of_le' (Nat.one_le_of_lt hlength)
      obtain ⟨⟨raw, hraw, hpresent⟩, hrest⟩ := List.forall_mem_cons.1 hall
      have hactive := ih (Nat.le_of_succ_le_succ hlength) hrest
      have hne := Links.ne_switch hs hswitched hswitch hlinks
      simp [isSignalActiveFrom, hs, hswitched, hswitch, hne, hactive, hsw, hraw, hpresent]

/-- A signal without links, such as one on or above a cycle of switches, is not active. -/
theorem isSignalActive_of_cyclic {i : ℕ} (h : ∀ links, ¬m.Links i links) :
    m.isSignalActive f i = false ∧ ¬m.Active f i := by
  constructor
  · rw [← Bool.not_eq_true, isSignalActive, isSignalActiveFrom_iff]
    rintro ⟨links, hlinks, -⟩
    exact h links hlinks
  · rw [active_iff_links]
    rintro ⟨links, hlinks, -⟩
    exact h links hlinks

/-- **The code finds the active signals exactly where its two limits do not show**: when the low
bits of all the switches above a signal select, there are at most nine of them if and only if
none that is compared reads more than 32 bits. -/
theorem isSignalActive_iff (m : Message R) (f : BasicFrame capacity) (i : ℕ) :
    (m.isSignalActive f i = true ↔ m.Active f i) ↔
      ∀ links, m.Links i links → (∀ link ∈ links, LinkSelectsLow f link) →
        (links.length ≤ 9 ↔ ∀ link ∈ links, LinkNarrow f link) := by
  rw [isSignalActive, isSignalActiveFrom_iff, active_iff_links]
  simp only [linkSelects_iff]
  constructor
  · intro h links hlinks hlow
    constructor
    · intro hlength
      obtain ⟨links', hlinks', hall⟩ := h.1 ⟨links, hlinks, hlength, hlow⟩
      obtain rfl := hlinks.unique hlinks'
      intro link hlink
      exact (hall link hlink).2
    · intro hnarrow
      obtain ⟨links', hlinks', hlength, -⟩ :=
        h.2 ⟨links, hlinks, fun link hlink => ⟨hlow link hlink, hnarrow link hlink⟩⟩
      obtain rfl := hlinks.unique hlinks'
      exact hlength
  · intro h
    constructor
    · rintro ⟨links, hlinks, hlength, hlow⟩
      have hnarrow := (h links hlinks hlow).1 hlength
      exact ⟨links, hlinks, fun link hlink => ⟨hlow link hlink, hnarrow link hlink⟩⟩
    · rintro ⟨links, hlinks, hall⟩
      have hlow : ∀ link ∈ links, LinkSelectsLow f link := fun link hlink => (hall link hlink).1
      exact ⟨links, hlinks, (h links hlinks hlow).2 fun link hlink => (hall link hlink).2, hlow⟩

/-- A frame of eight zeros. -/
def zeros : BasicFrame 8 :=
  { id := default, dlc := 8, data := List.replicate 8 0, data_length := List.length_replicate }

/-- A layout without scale and range. -/
def plain (startBit bitLength : ℕ) : ScaledLayout ℚ :=
  { startBit, bitLength, factor := 1, offset := 0, minimum := 0, maximum := 0 }

/-- Level `k` of a tower of switches of one bit, each with the name of the one it switches before
its own. -/
def towerLevel (k : ℕ) : Signal ℚ :=
  { name := List.replicate (k + 1) (ch 'm')
    layout := plain 0 1
    multiplexRole := if k = 0 then .multiplexor else .both
    multiplexorName := List.replicate k (ch 'm') }

/-- Ten switches above a signal. -/
def tower : Message ℚ :=
  { name := [], id := default, dlc := 8, signals := (List.range 11).map towerLevel }

/-- A switch of 33 bits. -/
def wide : Signal ℚ :=
  { name := [ch 'm'], layout := plain 0 33, multiplexRole := .multiplexor }

/-- A signal for the value one of it. -/
def forOne : Signal ℚ :=
  { name := [ch 's'], layout := plain 40 8, multiplexRole := .multiplexed, multiplexValue := 1 }

def wideSwitch : Message ℚ := { name := [], id := default, dlc := 8, signals := [wide, forOne] }

/-- A frame in which that switch reads `2 ^ 32 + 1`. -/
def wideFrame : BasicFrame 8 :=
  { zeros with data := [1, 0, 0, 0, 1, 0, 0, 0], data_length := rfl }

/-- Under ten switches that all select it a signal is not found, and a switch of more than 32 bits
finds a signal that it does not select. -/
theorem depth_and_width : ¬(tower.isSignalActive zeros 10 = true ↔ tower.Active zeros 10) ∧
    ¬(wideSwitch.isSignalActive wideFrame 1 = true ↔ wideSwitch.Active wideFrame 1) := by
  have hlevel {k : ℕ} (hk : k < 11) : tower.signals[k]? = some (towerLevel k) := by
    simp [tower, hk]
  have hswitch : ∀ k < 10, tower.switchOf (towerLevel (k + 1)) = some k := by decide +kernel
  have hread : ∀ k < 11, (towerLevel k).selector zeros = some 0 := by decide +kernel
  have hactive {k : ℕ} (hk : k < 11) : tower.Active zeros k := by
    induction k with
    | zero => exact .always (hlevel hk) (by decide +kernel)
    | succ k ih =>
      have hswitched : ∀ k < 10, (towerLevel (k + 1)).isAlwaysOn = false := by decide +kernel
      refine .switched (hlevel hk) (hswitched k (by omega)) (hswitch k (by omega))
        (hlevel (by omega)) (ih (by omega)) (hread k (by omega)) ?_
      intro _
      rfl
  constructor
  · rw [iff_true_right (hactive (by decide))]
    decide +kernel
  · have hfound : wideSwitch.isSignalActive wideFrame 1 = true := by decide +kernel
    rw [iff_true_left hfound]
    intro h
    cases h with
    | always hs halways =>
      obtain rfl : forOne = _ := Option.some_injective _ hs
      exact absurd halways (by decide +kernel)
    | switched hs _ hj hsw _ hraw hselects =>
      obtain rfl : forOne = _ := Option.some_injective _ hs
      obtain rfl : 0 = _ := Option.some_injective _ hj
      obtain rfl : wide = _ := Option.some_injective _ hsw
      obtain rfl : 0x100000001#64 = _ := Option.some_injective _ hraw
      exact absurd (hselects rfl) (by decide +kernel)

end Message

end Core
end Canforge
