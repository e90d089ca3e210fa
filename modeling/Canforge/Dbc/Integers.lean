/-
# The integers of a database

`Integers` is what a DBC file has of integers, with keys of a type of their own: those a database
stores (`Integers.ofDatabase`), and those its statements write (`written`), place by place.  A
number that nothing writes is 0, as the field is.

`stored32` is what becomes of a number on its way through `std::strtoull` and a cast to 32 bits,
and `Number.stored` what becomes of a key on its way through `double`; `Integers.Fits` says that
all of them survive (`stored32_eq_iff`, `Number.stored_eq_iff`).
-/

import Canforge.Dbc.Parser
import Canforge.Text.Doubles

namespace Canforge
namespace Dbc

open Canforge.Core Text Lib

/-- The integers of a signal. -/
structure SignalIntegers (κ : Type) where
  name : Text
  startBit : ℕ
  bitLength : ℕ
  multiplexValue : ℕ
  ranges : List (ℕ × ℕ) := []
  keys : List κ := []
  deriving DecidableEq

/-- The integers of a message. -/
structure MessageIntegers (κ : Type) where
  id : ℕ
  length : ℕ
  signals : List (SignalIntegers κ)
  deriving DecidableEq

/-- The integers of a database. -/
structure Integers (κ : Type) where
  timing : Option (ℕ × ℕ × ℕ) := none
  tables : List (List κ) := []
  messages : List (MessageIntegers κ) := []
  deriving DecidableEq

variable {κ μ ν : Type}

/-! ### Maps -/

/-- The numbers but for the keys. -/
def SignalIntegers.numbers (s : SignalIntegers κ) : List ℕ :=
  s.startBit :: s.bitLength :: s.multiplexValue :: (s.ranges.map (·.1) ++ s.ranges.map (·.2))

/-- Every number and every key after a change. -/
def SignalIntegers.map (f : ℕ → ℕ) (g : κ → μ) (s : SignalIntegers κ) : SignalIntegers μ :=
  { name := s.name, startBit := f s.startBit, bitLength := f s.bitLength,
    multiplexValue := f s.multiplexValue, ranges := s.ranges.map fun r => (f r.1, f r.2),
    keys := s.keys.map g }

/-- The numbers but for the keys. -/
def MessageIntegers.numbers (m : MessageIntegers κ) : List ℕ :=
  m.id :: m.length :: m.signals.flatMap (·.numbers)

/-- The keys. -/
def MessageIntegers.keys (m : MessageIntegers κ) : List κ := m.signals.flatMap (·.keys)

/-- Every number and every key after a change. -/
def MessageIntegers.map (f : ℕ → ℕ) (g : κ → μ) (m : MessageIntegers κ) : MessageIntegers μ :=
  { id := f m.id, length := f m.length, signals := m.signals.map (·.map f g) }

namespace Integers

/-- The numbers of the bit timing. -/
def timingNumbers (w : Integers κ) : List ℕ :=
  w.timing.elim [] fun t => [t.1, t.2.1, t.2.2]

/-- The numbers but for the keys. -/
def numbers (w : Integers κ) : List ℕ := w.timingNumbers ++ w.messages.flatMap (·.numbers)

/-- The keys. -/
def keys (w : Integers κ) : List κ := w.tables.flatten ++ w.messages.flatMap (·.keys)

/-- Every number and every key after a change. -/
def map (f : ℕ → ℕ) (g : κ → μ) (w : Integers κ) : Integers μ :=
  { timing := w.timing.map fun t => (f t.1, f t.2.1, f t.2.2), tables := w.tables.map (·.map g),
    messages := w.messages.map (·.map f g) }

end Integers

variable {f f' : ℕ → ℕ} {g g' : κ → μ}

theorem SignalIntegers.map_eq_map_iff {s : SignalIntegers κ} : s.map f g = s.map f' g' ↔
    (∀ n ∈ s.numbers, f n = f' n) ∧ ∀ k ∈ s.keys, g k = g' k := by
  simp only [SignalIntegers.map, SignalIntegers.mk.injEq, true_and, numbers, List.forall_mem_cons,
    List.forall_mem_append, List.forall_mem_map, List.map_inj_left, Prod.mk.injEq, forall_and,
    and_assoc]

theorem MessageIntegers.map_eq_map_iff {m : MessageIntegers κ} : m.map f g = m.map f' g' ↔
    (∀ n ∈ m.numbers, f n = f' n) ∧ ∀ k ∈ m.keys, g k = g' k := by
  simp only [MessageIntegers.map, MessageIntegers.mk.injEq, numbers, MessageIntegers.keys,
    List.forall_mem_cons, List.forall_mem_flatMap, List.map_inj_left,
    SignalIntegers.map_eq_map_iff, forall_and, and_assoc]

/-- **Two changes make the same of the integers when they make the same of each.** -/
theorem Integers.map_eq_map_iff {w : Integers κ} : w.map f g = w.map f' g' ↔
    (∀ n ∈ w.numbers, f n = f' n) ∧ ∀ k ∈ w.keys, g k = g' k := by
  have htiming : (w.timing.map fun t => (f t.1, f t.2.1, f t.2.2)) =
      (w.timing.map fun t => (f' t.1, f' t.2.1, f' t.2.2)) ↔
        ∀ n ∈ w.timingNumbers, f n = f' n := by
    cases ht : w.timing <;> simp [timingNumbers, ht]
  simp only [Integers.map, Integers.mk.injEq, htiming, numbers, Integers.keys,
    List.forall_mem_append, List.forall_mem_flatMap, List.forall_mem_flatten, List.map_inj_left,
    MessageIntegers.map_eq_map_iff, forall_and]
  tauto

@[simp] theorem Integers.map_map {f' : ℕ → ℕ} {g' : μ → ν} (w : Integers κ) :
    (w.map f g).map f' g' = w.map (f' ∘ f) (g' ∘ g) := by
  simp [Integers.map, MessageIntegers.map, SignalIntegers.map, Function.comp_def]

@[simp] theorem Integers.map_id (w : Integers κ) : w.map id id = w := by
  have hs (s : SignalIntegers κ) : s.map id id = s := by simp [SignalIntegers.map]
  have hm (m : MessageIntegers κ) : m.map id id = m := by
    simp [MessageIntegers.map, hs]
  simp [Integers.map, hm]

/-! ### The stored integers -/

variable {R : Type}

/-- The integers of a signal of a database. -/
def SignalIntegers.ofSignal (s : Signal R) : SignalIntegers ℤ :=
  { name := s.name, startBit := s.layout.startBit, bitLength := s.layout.bitLength,
    multiplexValue := s.multiplexValue.toNat,
    ranges := s.multiplexRanges.map fun r => (r.low.toNat, r.high.toNat),
    keys := s.valueDescriptions.map (·.value) }

/-- The integers of a message of a database.  The identifier is as the writer's `wire_id` has it:
bit 31 marks an extended one. -/
def MessageIntegers.ofMessage (m : Message R) : MessageIntegers ℤ :=
  { id := m.id.packed.toNat, length := m.dlc, signals := m.signals.map SignalIntegers.ofSignal }

/-- **The integers a database stores.** -/
def Integers.ofDatabase (db : Database R) : Integers ℤ :=
  { timing := db.bitTiming.map fun t => (t.baudrate.toNat, t.btr1.toNat, t.btr2.toNat),
    tables := db.valueTables.map fun t => t.values.map (·.value),
    messages := db.messages.map MessageIntegers.ofMessage }

/-! ### The written integers -/

/-- The integer a token writes. -/
def number (t : Token R) : ℕ := decimalValue t.text

/-- What `std::strtoull` and a cast to `std::uint32_t` make of a number. -/
def stored32 (n : ℕ) : ℕ := min n (2 ^ 64 - 1) % 2 ^ 32

/-- The integers of an `SG_` line. -/
def SignalLine.integers (line : SignalLine R) : SignalIntegers (Number R) :=
  { name := line.name, startBit := number line.start, bitLength := number line.length,
    multiplexValue := line.multiplexed.elim 0 decimalValue }

/-- The integers after a change of a signal.  A statement addresses the first message whose
identifier is stored as its own one is, and in it the first signal of the name. -/
def Integers.modifySignal (id : ℕ) (name : Text) (change : SignalIntegers κ → SignalIntegers κ)
    (w : Integers κ) : Integers κ :=
  { w with messages := w.messages.replaceF fun m =>
      if stored32 m.id = stored32 id then
        some { m with signals := m.signals.replaceF fun s =>
          if s.name = name then some (change s) else none }
      else none }

/-- The integers after one more statement. -/
def Integers.apply (w : Integers (Number R)) : Statement R → Integers (Number R)
  | .bitTiming baudrate registers =>
    { w with timing := some (number baudrate, registers.elim 0 (number ·.1),
        registers.elim 0 (number ·.2)) }
  | .valueTable keys => { w with tables := w.tables ++ [keys] }
  | .message id length signals =>
    { w with messages := w.messages ++ [⟨number id, number length, signals.map (·.integers)⟩] }
  | .valueDescriptions id name keys => w.modifySignal (number id) name ({ · with keys })
  | .multiplexing id name ranges =>
    w.modifySignal (number id) name
      ({ · with ranges := ranges.map fun r => (number r.1, number r.2) })

/-- **The integers some statements write.** -/
def written (statements : List (Statement R)) : Integers (Number R) :=
  statements.foldl Integers.apply {}

@[simp] theorem written_append (statements : List (Statement R)) (statement : Statement R) :
    written (statements ++ [statement]) = (written statements).apply statement := by
  simp [written]

/-- The number a key writes. -/
def Number.written (n : Number R) : ℚ :=
  if n.negative then -n.token.written else n.token.written

variable [Scalar R]

/-- What the parser makes of a key. -/
def Number.stored (n : Number R) : Option ℤ := toInt64 n.value

/-- A key is an integer that `std::int64_t` and `double` can hold. -/
def Number.Fits (n : Number R) : Prop :=
  ∃ z : ℤ, n.written = z ∧ -2 ^ 63 ≤ z ∧ z < 2 ^ 63 ∧ HasBits 53 z

/-- **The integers can be stored**: those of 32 bits are below `2 ^ 32`, and the keys fit. -/
def Integers.Fits (w : Integers (Number R)) : Prop :=
  (∀ n ∈ w.numbers, n < 2 ^ 32) ∧ ∀ k ∈ w.keys, k.Fits

theorem stored32_eq_iff {n : ℕ} : stored32 n = n ↔ n < 2 ^ 32 := by
  unfold stored32
  omega

/-! ### Keys through doubles -/

namespace Number

variable {n : Number R}

/-- A literal that writes a double of at most `2 ^ 63` is read as it. -/
theorem value_token (D : Doubles R) {t : Token R} {m : ℕ} (h : t.WellLexed)
    (hkind : t.kind = .integer ∨ t.kind = .real) (hm : t.written = m) (hle : m ≤ 2 ^ 63)
    (hbits : HasBits 53 (m : ℤ)) : D.value t.real = some m := by
  unfold Token.written at hm
  rcases hkind with hkind | hkind
  · rw [if_pos hkind] at hm
    have hdecimal : decimalValue t.text = m := by exact_mod_cast hm
    obtain ⟨hinteger, hreal⟩ := h.integer hkind
    have hnat : t.integer.toNat = m := by
      rw [hinteger, strtoull, hdecimal, BitVec.toNat_ofNat]
      omega
    rw [hreal, hnat]
    exact D.ofNat (by omega) hbits
  · rw [if_neg (by rw [hkind]; decide)] at hm
    obtain ⟨htext, hreal⟩ := h.real hkind
    rw [hreal]
    exact D.strtod htext hm hle hbits

theorem toInt64_eq_some_iff (D : Doubles R) {x : R} {z : ℤ} : toInt64 x = some z ↔
    ∃ q, D.value x = some q ∧ -2 ^ 63 ≤ q ∧ q < 2 ^ 63 ∧ trunc q = z := by
  unfold toInt64
  constructor
  · intro h
    split_ifs at h with hrange
    obtain ⟨q, hq, hlow, hhigh⟩ := (D.inRange x).1 hrange
    exact ⟨q, hq, hlow, hhigh, (D.toInt hq hlow hhigh).symm.trans (Option.some.inj h)⟩
  · rintro ⟨q, hq, hlow, hhigh, rfl⟩
    rw [if_pos ((D.inRange x).2 ⟨q, hq, hlow, hhigh⟩), D.toInt hq hlow hhigh]

/-- **A key is stored as it is written exactly when it fits.** -/
theorem stored_eq_iff (D : Doubles R) (h : n.token.WellLexed)
    (hkind : n.token.kind = .integer ∨ n.token.kind = .real) :
    (∃ z : ℤ, n.stored = some z ∧ (z : ℚ) = n.written) ↔ n.Fits := by
  constructor
  · rintro ⟨z, hz, hwritten⟩
    obtain ⟨q, hq, hlow, hhigh, rfl⟩ := (toInt64_eq_some_iff D).1 hz
    refine ⟨trunc q, hwritten.symm, ?_, ?_, (D.hasBits hq).trunc⟩
    · exact le_trunc (by push_cast; exact hlow)
    · rcases trunc_lt (z := 2 ^ 63) (by push_cast; exact hhigh) (by norm_num) with hlt | hzero
      · exact hlt
      · rw [hzero]
        norm_num
  · rintro ⟨z, hz, hlow, hhigh, hbits⟩
    -- the token writes the absolute value
    have hsign : (if n.negative then -(z.natAbs : ℚ) else z.natAbs) = z := by
      have hnonneg := n.token.written_nonneg
      unfold Number.written at hz
      split_ifs at hz ⊢ with hnegative
      · have hle : z ≤ 0 := by
          have : (z : ℚ) ≤ 0 := by linarith
          exact_mod_cast this
        rw [← Int.cast_natCast z.natAbs, Int.ofNat_natAbs_of_nonpos hle, Int.cast_neg, neg_neg]
      · have hle : 0 ≤ z := by
          have : (0 : ℚ) ≤ z := by linarith
          exact_mod_cast this
        rw [← Int.cast_natCast z.natAbs, Int.natAbs_of_nonneg hle]
    have htoken : n.token.written = (z.natAbs : ℕ) := by
      unfold Number.written at hz
      split_ifs at hz hsign
      · linarith
      · linarith
    have habs : HasBits 53 ((z.natAbs : ℕ) : ℤ) := by
      rcases Int.natAbs_eq z with hpos | hneg
      · rwa [← hpos]
      · have := hbits.neg
        rw [hneg] at this
        simpa using this
    have hvalue : D.value n.value = some (z : ℚ) := by
      rw [Number.value, D.sign, value_token D h hkind htoken (by omega) habs, ← hsign]
      rfl
    refine ⟨z, (toInt64_eq_some_iff D).2 ⟨z, hvalue, ?_, ?_, trunc_intCast z⟩, hz.symm⟩
    · exact_mod_cast hlow
    · exact_mod_cast hhigh

end Number

end Dbc
end Canforge
