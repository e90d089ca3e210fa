/-
# Software and kernel filters

`Filter::accepts` and the `can_filter` that `apply_filters` builds compare the
same low 29 bits (`Filter.matchesLow`) and differ in the three flag bits above
them.  `softwareAdmits` and `kernelAdmits` say for which identifier formats these
bits let a frame through to the comparison; bit 29 of the filter's identifier
also is the kernel's mark for an inverted filter.  Two such rules agree on every
identifier exactly when `Filter.Agrees` holds (`accepts_forall_iff`): an extended
identifier can always be found that matches the low bits, a standard one only
when they ask for no bit above bit 10.
-/

import Canforge.Transport.SocketCan

namespace Canforge
namespace Transport

open Canforge.Core

/-! ### Words under a mask -/

theorem and_eq_and_iff {w : ℕ} {x y m : BitVec w} :
    x &&& m = y &&& m ↔ ∀ i, m.getLsbD i = true → x.getLsbD i = y.getLsbD i := by
  constructor
  · intro h i hi
    have := congrArg (BitVec.getLsbD · i) h
    simpa [hi] using this
  · intro h
    refine BitVec.eq_of_getLsbD_eq fun i _ => ?_
    rw [BitVec.getLsbD_and, BitVec.getLsbD_and]
    cases hm : m.getLsbD i with
    | false => rw [Bool.and_false, Bool.and_false]
    | true => rw [h i hm]

theorem kExtendedIdMax_getLsbD (i : ℕ) : kExtendedIdMax.getLsbD i = decide (i < 29) := by
  rw [BitVec.getLsbD, show kExtendedIdMax.toNat = 2 ^ 29 - 1 from rfl, Nat.testBit_two_pow_sub_one]

/-- A masked comparison is one of the low 29 bits and one of each flag bit. -/
theorem and_eq_and_split {x y m : BitVec 32} :
    x &&& m = y &&& m ↔
      x &&& (m &&& kExtendedIdMax) = y &&& (m &&& kExtendedIdMax) ∧
        (m.getLsbD 31 = true → x.getLsbD 31 = y.getLsbD 31) ∧
        (m.getLsbD 30 = true → x.getLsbD 30 = y.getLsbD 30) ∧
        (m.getLsbD 29 = true → x.getLsbD 29 = y.getLsbD 29) := by
  simp only [and_eq_and_iff, BitVec.getLsbD_and, kExtendedIdMax_getLsbD, Bool.and_eq_true,
    decide_eq_true_iff]
  constructor
  · exact fun h => ⟨fun i hi => h i hi.1, h 31, h 30, h 29⟩
  · rintro ⟨hlow, h31, h30, h29⟩ i hi
    rcases Nat.lt_or_ge i 29 with h | h
    · exact hlow i ⟨hi, h⟩
    · have hlt := BitVec.lt_of_getLsbD hi
      obtain rfl | rfl | rfl : i = 29 ∨ i = 30 ∨ i = 31 := by omega
      · exact h29 hi
      · exact h30 hi
      · exact h31 hi

theorem CanId.packed_getLsbD_31 (id : CanId) : id.packed.getLsbD 31 = id.isExtended := by
  have h := id.isExtended_iff
  have hlt := id.packed.isLt
  rw [BitVec.getLsbD, Nat.testBit_eq_decide_div_mod_eq, Bool.eq_iff_iff, h, decide_eq_true_iff]
  omega

/-- Bits 29 and 30 of an identifier are clear. -/
theorem CanId.packed_getLsbD_flags (id : CanId) :
    id.packed.getLsbD 29 = false ∧ id.packed.getLsbD 30 = false := by
  have hlt : id.packed.toNat % 2 ^ 31 < 2 ^ 29 := by
    cases h : id.isExtended with
    | false =>
      obtain ⟨hpacked, hle⟩ := CanId.standard_value h
      have : id.packed.toNat ≤ 0x7FF := hpacked ▸ hle
      omega
    | true =>
      obtain ⟨hpacked, hle⟩ := CanId.extended_value h
      have hle' : id.value.toNat ≤ 0x1FFFFFFF := hle
      rw [hpacked, CanId.or_kEffFlag_toNat hle]
      omega
  simp only [BitVec.getLsbD, Nat.testBit_eq_decide_div_mod_eq, decide_eq_false_iff_not]
  omega

/-! ### The two rules -/

namespace Filter

/-- The low 29 bits of the mask. -/
def low (f : Filter) : BitVec 32 := f.mask &&& kExtendedIdMax

/-- The low bits of the identifier are those the filter asks for. -/
def matchesLow (f : Filter) (id : CanId) : Bool := id.packed &&& f.low == f.id &&& f.low

/-- The flag bits of `accepts` let identifiers of this format through. -/
def softwareAdmits (f : Filter) (extended : Bool) : Bool :=
  !f.matchFormat ||
    ((!f.mask.getLsbD 31 || extended == f.id.getLsbD 31) &&
      !(f.mask.getLsbD 30 && f.id.getLsbD 30) && !(f.mask.getLsbD 29 && f.id.getLsbD 29))

/-- The flag bits of the installed filter let identifiers of this format through. -/
def kernelAdmits (f : Filter) (extended : Bool) : Bool :=
  (!(f.matchFormat || f.mask.getLsbD 31) || extended == f.id.getLsbD 31) &&
    !(f.mask.getLsbD 30 && f.id.getLsbD 30) &&
      !(f.mask.getLsbD 29 && (f.id.getLsbD 29 || f.invert))

/-- The filters on which software and kernel agree.  One whose identifier carries the
inversion bit without `invert` must let everything through on one side and nothing on the
other; any other must let the same formats through on both sides, standard ones only when
some standard identifier matches the low bits. -/
def Agrees (f : Filter) : Prop :=
  if f.id.getLsbD 29 = true ∧ f.invert = false then
    f.low = 0 ∧ ∀ extended, f.softwareAdmits extended ≠ f.kernelAdmits extended
  else
    f.softwareAdmits true = f.kernelAdmits true ∧
      (f.softwareAdmits false = f.kernelAdmits false ∨ ¬f.id &&& f.low ≤ kStandardIdMax)

instance (f : Filter) : Decidable f.Agrees := by
  unfold Agrees
  infer_instance

variable {f : Filter} {id : CanId}

/-- A masked comparison with an identifier, as a test of the low bits and of the flag bits. -/
theorem beq_and_eq (id : CanId) (x m : BitVec 32) :
    (id.packed &&& m == x &&& m) =
      ((id.packed &&& (m &&& kExtendedIdMax) == x &&& (m &&& kExtendedIdMax)) &&
        ((!m.getLsbD 31 || id.isExtended == x.getLsbD 31) && !(m.getLsbD 30 && x.getLsbD 30) &&
          !(m.getLsbD 29 && x.getLsbD 29))) := by
  obtain ⟨h29, h30⟩ := CanId.packed_getLsbD_flags id
  rw [Bool.eq_iff_iff, beq_iff_eq, and_eq_and_split, CanId.packed_getLsbD_31, h29, h30]
  cases m.getLsbD 31 <;> cases m.getLsbD 30 <;> cases m.getLsbD 29 <;> grind

theorem accepts_eq : f.accepts id =
    ((f.matchesLow id && f.softwareAdmits id.isExtended) != f.invert) := by
  unfold accepts softwareAdmits matchesLow low
  cases f.matchFormat with
  | false =>
    dsimp only
    rw [if_neg Bool.false_ne_true, Bool.not_false, Bool.true_or, Bool.and_true]
  | true =>
    dsimp only
    rw [if_pos rfl, beq_and_eq, Bool.not_true, Bool.false_or]

theorem native_canId_getLsbD (i : ℕ) :
    f.native.canId.getLsbD i = (f.id.getLsbD i || (f.invert && decide (29 = i))) := by
  have hbit : canInvFilter = BitVec.twoPow 32 29 := rfl
  unfold native
  cases f.invert with
  | false => simp
  | true => simp [hbit, BitVec.getLsbD_twoPow]

theorem native_canMask_getLsbD (i : ℕ) :
    f.native.canMask.getLsbD i = (f.mask.getLsbD i || (f.matchFormat && decide (31 = i))) := by
  have hbit : kEffFlag = BitVec.twoPow 32 31 := rfl
  unfold native
  cases f.matchFormat with
  | false => simp
  | true => simp [hbit, BitVec.getLsbD_twoPow]

theorem native_accepts_eq : f.native.accepts id.packed =
    ((f.matchesLow id && f.kernelAdmits id.isExtended) != (f.id.getLsbD 29 || f.invert)) := by
  -- the inversion mark is bit 29, the format mark bit 31; neither is a low bit
  have hlow : f.native.canMask &&& kExtendedIdMax = f.low := by
    refine BitVec.eq_of_getLsbD_eq fun i _ => ?_
    rw [low, BitVec.getLsbD_and, BitVec.getLsbD_and, kExtendedIdMax_getLsbD,
      native_canMask_getLsbD]
    grind
  have hidlow : f.native.canId &&& f.low = f.id &&& f.low := by
    refine and_eq_and_iff.2 fun i hi => ?_
    rw [low, BitVec.getLsbD_and, kExtendedIdMax_getLsbD] at hi
    rw [native_canId_getLsbD]
    grind
  have hinv : decide (f.native.canId &&& canInvFilter ≠ 0) = (f.id.getLsbD 29 || f.invert) := by
    have hbit : canInvFilter = BitVec.twoPow 32 29 := rfl
    rw [hbit, BitVec.and_twoPow, native_canId_getLsbD]
    cases f.id.getLsbD 29 <;> cases f.invert <;> rfl
  unfold CanFilter.accepts
  rw [beq_and_eq, hlow, hidlow, hinv, native_canMask_getLsbD, native_canMask_getLsbD,
    native_canMask_getLsbD, native_canId_getLsbD, native_canId_getLsbD, native_canId_getLsbD,
    matchesLow, kernelAdmits]
  simp only [Nat.reduceEqDiff, decide_true, decide_false, Bool.and_true, Bool.and_false,
    Bool.or_false]
  rw [Bool.or_comm f.matchFormat]

/-! ### Agreement -/

theorem low_le (f : Filter) : f.low ≤ kExtendedIdMax := by
  rw [low, BitVec.le_def, BitVec.toNat_and]
  exact Nat.and_le_right

theorem and_low_le (f : Filter) (x : BitVec 32) : x &&& f.low ≤ kExtendedIdMax := by
  refine BitVec.le_trans ?_ f.low_le
  rw [BitVec.le_def, BitVec.toNat_and]
  exact Nat.and_le_right

theorem exists_extended {v : BitVec 32} (hv : v ≤ kExtendedIdMax) :
    ∃ id : CanId, id.isExtended = true ∧
      ∀ f : Filter, f.matchesLow id = (v &&& f.low == f.id &&& f.low) := by
  refine ⟨⟨v ||| kEffFlag, CanId.inRange_or_kEffFlag hv⟩, ?_, fun f => ?_⟩
  · rw [CanId.isExtended_iff, CanId.or_kEffFlag_toNat hv]
    omega
  · have hlow : (v ||| kEffFlag) &&& f.low = v &&& f.low := by
      refine and_eq_and_iff.2 fun i hi => ?_
      have hbit : kEffFlag = BitVec.twoPow 32 31 := rfl
      rw [low, BitVec.getLsbD_and, kExtendedIdMax_getLsbD] at hi
      rw [BitVec.getLsbD_or, hbit, BitVec.getLsbD_twoPow]
      grind
    rw [matchesLow, hlow]

/-- An extended identifier matches the low bits of any filter. -/
theorem exists_extended_matchesLow (f : Filter) :
    ∃ id : CanId, id.isExtended = true ∧ f.matchesLow id = true := by
  obtain ⟨id, hext, hid⟩ := exists_extended (f.and_low_le f.id)
  refine ⟨id, hext, ?_⟩
  rw [hid, BitVec.and_assoc, BitVec.and_self, beq_self_eq_true]

/-- Unless the filter asks for no low bit, one does not. -/
theorem exists_extended_not_matchesLow (hf : f.low ≠ 0) :
    ∃ id : CanId, id.isExtended = true ∧ f.matchesLow id = false := by
  obtain ⟨id, hext, hid⟩ := exists_extended (f.and_low_le (~~~f.id))
  refine ⟨id, hext, ?_⟩
  rw [hid, BitVec.and_assoc, BitVec.and_self, beq_eq_false_iff_ne]
  intro heq
  refine hf (BitVec.eq_of_getLsbD_eq fun i hi => ?_)
  have hand := and_eq_and_iff.1 heq i
  rw [BitVec.getLsbD_not] at hand
  simp only [hi, decide_true, Bool.true_and, BitVec.ofNat_eq_ofNat, BitVec.getLsbD_zero] at hand ⊢
  grind

theorem exists_standard {v : BitVec 32} (hv : v ≤ kStandardIdMax) :
    ∃ id : CanId, id.isExtended = false ∧
      ∀ f : Filter, f.matchesLow id = (v &&& f.low == f.id &&& f.low) := by
  refine ⟨⟨v, .inl hv⟩, ?_, fun f => rfl⟩
  have hle : v.toNat ≤ 0x7FF := hv
  rw [← Bool.not_eq_true, CanId.isExtended_iff]
  dsimp only
  omega

/-- A standard identifier matches unless the filter asks for a bit above bit 10. -/
theorem exists_standard_matchesLow_iff (f : Filter) :
    (∃ id : CanId, id.isExtended = false ∧ f.matchesLow id = true) ↔
      f.id &&& f.low ≤ kStandardIdMax := by
  constructor
  · rintro ⟨id, hstd, hid⟩
    rw [matchesLow, beq_iff_eq] at hid
    obtain ⟨hpacked, hle⟩ := CanId.standard_value hstd
    rw [← hid]
    refine BitVec.le_trans ?_ (hpacked ▸ hle)
    rw [BitVec.le_def, BitVec.toNat_and]
    exact Nat.and_le_left
  · intro h
    obtain ⟨id, hstd, hid⟩ := exists_standard h
    refine ⟨id, hstd, ?_⟩
    rw [hid, BitVec.and_assoc, BitVec.and_self, beq_self_eq_true]

theorem matchesLow_of_low_eq_zero (hf : f.low = 0) (id : CanId) : f.matchesLow id = true := by
  have hzero : ∀ x : BitVec 32, x &&& (0 : BitVec 32) = 0 := fun x => BitVec.and_zero
  rw [matchesLow, hf, hzero, hzero, beq_self_eq_true]

/-- **Software and kernel agree on every identifier exactly on the filters of `Agrees`.** -/
theorem accepts_forall_iff (f : Filter) :
    (∀ id : CanId, f.native.accepts id.packed = f.accepts id) ↔ f.Agrees := by
  unfold Agrees
  split_ifs with h
  · obtain ⟨hbit, hinvert⟩ := h
    have hrule : ∀ id : CanId, f.native.accepts id.packed = f.accepts id ↔
        (f.matchesLow id && f.softwareAdmits id.isExtended) ≠
          (f.matchesLow id && f.kernelAdmits id.isExtended) := fun id => by
      rw [native_accepts_eq, accepts_eq, hbit, hinvert]
      grind
    constructor
    · intro hall
      have hlow : f.low = 0 := by_contra fun hne => by
        obtain ⟨id, -, hid⟩ := exists_extended_not_matchesLow hne
        exact (hrule id).1 (hall id) (by rw [hid, Bool.false_and, Bool.false_and])
      have hadmits : ∀ id : CanId,
          f.softwareAdmits id.isExtended ≠ f.kernelAdmits id.isExtended := fun id => by
        have := (hrule id).1 (hall id)
        rwa [matchesLow_of_low_eq_zero hlow, Bool.true_and, Bool.true_and] at this
      refine ⟨hlow, fun extended => ?_⟩
      cases extended with
      | true =>
        obtain ⟨id, hext, -⟩ := exists_extended_matchesLow f
        exact hext ▸ hadmits id
      | false =>
        obtain ⟨id, hstd, -⟩ := exists_standard (v := 0) (by decide)
        exact hstd ▸ hadmits id
    · rintro ⟨hlow, hadmits⟩ id
      rw [hrule, matchesLow_of_low_eq_zero hlow, Bool.true_and, Bool.true_and]
      exact hadmits id.isExtended
  · have hrule : ∀ id : CanId, f.native.accepts id.packed = f.accepts id ↔
        (f.matchesLow id = true →
          f.softwareAdmits id.isExtended = f.kernelAdmits id.isExtended) := fun id => by
      rw [native_accepts_eq, accepts_eq]
      grind
    constructor
    · intro hall
      constructor
      · obtain ⟨id, hext, hid⟩ := exists_extended_matchesLow f
        exact hext ▸ (hrule id).1 (hall id) hid
      · rw [← exists_standard_matchesLow_iff, or_iff_not_imp_right, not_not]
        rintro ⟨id, hstd, hid⟩
        exact hstd ▸ (hrule id).1 (hall id) hid
    · rintro ⟨hext, hstd⟩ id
      rw [hrule]
      intro hid
      cases hformat : id.isExtended with
      | true => exact hext
      | false =>
        exact hstd.resolve_right fun hne =>
          hne ((exists_standard_matchesLow_iff f).1 ⟨id, hformat, hid⟩)

/-- **The filters a list installs agree with the list** when each of them does. -/
theorem kernelAccepts_nativeFilters {filters : List Filter} (h : ∀ f ∈ filters, f.Agrees)
    (id : CanId) : kernelAccepts (nativeFilters filters) id.packed = acceptedBy filters id := by
  unfold nativeFilters acceptedBy
  cases filters with
  | nil =>
    have hzero : ∀ x : BitVec 32, x &&& (0 : BitVec 32) = 0 := fun x => BitVec.and_zero
    rw [if_pos rfl, kernelAccepts, List.any_cons, CanFilter.accepts, hzero, hzero]
    rfl
  | cons g gs =>
    rw [if_neg (List.cons_ne_nil g gs), kernelAccepts, List.any_map, List.isEmpty_cons,
      Bool.false_or, Bool.eq_iff_iff, List.any_eq_true, List.any_eq_true]
    refine exists_congr fun f => and_congr_right fun hf => ?_
    rw [← (accepts_forall_iff f).2 (h f hf) id]
    rfl

end Filter

/-- **Kernel and software filters agree exactly on `Filter.Agrees`,** and so do lists of such
filters. -/
theorem filters_agree_iff (f : Filter) (filters : List Filter) :
    ((∀ id : CanId, f.native.accepts id.packed = f.accepts id) ↔ f.Agrees) ∧
      ((∀ f ∈ filters, f.Agrees) → ∀ id : CanId,
        kernelAccepts (nativeFilters filters) id.packed = acceptedBy filters id) :=
  ⟨f.accepts_forall_iff, fun h id => Filter.kernelAccepts_nativeFilters h id⟩

theorem filters_agree_exact :
    kernelAccepts (nativeFilters [⟨0x80000123, 0x9FFFFFFF, false, true⟩]) 0x80000123 =
      acceptedBy [⟨0x80000123, 0x9FFFFFFF, false, true⟩] ⟨0x80000123, by decide⟩ :=
  (filters_agree_iff {} [⟨0x80000123, 0x9FFFFFFF, false, true⟩]).2 (by decide)
    ⟨0x80000123, by decide⟩

/-- The default filter accepts every identifier in software, in the kernel only standard ones. -/
theorem zero_mask_differs :
    ({} : Filter).accepts ⟨0x80000001, by decide⟩ = true ∧
      ({} : Filter).native.accepts 0x80000001 = false := by
  decide

end Transport
end Canforge
