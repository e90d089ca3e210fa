/-
# The arbitration order of identifiers

`CanId::arbitration_key` and `operator<` of `core/include/canforge/core/Frame.hpp`.
The key is the 11 base bits, the identifier extension bit and the 18 extension
bits as one number (`arbitrationKey_toNat`).  Its order is what happens on the
wire: the identifier that has a dominant `0` at the first difference of the bits
two data frames send is the smaller one (`less_iff_dominates`), and the order is
total (`less_trichotomy`).
-/

import Canforge.Core.Frame
import Canforge.Lib.Dominance

namespace Canforge
namespace Core

open Lib (Dominates msbBits dominates_append dominates_msbBits dominates_cons msbBits_inj)

namespace CanId

/-- `arbitration_key`. -/
def arbitrationKey (id : CanId) : BitVec 64 :=
  let base := if id.isExtended then id.value >>> 18 else id.value
  let ide : BitVec 32 := if id.isExtended then 1 else 0
  let ext := if id.isExtended then id.value &&& 0x3FFFF else 0
  (base.setWidth 64 <<< 19) ||| (ide.setWidth 64 <<< 18) ||| ext.setWidth 64

/-- `operator<`. -/
def less (a b : CanId) : Bool := decide (a.arbitrationKey < b.arbitrationKey)

/-- The 11 bits both formats begin with. -/
def base (id : CanId) : ℕ := if id.isExtended then id.value.toNat / 2 ^ 18 else id.value.toNat

/-- What a data frame sends while it arbitrates: the base, then `RTR` and `IDE`, or `SRR`,
`IDE` and the extension. -/
def arbitrationBits (id : CanId) : List Bool :=
  msbBits 11 id.base ++
    if id.isExtended then true :: true :: msbBits 18 id.value.toNat else [false, false]

theorem base_lt (id : CanId) : id.base < 2 ^ 11 := by
  have hlt := id.value_toNat
  unfold base
  cases h : id.isExtended with
  | true =>
    rw [if_pos rfl]
    omega
  | false =>
    have hle : id.value.toNat ≤ 0x7FF := (standard_value h).2
    rw [if_neg Bool.false_ne_true]
    omega

/-- The extension bits, `0` for a standard identifier. -/
def extension (id : CanId) : ℕ := if id.isExtended then id.value.toNat % 2 ^ 18 else 0

theorem extension_lt (id : CanId) : id.extension < 2 ^ 18 := by
  unfold extension
  split_ifs <;> omega

/-- Three fields side by side in one word. -/
theorem pack_toNat {b i e : BitVec 32} (hb : b.toNat < 2 ^ 11) (hi : i.toNat < 2)
    (he : e.toNat < 2 ^ 18) :
    ((b.setWidth 64 <<< 19) ||| (i.setWidth 64 <<< 18) ||| e.setWidth 64).toNat =
      2 ^ 19 * b.toNat + (2 ^ 18 * i.toNat + e.toNat) := by
  rw [Nat.two_pow_add_eq_or_of_lt (by omega), Nat.two_pow_add_eq_or_of_lt he, ← Nat.or_assoc]
  simp only [BitVec.toNat_or, BitVec.toNat_shiftLeft, BitVec.toNat_setWidth, Nat.shiftLeft_eq]
  rw [Nat.mod_eq_of_lt (a := b.toNat) (by omega), Nat.mod_eq_of_lt (a := i.toNat) (by omega),
    Nat.mod_eq_of_lt (a := e.toNat) (by omega), Nat.mod_eq_of_lt (by omega),
    Nat.mod_eq_of_lt (by omega), Nat.mul_comm b.toNat, Nat.mul_comm i.toNat]

theorem arbitrationKey_toNat (id : CanId) : id.arbitrationKey.toNat =
    2 ^ 19 * id.base + (2 ^ 18 * id.isExtended.toNat + id.extension) := by
  have hbase := id.base_lt
  have hext := id.extension_lt
  unfold arbitrationKey base extension at *
  cases h : id.isExtended with
  | true =>
    have hand : (id.value &&& 0x3FFFF).toNat = id.value.toNat % 2 ^ 18 := by
      rw [BitVec.toNat_and, ← Nat.and_two_pow_sub_one_eq_mod]
      rfl
    have hshift : (id.value >>> 18).toNat = id.value.toNat / 2 ^ 18 := by
      rw [BitVec.toNat_ushiftRight, Nat.shiftRight_eq_div_pow]
    simp only [h, if_true] at hbase hext ⊢
    rw [pack_toNat (by rwa [hshift]) (by decide) (by rwa [hand]), hand, hshift]
    rfl
  | false =>
    simp only [h, Bool.false_eq_true, if_false] at hbase ⊢
    rw [pack_toNat hbase (by decide) (by decide)]
    rfl

/-- Format and value are the identifier. -/
theorem ext_value {a b : CanId} (he : a.isExtended = b.isExtended) (hv : a.value = b.value) :
    a = b := by
  have hpacked : a.packed = b.packed := by
    cases h : a.isExtended with
    | true => rw [(extended_value h).1, (extended_value (he ▸ h)).1, hv]
    | false => rw [(standard_value h).1, (standard_value (he ▸ h)).1, hv]
  cases a
  cases b
  cases hpacked
  rfl

theorem arbitrationKey_injective : Function.Injective arbitrationKey := by
  intro a b h
  have hkey := congrArg BitVec.toNat h
  have ha := a.extension_lt
  have hb := b.extension_lt
  have hia := a.isExtended.toNat_le
  have hib := b.isExtended.toNat_le
  rw [arbitrationKey_toNat, arbitrationKey_toNat] at hkey
  have hide : a.isExtended.toNat = b.isExtended.toNat := by omega
  have he : a.isExtended = b.isExtended := by
    revert hide
    cases a.isExtended <;> cases b.isExtended <;> decide
  have hbase : a.base = b.base := by omega
  have hext : a.extension = b.extension := by
    rw [he] at hkey
    omega
  refine ext_value he (BitVec.eq_of_toNat_eq ?_)
  unfold base at hbase
  unfold extension at hext
  rw [← he] at hbase hext
  split_ifs at hbase hext with h
  · omega
  · exact hbase

/-- The bits behind the base, compared. -/
theorem dominates_tail (a b : CanId) :
    Dominates (if a.isExtended then true :: true :: msbBits 18 a.value.toNat else [false, false])
        (if b.isExtended then true :: true :: msbBits 18 b.value.toNat else [false, false]) ↔
      2 ^ 18 * a.isExtended.toNat + a.extension < 2 ^ 18 * b.isExtended.toNat + b.extension := by
  have ha := a.extension_lt
  have hb := b.extension_lt
  unfold extension at *
  cases hea : a.isExtended <;> cases heb : b.isExtended <;>
    simp [hea, heb, dominates_cons, dominates_msbBits, Lib.not_dominates_nil_left] at ha hb ⊢

/-- **The order of identifiers is the one of the wire.** -/
theorem less_iff_dominates (a b : CanId) :
    a.less b = true ↔ Dominates a.arbitrationBits b.arbitrationBits := by
  have ha := a.base_lt
  have hb := b.base_lt
  have hea := a.extension_lt
  have heb := b.extension_lt
  have hia := a.isExtended.toNat_le
  have hib := b.isExtended.toNat_le
  unfold arbitrationBits
  rw [dominates_append (by simp), dominates_msbBits, msbBits_inj, dominates_tail,
    Nat.mod_eq_of_lt ha, Nat.mod_eq_of_lt hb, less, decide_eq_true_iff, BitVec.lt_def,
    arbitrationKey_toNat, arbitrationKey_toNat]
  omega

theorem less_iff (a b : CanId) :
    a.less b = true ↔ a.arbitrationKey.toNat < b.arbitrationKey.toNat := by
  rw [less, decide_eq_true_iff, BitVec.lt_def]

theorem less_irrefl (a : CanId) : a.less a = false := by
  rw [← Bool.not_eq_true, less_iff]
  exact lt_irrefl _

theorem less_trans {a b c : CanId} (hab : a.less b = true) (hbc : b.less c = true) :
    a.less c = true := by
  rw [less_iff] at *
  exact hab.trans hbc

/-- **Of two identifiers one is the smaller, or they are one.** -/
theorem less_trichotomy (a b : CanId) : a.less b = true ∨ a = b ∨ b.less a = true := by
  rw [less_iff, less_iff]
  refine (lt_trichotomy _ _).imp id (Or.imp (fun h => ?_) id)
  exact arbitrationKey_injective (BitVec.eq_of_toNat_eq h)

end CanId

end Core
end Canforge
