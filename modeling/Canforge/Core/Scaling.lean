/-
# Physical values

The rest of `SignalLayout` (`core/include/canforge/core/Signal.hpp`,
`core/src/Signal.cpp`): the sign, the type and the scale of a signal, `raw_to_physical` and
`physical_to_raw`, and `validate`.  The place of the signal in a payload is
`Canforge.Core.Signal`.
-/

import Canforge.Core.Frame
import Canforge.Core.Scalar
import Canforge.Core.Signal

namespace Canforge
namespace Core

/-- `-` and `+` of a DBC signal. -/
inductive Signedness
  | unsigned
  | signed
  deriving DecidableEq, Repr

/-- `SIG_VALTYPE_`. -/
inductive ValueType
  | integer
  | float32
  | float64
  deriving DecidableEq, Repr

/-- `SignalLayout`. -/
structure ScaledLayout (R : Type) extends SignalLayout where
  signedness : Signedness := .unsigned
  valueType : ValueType := .integer
  factor : R
  offset : R
  minimum : R
  maximum : R

/-- `sign_extend`. -/
def signExtend (raw : BitVec 64) (len : ℕ) : ℤ :=
  if 64 ≤ len then raw.toInt
  else if raw &&& (1#64 <<< (len - 1)) ≠ 0 then (raw ||| ~~~bitMask len).toInt
  else raw.toInt

namespace ScaledLayout

open Scalar

variable {R : Type} [Scalar R] (s : ScaledLayout R)

/-- `has_range`: `[0|0]` is no range. -/
def hasRange : Bool := !eq s.minimum (lit 0) || !eq s.maximum (lit 0)

/-- `raw_to_physical`. -/
def rawToPhysical (raw : BitVec 64) : R :=
  let value : R := match s.valueType with
    | .float32 => ofFloatBits (raw.setWidth 32)
    | .float64 => ofDoubleBits raw
    | .integer => match s.signedness with
      | .signed => ofInt (signExtend raw s.bitLength)
      | .unsigned => Scalar.ofNat raw.toNat
  value * s.factor + s.offset

/-- The bits of an integer signal for a rounded value that is a number. -/
def saturate (rounded : R) : BitVec 64 :=
  match s.signedness with
  | .signed =>
    let top : R := lit (2 ^ s.bitLength / 2)
    if le top rounded then bitMask s.bitLength >>> 1
    else if lt rounded (-top) then 1#64 <<< (if 64 ≤ s.bitLength then 63 else s.bitLength - 1)
    else BitVec.ofInt 64 (toInt rounded)
  | .unsigned =>
    let top : R := lit (2 ^ s.bitLength)
    if le rounded (lit 0) then 0
    else if le top rounded then bitMask s.bitLength
    else BitVec.ofNat 64 (toNat rounded)

/-- `physical_to_raw`. -/
def physicalToRaw (physical : R) : BitVec 64 :=
  let v := if s.hasRange && !isNan physical then
      Scalar.min (Scalar.max physical (Scalar.min s.minimum s.maximum))
        (Scalar.max s.minimum s.maximum)
    else physical
  let scaled := (v - s.offset) / s.factor
  match s.valueType with
  | .float32 => (toFloatBits scaled).setWidth 64
  | .float64 => toDoubleBits scaled
  | .integer =>
    let rounded := Scalar.round scaled
    s.saturate (if isNan rounded then lit 0 else rounded) &&& bitMask s.bitLength

/-- `decode`. -/
def decode (data : List Byte) : Option R := (s.decodeRaw data).map s.rawToPhysical

/-- `encode`; the result is the buffer after the call. -/
def encode (physical : R) (data : List Byte) : Option (Result (List Byte)) :=
  if !isFinite physical && decide (s.valueType = .integer) then
    some (.error ⟨.codecValueNotFinite,
      "cannot encode a non-finite value into an integer signal", (s.startBit, s.bitLength)⟩)
  else (s.encodeRaw (s.physicalToRaw physical) data).map .ok

/-- `validate`. -/
def validate (payloadBytes : ℕ) : Result Unit :=
  let refuse (code : ErrorCode) (message : String) : Result Unit :=
    .error ⟨code, message, (s.startBit, s.bitLength)⟩
  if s.bitLength < 1 ∨ 64 < s.bitLength then
    refuse .codecBadBitLength "a signal must be between 1 and 64 bits wide"
  else if eq s.factor (lit 0) || !isFinite s.factor then
    refuse .codecBadFactor "a signal scale factor must be finite and non-zero"
  else if !isFinite s.offset then
    refuse .codecBadFactor "a signal offset must be finite"
  else if s.valueType = .float32 ∧ s.bitLength ≠ 32 then
    refuse .codecBadBitLength "an IEEE single precision signal must be 32 bits wide"
  else if s.valueType = .float64 ∧ s.bitLength ≠ 64 then
    refuse .codecBadBitLength "an IEEE double precision signal must be 64 bits wide"
  else if payloadBytes * 8 < s.canonicalEnd then
    refuse .codecSignalOutOfBounds "signal extends past the end of the payload"
  else .ok ()

variable {s}

/-- **A valid signal fits.** -/
theorem fits_of_validate {n : ℕ} (h : s.validate n = .ok ()) : s.fits n := by
  unfold validate at h
  dsimp only at h
  split_ifs at h with hlen _ _ _ _ hend
  exact ⟨by omega, by omega, by omega⟩

/-- The factor of a valid signal is not zero. -/
theorem factor_of_validate {n : ℕ} (h : s.validate n = .ok ()) : eq s.factor (lit 0) = false := by
  unfold validate at h
  dsimp only at h
  split_ifs at h with _ hfactor
  exact (Bool.or_eq_false_iff.1 (Bool.eq_false_iff.2 hfactor)).1

/-- A valid signal of IEEE numbers is as wide as these are. -/
theorem width_of_validate {n : ℕ} (h : s.validate n = .ok ()) :
    (s.valueType = .float32 → s.bitLength = 32) ∧ (s.valueType = .float64 → s.bitLength = 64) := by
  unfold validate at h
  dsimp only at h
  split_ifs at h with _ _ _ h32 h64
  exact ⟨fun ht => not_not.1 fun hne => h32 ⟨ht, hne⟩, fun ht => not_not.1 fun hne => h64 ⟨ht, hne⟩⟩

end ScaledLayout

end Core
end Canforge
