/-
# The encoding of STmin

`ns_to_st_min` of `isotp/src/IsoTp.cpp` picks the byte for a separation time, and
`st_min_to_ns` (`stMinToNs`) reads it back.  The bytes that are not reserved stand for the
times `k` ms with `k ≤ 127` and `k · 100 µs` with `1 ≤ k ≤ 9`, so there is nothing between 900 µs
and 1 ms.  A time there is rounded down to 900 µs, and the sum `ns + 999999` wraps near `2 ^ 64`;
elsewhere the encoding rounds up (`roundsUp_iff`).
-/

import Canforge.IsoTp.Config

namespace Canforge
namespace IsoTp

open Canforge.Core

/-- `ns_to_st_min`. -/
def nsToStMin (ns : ℕ) : Byte :=
  if ns = 0 then 0
  else if ns < 1000000 then
    let hundreds := (ns + 99999) / 100000
    BitVec.ofNat 8 (0xF0 + min (max hundreds 1) 9)
  else BitVec.ofNat 8 (min (addNs ns 999999 / 1000000) 127)

/-- The bytes to which ISO 15765-2 gives no time of their own. -/
def ReservedStMin (raw : Byte) : Prop := ¬ (raw ≤ 0x7F#8 ∨ (0xF1#8 ≤ raw ∧ raw ≤ 0xF9#8))

instance (raw : Byte) : Decidable (ReservedStMin raw) := inferInstanceAs (Decidable (¬ _))

/-- The separation time that is asked for in place of `ns`. -/
def separation (ns : ℕ) : ℕ := stMinToNs (nsToStMin ns)

/-- **Rounding up:** the least time of a byte that is long enough, and 127 ms above that.  A
shorter time asks for no more. -/
structure RoundsUp (ns : ℕ) : Prop where
  enough : ns ≤ 127000000 → ns ≤ separation ns
  least : ns ≤ 127000000 → ∀ raw, ¬ ReservedStMin raw → ns ≤ stMinToNs raw →
    separation ns ≤ stMinToNs raw
  slowest : 127000000 < ns → separation ns = 127000000
  mono : ∀ shorter ≤ ns, separation shorter ≤ separation ns

theorem stMinToNs_milliseconds {k : ℕ} (h : k ≤ 127) :
    stMinToNs (BitVec.ofNat 8 k) = k * 1000000 := by
  have hall : ∀ k < 128, stMinToNs (BitVec.ofNat 8 k) = k * 1000000 := by decide
  exact hall k (by omega)

theorem stMinToNs_hundreds {k : ℕ} (h₁ : 1 ≤ k) (h₉ : k ≤ 9) :
    stMinToNs (BitVec.ofNat 8 (0xF0 + k)) = k * 100000 := by
  interval_cases k <;> rfl

/-- The times that a byte stands for. -/
theorem exists_of_not_reserved {raw : Byte} (h : ¬ ReservedStMin raw) :
    (∃ k ≤ 127, stMinToNs raw = k * 1000000) ∨
      ∃ k, 1 ≤ k ∧ k ≤ 9 ∧ stMinToNs raw = k * 100000 := by
  rcases not_not.1 h with hms | ⟨hlow, hhigh⟩
  · exact .inl ⟨raw.toNat, hms, if_pos hms⟩
  · have hlow : 0xF1 ≤ raw.toNat := hlow
    have hhigh : raw.toNat ≤ 0xF9 := hhigh
    refine .inr ⟨raw.toNat - 0xF0, by omega, by omega, ?_⟩
    have hms : ¬ raw ≤ 0x7F#8 := fun hle => by
      have hle : raw.toNat ≤ 0x7F := hle
      omega
    rw [stMinToNs, if_neg hms, if_pos ⟨hlow, hhigh⟩]

/-! ### What each branch asks for -/

theorem separation_zero : separation 0 = 0 := by decide

theorem separation_hundreds {ns : ℕ} (h₀ : 0 < ns) (h : ns < 1000000) :
    separation ns = min ((ns + 99999) / 100000) 9 * 100000 := by
  have hone : max ((ns + 99999) / 100000) 1 = (ns + 99999) / 100000 := max_eq_left (by omega)
  rw [separation, nsToStMin, if_neg h₀.ne', if_pos h]
  dsimp only
  rw [hone, stMinToNs_hundreds (by omega) (by omega)]

theorem separation_milliseconds {ns : ℕ} (h : 1000000 ≤ ns) :
    separation ns = min (addNs ns 999999 / 1000000) 127 * 1000000 := by
  rw [separation, nsToStMin, if_neg (by omega), if_neg (by omega),
    stMinToNs_milliseconds (by omega)]

/-- Where the encoding rounds up: not in the gap, and not where the sum wraps. -/
def Encodable (ns : ℕ) : Prop := ¬ (900000 < ns ∧ ns < 1000000) ∧ ns + 999999 < 2 ^ 64

instance (ns : ℕ) : Decidable (Encodable ns) := inferInstanceAs (Decidable (_ ∧ _))

theorem separation_of_sum {ns : ℕ} (h : 1000000 ≤ ns) (hsum : ns + 999999 < 2 ^ 64) :
    separation ns = min ((ns + 999999) / 1000000) 127 * 1000000 := by
  rw [separation_milliseconds h, addNs, Nat.mod_eq_of_lt hsum]

theorem separation_of_wrap {ns : ℕ} (h : ns < 2 ^ 64) (hsum : 2 ^ 64 ≤ ns + 999999) :
    separation ns = 0 := by
  have hwrapped : addNs ns 999999 / 1000000 = 0 := by
    rw [addNs]
    omega
  rw [separation_milliseconds (by omega), hwrapped, Nat.zero_min, Nat.zero_mul]

/-- No time asks for more than a longer one whose sum does not wrap. -/
theorem separation_mono {shorter ns : ℕ} (hle : shorter ≤ ns) (hsum : ns + 999999 < 2 ^ 64) :
    separation shorter ≤ separation ns := by
  rcases Nat.eq_zero_or_pos shorter with rfl | hpos
  · rw [separation_zero]
    exact Nat.zero_le _
  rcases Nat.lt_or_ge ns 1000000 with hns | hns
  · rw [separation_hundreds hpos (by omega), separation_hundreds (by omega) hns]
    omega
  · rw [separation_of_sum hns hsum]
    rcases Nat.lt_or_ge shorter 1000000 with hshort | hshort
    · rw [separation_hundreds hpos hshort]
      omega
    · rw [separation_of_sum hshort (by omega)]
      omega

theorem separation_enough {ns : ℕ} (h : Encodable ns) (hmax : ns ≤ 127000000) :
    ns ≤ separation ns := by
  obtain ⟨hgap, hsum⟩ := h
  rcases Nat.eq_zero_or_pos ns with rfl | hpos
  · exact Nat.zero_le _
  rcases Nat.lt_or_ge ns 1000000 with hns | hns
  · rw [separation_hundreds hpos hns]
    omega
  · rw [separation_of_sum hns hsum]
    omega

theorem separation_least {ns : ℕ} (h : Encodable ns) {raw : Byte} (hraw : ¬ ReservedStMin raw)
    (hlong : ns ≤ stMinToNs raw) : separation ns ≤ stMinToNs raw := by
  obtain ⟨hgap, hsum⟩ := h
  rcases Nat.eq_zero_or_pos ns with rfl | hpos
  · rw [separation_zero]
    exact Nat.zero_le _
  have hraw := exists_of_not_reserved hraw
  rcases Nat.lt_or_ge ns 1000000 with hns | hns
  · rw [separation_hundreds hpos hns]
    omega
  · rw [separation_of_sum hns hsum]
    omega

/-- **The encoding rounds up** exactly outside the gap between 900 µs and 1 ms and below the last
millisecond of the 64 bits. -/
theorem roundsUp_iff {ns : ℕ} (h : ns < 2 ^ 64) : RoundsUp ns ↔ Encodable ns := by
  constructor
  · intro hup
    constructor
    · rintro ⟨hlow, hhigh⟩
      have henough := hup.enough (by omega)
      rw [separation_hundreds (by omega) hhigh] at henough
      omega
    · by_contra hsum
      have hslowest := hup.slowest (by omega)
      rw [separation_of_wrap h (by omega)] at hslowest
      cases hslowest
  · intro henc
    refine ⟨separation_enough henc, fun _ _ => separation_least henc, fun hmax => ?_,
      fun _ hle => separation_mono hle henc.2⟩
    rw [separation_of_sum (by omega) henc.2]
    omega

theorem roundsUp_at_limits : RoundsUp 900000 ∧ RoundsUp 1000000 :=
  ⟨(roundsUp_iff (by decide)).2 (by decide), (roundsUp_iff (by decide)).2 (by decide)⟩

/-- A time in the gap is cut short, and the longest one asks for no separation at all. -/
theorem rounded_down : ¬ RoundsUp 950000 ∧ ¬ RoundsUp (2 ^ 64 - 1) := by
  constructor
  · intro hup
    exact absurd (hup.enough (by decide)) (by decide)
  · intro hup
    exact absurd (hup.slowest (by decide)) (by decide +kernel)

end IsoTp
end Canforge
