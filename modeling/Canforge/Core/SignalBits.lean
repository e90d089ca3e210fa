/-
# The codec bit by bit

What each loop and each half of the codec of `Canforge.Core.Signal` does to the
bits of a buffer, when the run fits.  `loadLe` and `loadBe` are the two
numberings of the same bits (`loadLe_spec`, `loadBe_spec`), `storeLe` and
`storeBe` put them back (`storeLe_spec`, `storeBe_spec`), and the four
`extract`/`insert` functions are then read off their masks and shifts one bit at
a time.  Bit `i` of a signal lives in the cell `SignalLayout.cell i`: an Intel
run ascends from the least significant bit of the signal, a Motorola run from
the most significant one.
-/

import Canforge.Core.Signal
import Canforge.Lib.Run

namespace Canforge
namespace Core

open Lib

theorem getLsbD_bitMask (len i : ℕ) :
    (bitMask len).getLsbD i = (decide (i < len) && decide (i < 64)) := by
  unfold bitMask
  split_ifs with h
  · rw [BitVec.getLsbD_not, BitVec.getLsbD_zero]
    by_cases hi : i < 64
    · simp only [hi, show i < len by omega, decide_true, Bool.not_false, Bool.and_self]
    · simp only [hi, decide_false, Bool.false_and, Bool.and_false]
  · have hlt : 2 ^ len < 2 ^ 64 := Nat.pow_lt_pow_right (by omega) (by omega)
    have hone : (1#64 <<< len).toNat = 2 ^ len := by
      rw [BitVec.toNat_shiftLeft, Nat.shiftLeft_eq, BitVec.toNat_one (by omega), Nat.one_mul,
        Nat.mod_eq_of_lt hlt]
    have hpos : 0 < 2 ^ len := Nat.pow_pos (by omega)
    have hsub : (1#64 <<< len - 1#64).toNat = 2 ^ len - 1 := by
      rw [BitVec.toNat_sub_of_le (by rw [BitVec.le_def, hone]; exact hpos), hone]
      rfl
    rw [← BitVec.testBit_toNat, hsub, Nat.testBit_two_pow_sub_one]
    by_cases hi : i < len
    · simp [hi, show i < 64 by omega]
    · simp [hi]

/-! ### Words -/

section Words

variable {data : List Byte} {first n : ℕ} {v : BitVec 64}

/-- **`load_le` numbers the bits of `n` bytes from the first one up.** -/
theorem loadLe_spec (hl : first + n ≤ data.length) (hn : n ≤ 8) :
    ∃ w, loadLe data first n = some w ∧
      ∀ j, w.getLsbD j = (decide (j < 8 * n) && bitOf data (first + j / 8, j % 8)) := by
  induction n with
  | zero => exact ⟨0, rfl, fun j => by simp⟩
  | succ n ih =>
    obtain ⟨w, hw, hb⟩ := ih (by omega) (by omega)
    refine ⟨w ||| (data.getD (first + n) 0).setWidth 64 <<< (8 * n), ?_, fun j => ?_⟩
    · simp only [loadLe, hw, readByte_eq (show first + n < data.length by omega),
        shl_eq _ (show 8 * n < 64 by omega), Option.bind_eq_bind, Option.bind_some]
      rfl
    rw [BitVec.getLsbD_or, hb, BitVec.getLsbD_shiftLeft, BitVec.getLsbD_setWidth]
    rcases Nat.lt_or_ge j (8 * n) with h | h
    · simp [h, show j < 8 * (n + 1) by omega]
    rcases Nat.lt_or_ge j (8 * (n + 1)) with h' | h'
    · rw [show j / 8 = n by omega, show j - 8 * n = j % 8 by omega]
      simp [h', show j < 64 by omega, show ¬ j < 8 * n by omega, bitOf,
        show j % 8 < 64 by omega]
    · simp [show ¬ j < 8 * n by omega, show ¬ j < 8 * (n + 1) by omega,
        BitVec.getLsbD_of_ge _ _ (show 8 ≤ j - 8 * n by omega)]

/-- **`load_be` numbers them from the last byte up.** -/
theorem loadBe_spec (hl : first + n ≤ data.length) (hn : n ≤ 8) :
    ∃ w, loadBe data first n = some w ∧
      ∀ j, w.getLsbD j =
        (decide (j < 8 * n) && bitOf data (first + (n - 1 - j / 8), j % 8)) := by
  induction n with
  | zero => exact ⟨0, rfl, fun j => by simp⟩
  | succ n ih =>
    obtain ⟨w, hw, hb⟩ := ih (by omega) (by omega)
    refine ⟨w <<< 8 ||| (data.getD (first + n) 0).setWidth 64, ?_, fun j => ?_⟩
    · simp only [loadBe, hw, readByte_eq (show first + n < data.length by omega),
        shl_eq _ (show 8 < 64 by omega), Option.bind_eq_bind, Option.bind_some]
      rfl
    rw [BitVec.getLsbD_or, BitVec.getLsbD_shiftLeft, hb, BitVec.getLsbD_setWidth]
    rcases Nat.lt_or_ge j 8 with h | h
    · rw [show j / 8 = 0 by omega, show j % 8 = j by omega]
      simp [h, show j < 64 by omega, show j < 8 * (n + 1) by omega, bitOf]
    · rw [BitVec.getLsbD_of_ge (data.getD (first + n) 0) j h,
        show n + 1 - 1 - j / 8 = n - 1 - (j - 8) / 8 by omega,
        show (j - 8) % 8 = j % 8 by omega]
      rcases Nat.lt_or_ge j (8 * (n + 1)) with h' | h'
      · simp [h', show ¬ j < 8 by omega, show j < 64 by omega, show j - 8 < 8 * n by omega]
      · simp [show ¬ j < 8 * (n + 1) by omega, show ¬ j - 8 < 8 * n by omega]

/-- A byte cut out of a word. -/
theorem getLsbD_byteOf (w : BitVec 64) {k : ℕ} (h : k < 8) :
    ((w &&& 0xFF#64).setWidth 8).getLsbD k = w.getLsbD k := by
  have h255 : (0xFF#64).getLsbD k = true := by
    rw [show 0xFF#64 = bitMask 8 from rfl, getLsbD_bitMask]
    simp [h, show k < 64 by omega]
  rw [BitVec.getLsbD_setWidth, BitVec.getLsbD_and, h255]
  simp [h]

/-- **`store_le` puts bit `8 * i + k` of the word at bit `k` of byte `first + i`.** -/
theorem storeLe_spec (hl : first + n ≤ data.length) (hn : n ≤ 8) :
    ∃ d, storeLe data first v n = some d ∧ d.length = data.length ∧
      ∀ i k, k < 8 → bitOf d (i, k) =
        if first ≤ i ∧ i < first + n then v.getLsbD (8 * (i - first) + k)
        else bitOf data (i, k) := by
  induction n with
  | zero => exact ⟨data, rfl, rfl, fun i k _ => by simp [show ¬ (first ≤ i ∧ i < first) by omega]⟩
  | succ n ih =>
    obtain ⟨d, hd, hlen, hb⟩ := ih (by omega) (by omega)
    have hlt : first + n < d.length := by omega
    refine ⟨d.set (first + n) ((v >>> (8 * n) &&& 0xFF#64).setWidth 8), ?_, by simpa using hlen,
      fun i k hk => ?_⟩
    · simp only [storeLe, hd, shr_eq _ (show 8 * n < 64 by omega), writeByte_eq _ hlt,
        Option.bind_eq_bind, Option.bind_some]
    rw [bitOf_set _ hlt, hb i k hk, getLsbD_byteOf _ hk, BitVec.getLsbD_ushiftRight]
    split_ifs with h₁ h₂ h₃ h₃ h₃ <;> first | rfl | omega | skip
    rw [show i - first = n by omega]

/-- **`store_be` puts it in the byte as far from the last one.** -/
theorem storeBe_spec {m : ℕ} (hn : n ≤ 8) (hl : first + m ≤ data.length) (hm : m ≤ n) :
    ∃ d, storeBe data first n v m = some d ∧ d.length = data.length ∧
      ∀ i k, k < 8 → bitOf d (i, k) =
        if first ≤ i ∧ i < first + m then v.getLsbD (8 * (n - 1 - (i - first)) + k)
        else bitOf data (i, k) := by
  induction m with
  | zero => exact ⟨data, rfl, rfl, fun i k _ => by simp [show ¬ (first ≤ i ∧ i < first) by omega]⟩
  | succ m ih =>
    obtain ⟨d, hd, hlen, hb⟩ := ih (by omega) (by omega)
    have hlt : first + m < d.length := by omega
    refine ⟨d.set (first + m) ((v >>> (8 * (n - 1 - m)) &&& 0xFF#64).setWidth 8), ?_,
      by simpa using hlen, fun i k hk => ?_⟩
    · simp only [storeBe, hd, shr_eq _ (show 8 * (n - 1 - m) < 64 by omega), writeByte_eq _ hlt,
        Option.bind_eq_bind, Option.bind_some]
    rw [bitOf_set _ hlt, hb i k hk, getLsbD_byteOf _ hk, BitVec.getLsbD_ushiftRight]
    split_ifs with h₁ h₂ h₃ h₃ h₃ <;> first | rfl | omega | skip
    rw [show i - first = m by omega]

end Words

/-! ### Splicing a value into a word or a byte -/

/-- Below the window the word keeps its bits, inside it has those of the value. -/
theorem getLsbD_splice (acc raw : BitVec 64) {len off j : ℕ} (hj : j < 64) :
    ((acc &&& ~~~(bitMask len <<< off)) |||
      ((raw &&& bitMask len) <<< off &&& bitMask len <<< off)).getLsbD j =
      if off ≤ j ∧ j < off + len then raw.getLsbD (j - off) else acc.getLsbD j := by
  simp only [BitVec.getLsbD_or, BitVec.getLsbD_and, BitVec.getLsbD_not, BitVec.getLsbD_shiftLeft,
    getLsbD_bitMask]
  by_cases h : off ≤ j ∧ j < off + len
  · simp [h, hj, show ¬ j < off by omega, show j - off < len by omega,
      show j - off < 64 by omega]
  · rcases Nat.lt_or_ge j off with h' | h'
    · simp [h, hj, h']
    · simp [h, hj, show ¬ j < off by omega, show ¬ j - off < len by omega]

/-- A byte takes the bits its mask selects. -/
theorem getLsbD_spliceByte (p mask : Byte) (w : BitVec 64) {k : ℕ} (hk : k < 8) :
    ((p &&& ~~~mask) ||| (w &&& mask.setWidth 64).setWidth 8).getLsbD k =
      if mask.getLsbD k then w.getLsbD k else p.getLsbD k := by
  simp only [BitVec.getLsbD_or, BitVec.getLsbD_and, BitVec.getLsbD_not, BitVec.getLsbD_setWidth]
  cases mask.getLsbD k <;> simp [hk, show k < 64 by omega]

theorem getLsbD_lowMask : ∀ tail < 8, ∀ k < 8,
    ((1#32 <<< tail - 1#32).setWidth 8 : Byte).getLsbD k = decide (k < tail) := by decide

theorem getLsbD_highMask : ∀ tail < 8, ∀ k < 8,
    ((0xFF#32 <<< (8 - tail)).setWidth 8 : Byte).getLsbD k = decide (8 - tail ≤ k) := by decide

/-! ### Intel runs -/

section Intel

variable {data : List Byte} {q₀ len : ℕ}

/-- **Bit `i` of an Intel signal is canonical bit `q₀ + i`.** -/
theorem extractIntel_spec (h₁ : 1 ≤ len) (h₆₄ : len ≤ 64) (hl : q₀ + len ≤ data.length * 8) :
    ∃ w, extractIntel data q₀ len = some w ∧
      ∀ i, w.getLsbD i = (decide (i < len) && bitOf data (addressOf (q₀ + i) .intel)) := by
  obtain ⟨first, off, hoff, rfl⟩ : ∃ f o, o < 8 ∧ q₀ = 8 * f + o :=
    ⟨q₀ / 8, q₀ % 8, by omega, by omega⟩
  obtain ⟨acc, hacc, hb⟩ := loadLe_spec (n := min (spannedBytes off len) 8)
    (show first + _ ≤ data.length by unfold spannedBytes; omega) (by omega)
  have hfirst : (8 * first + off) / 8 = first := by omega
  have hmod : (8 * first + off) % 8 = off := by omega
  simp only [extractIntel, hfirst, hmod, hacc, Option.bind_eq_bind, Option.bind_some,
    shr_eq _ (show off < 64 by omega)]
  by_cases hnb : spannedBytes off len = 9
  · have hlast : first + 8 < data.length := by unfold spannedBytes at hnb; omega
    have hspill : 64 - off < 64 := by unfold spannedBytes at hnb; omega
    simp only [if_pos hnb, readByte_eq hlast, shl_eq _ hspill, Option.bind_some]
    refine ⟨_, rfl, fun i => ?_⟩
    rw [BitVec.getLsbD_and, getLsbD_bitMask, BitVec.getLsbD_or, BitVec.getLsbD_ushiftRight, hb,
      hnb, BitVec.getLsbD_shiftLeft, BitVec.getLsbD_setWidth]
    by_cases hi : i < len
    · rcases Nat.lt_or_ge (off + i) 64 with h | h
      · simp only [addressOf, show (8 * first + off + i) / 8 = first + (off + i) / 8 by omega,
          show (8 * first + off + i) % 8 = (off + i) % 8 by omega]
        simp [h, hi, show i < 64 by omega, show i < 64 - off by omega]
      · simp only [addressOf, show (8 * first + off + i) / 8 = first + 8 by omega,
          show (8 * first + off + i) % 8 = i - (64 - off) by omega, bitOf]
        simp [show ¬ off + i < 64 by omega, hi, show i < 64 by omega,
          show ¬ i < 64 - off by omega]
        omega
    · simp [hi]
  · have hnb : spannedBytes off len ≤ 8 := by unfold spannedBytes at hnb ⊢; omega
    simp only [if_neg (show ¬ spannedBytes off len = 9 by omega)]
    refine ⟨_, rfl, fun i => ?_⟩
    rw [BitVec.getLsbD_and, getLsbD_bitMask, BitVec.getLsbD_ushiftRight, hb]
    by_cases hi : i < len
    · simp only [addressOf, show (8 * first + off + i) / 8 = first + (off + i) / 8 by omega,
        show (8 * first + off + i) % 8 = (off + i) % 8 by omega]
      unfold spannedBytes at hnb ⊢
      simp [hi, show i < 64 by omega]
      omega
    · simp [hi]

/-- **`insert_intel` stores bit `i` of the value at canonical bit `q₀ + i`**, and
leaves the rest of the buffer alone. -/
theorem insertIntel_spec (raw : BitVec 64) (h₁ : 1 ≤ len) (h₆₄ : len ≤ 64)
    (hl : q₀ + len ≤ data.length * 8) :
    ∃ d, insertIntel data q₀ len raw = some d ∧ d.length = data.length ∧
      ∀ i k, k < 8 → bitOf d (i, k) =
        if q₀ ≤ 8 * i + k ∧ 8 * i + k < q₀ + len then raw.getLsbD (8 * i + k - q₀)
        else bitOf data (i, k) := by
  obtain ⟨first, off, hoff, rfl⟩ : ∃ f o, o < 8 ∧ q₀ = 8 * f + o :=
    ⟨q₀ / 8, q₀ % 8, by omega, by omega⟩
  have hfirst : (8 * first + off) / 8 = first := by omega
  have hmod : (8 * first + off) % 8 = off := by omega
  have hhead : first + min (spannedBytes off len) 8 ≤ data.length := by
    unfold spannedBytes; omega
  obtain ⟨acc, hacc, hb⟩ := loadLe_spec hhead (by omega)
  obtain ⟨d, hd, hlen, hbd⟩ := storeLe_spec hhead (by omega)
    (v := (acc &&& ~~~(bitMask len <<< off)) |||
      ((raw &&& bitMask len) <<< off &&& bitMask len <<< off))
  -- the first eight bytes hold the part of the run that lies in them
  have hin : ∀ i k, k < 8 → i < first + min (spannedBytes off len) 8 → bitOf d (i, k) =
      if 8 * first + off ≤ 8 * i + k ∧ 8 * i + k < 8 * first + off + len then
        raw.getLsbD (8 * i + k - (8 * first + off)) else bitOf data (i, k) := by
    intro i k hk h'
    rw [hbd i k hk]
    rcases Nat.lt_or_ge i first with h | h
    · rw [if_neg (by omega), if_neg (by omega)]
    rw [if_pos ⟨h, h'⟩, getLsbD_splice _ _ (by omega), hb,
      show first + (8 * (i - first) + k) / 8 = i by omega,
      show (8 * (i - first) + k) % 8 = k by omega,
      show 8 * (i - first) + k - off = 8 * i + k - (8 * first + off) by omega,
      decide_eq_true (show 8 * (i - first) + k < 8 * min (spannedBytes off len) 8 by omega),
      Bool.true_and]
    exact if_congr (by omega) rfl rfl
  simp only [insertIntel, hfirst, hmod, hacc, Option.bind_eq_bind, Option.bind_some,
    shl_eq _ (show off < 64 by omega), hd]
  by_cases hnb : spannedBytes off len = 9
  · have hlast : first + 8 < d.length := by unfold spannedBytes at hnb; omega
    have hgt : 64 < off + len := by unfold spannedBytes at hnb; omega
    simp only [if_pos hnb, shl_eq 1#32 (show off + len - 64 < 32 by omega),
      shr_eq _ (show len - (off + len - 64) < 64 by omega), readByte_eq hlast,
      writeByte_eq _ hlast, Option.bind_some]
    refine ⟨_, rfl, by simpa using hlen, fun i k hk => ?_⟩
    rw [bitOf_set _ hlast]
    by_cases hi : i = first + 8
    · subst hi
      have hold : (d.getD (first + 8) 0).getLsbD k = bitOf data (first + 8, k) := by
        have := hbd (first + 8) k hk
        rwa [if_neg (by omega)] at this
      rw [if_pos rfl, getLsbD_spliceByte _ _ _ hk, getLsbD_lowMask _ (by omega) _ hk, hold,
        BitVec.getLsbD_ushiftRight, BitVec.getLsbD_and, getLsbD_bitMask]
      by_cases h : k < off + len - 64
      · rw [if_pos (decide_eq_true h), if_pos (by omega),
          show len - (off + len - 64) + k = 8 * (first + 8) + k - (8 * first + off) by omega]
        simp [show 8 * (first + 8) + k - (8 * first + off) < len by omega,
          show 8 * (first + 8) + k - (8 * first + off) < 64 by omega]
      · rw [if_neg (by simpa using h), if_neg (by omega)]
    · rw [if_neg hi]
      rcases Nat.lt_or_ge i (first + 8) with h | h
      · exact hin i k hk (by omega)
      · rw [hbd i k hk, if_neg (by omega), if_neg (by omega)]
  · rw [if_neg hnb]
    refine ⟨d, rfl, hlen, fun i k hk => ?_⟩
    rcases Nat.lt_or_ge i (first + min (spannedBytes off len) 8) with h | h
    · exact hin i k hk h
    · have : off + len ≤ 8 * min (spannedBytes off len) 8 := by
        unfold spannedBytes at hnb ⊢; omega
      rw [hbd i k hk, if_neg (by omega), if_neg (by omega)]

end Intel

/-! ### Motorola runs -/

section Motorola

variable {data : List Byte} {q₀ len : ℕ}

/-- **Bit `i` of a Motorola signal is canonical bit `q₀ + (len - 1 - i)`.** -/
theorem extractMotorola_spec (h₁ : 1 ≤ len) (h₆₄ : len ≤ 64) (hl : q₀ + len ≤ data.length * 8) :
    ∃ w, extractMotorola data q₀ len = some w ∧ ∀ i, w.getLsbD i =
      (decide (i < len) && bitOf data (addressOf (q₀ + (len - 1 - i)) .motorola)) := by
  obtain ⟨first, off, hoff, rfl⟩ : ∃ f o, o < 8 ∧ q₀ = 8 * f + o :=
    ⟨q₀ / 8, q₀ % 8, by omega, by omega⟩
  have hfirst : (8 * first + off) / 8 = first := by omega
  have hmod : (8 * first + off) % 8 = off := by omega
  simp only [extractMotorola, hfirst, hmod, Option.bind_eq_bind]
  by_cases hnb : spannedBytes off len ≤ 8
  · obtain ⟨acc, hacc, hb⟩ := loadBe_spec
      (show first + spannedBytes off len ≤ data.length by unfold spannedBytes; omega) hnb
    have hshift : spannedBytes off len * 8 - off - len < 64 := by
      unfold spannedBytes at hnb ⊢; omega
    simp only [if_pos hnb, hacc, shr_eq _ hshift, Option.bind_some]
    refine ⟨_, rfl, fun i => ?_⟩
    rw [BitVec.getLsbD_and, getLsbD_bitMask, BitVec.getLsbD_ushiftRight, hb]
    by_cases hi : i < len
    · unfold spannedBytes at hnb ⊢
      simp only [addressOf, show (8 * first + off + (len - 1 - i)) / 8 = first +
          ((off + len + 7) / 8 - 1 - ((off + len + 7) / 8 * 8 - off - len + i) / 8) by omega,
        show 7 - (8 * first + off + (len - 1 - i)) % 8 =
          ((off + len + 7) / 8 * 8 - off - len + i) % 8 by omega]
      simp [hi, show i < 64 by omega]
      omega
    · simp [hi]
  · have hnine : spannedBytes off len = 9 := by unfold spannedBytes at hnb ⊢; omega
    obtain ⟨acc, hacc, hb⟩ := loadBe_spec
      (show first + 8 ≤ data.length by unfold spannedBytes at hnine; omega) le_rfl
    have hgt : 64 < off + len := by unfold spannedBytes at hnine; omega
    simp only [if_neg hnb, hacc, readByte_eq (show first + 8 < data.length by omega),
      shl_eq _ (show off + len - 64 < 64 by omega),
      shr_eq _ (show 8 - (off + len - 64) < 64 by omega), Option.bind_some]
    refine ⟨_, rfl, fun i => ?_⟩
    rw [BitVec.getLsbD_and, getLsbD_bitMask, BitVec.getLsbD_or, BitVec.getLsbD_shiftLeft, hb,
      BitVec.getLsbD_ushiftRight, BitVec.getLsbD_setWidth]
    by_cases hi : i < len
    · rcases Nat.lt_or_ge i (off + len - 64) with h | h
      · simp only [addressOf, show (8 * first + off + (len - 1 - i)) / 8 = first + 8 by omega,
          show 7 - (8 * first + off + (len - 1 - i)) % 8 = 8 - (off + len - 64) + i by omega,
          bitOf]
        simp [hi, h, show i < 64 by omega, show 8 - (off + len - 64) + i < 64 by omega]
      · simp only [addressOf, show (8 * first + off + (len - 1 - i)) / 8 =
            first + (8 - 1 - (i - (off + len - 64)) / 8) by omega,
          show 7 - (8 * first + off + (len - 1 - i)) % 8 = (i - (off + len - 64)) % 8 by omega,
          BitVec.getLsbD_of_ge (data.getD (first + 8) 0) (8 - (off + len - 64) + i) (by omega)]
        simp [hi, show ¬ i < off + len - 64 by omega, show i < 64 by omega,
          show i - (off + len - 64) < 64 by omega]
    · simp [hi]

/-- **`insert_motorola` stores bit `i` of the value at canonical bit
`q₀ + (len - 1 - i)`**, and leaves the rest of the buffer alone. -/
theorem insertMotorola_spec (raw : BitVec 64) (h₁ : 1 ≤ len) (h₆₄ : len ≤ 64)
    (hl : q₀ + len ≤ data.length * 8) :
    ∃ d, insertMotorola data q₀ len raw = some d ∧ d.length = data.length ∧
      ∀ i k, k < 8 → bitOf d (i, k) =
        if q₀ ≤ 8 * i + (7 - k) ∧ 8 * i + (7 - k) < q₀ + len then
          raw.getLsbD (q₀ + len - 1 - (8 * i + (7 - k))) else bitOf data (i, k) := by
  obtain ⟨first, off, hoff, rfl⟩ : ∃ f o, o < 8 ∧ q₀ = 8 * f + o :=
    ⟨q₀ / 8, q₀ % 8, by omega, by omega⟩
  have hfirst : (8 * first + off) / 8 = first := by omega
  have hmod : (8 * first + off) % 8 = off := by omega
  simp only [insertMotorola, hfirst, hmod, Option.bind_eq_bind]
  by_cases hnb : spannedBytes off len ≤ 8
  · obtain ⟨sh, hsh⟩ : ∃ sh, sh = spannedBytes off len * 8 - off - len := ⟨_, rfl⟩
    have hspan : off + len + sh = 8 * spannedBytes off len ∧ sh < 8 := by
      unfold spannedBytes at hnb hsh ⊢; omega
    obtain ⟨acc, hacc, hb⟩ := loadBe_spec
      (show first + spannedBytes off len ≤ data.length by omega) hnb
    obtain ⟨d, hd, hlen, hbd⟩ := storeBe_spec hnb
      (show first + spannedBytes off len ≤ data.length by omega) le_rfl
      (v := (acc &&& ~~~(bitMask len <<< sh)) |||
        ((raw &&& bitMask len) <<< sh &&& bitMask len <<< sh))
    simp only [if_pos hnb, ← hsh, hacc, shl_eq _ (show sh < 64 by omega), Option.bind_some]
    refine ⟨d, hd, hlen, fun i k hk => ?_⟩
    rw [hbd i k hk]
    by_cases h : first ≤ i ∧ i < first + spannedBytes off len
    · rw [if_pos h, getLsbD_splice _ _ (by omega), hb,
        show first + (spannedBytes off len - 1 -
          (8 * (spannedBytes off len - 1 - (i - first)) + k) / 8) = i by omega,
        show (8 * (spannedBytes off len - 1 - (i - first)) + k) % 8 = k by omega,
        show 8 * (spannedBytes off len - 1 - (i - first)) + k - sh =
          8 * first + off + len - 1 - (8 * i + (7 - k)) by omega,
        decide_eq_true (show 8 * (spannedBytes off len - 1 - (i - first)) + k <
          8 * spannedBytes off len by omega), Bool.true_and]
      exact if_congr (by omega) rfl rfl
    · rw [if_neg h, if_neg (by omega)]
  · have hnine : spannedBytes off len = 9 := by unfold spannedBytes at hnb ⊢; omega
    have hgt : 64 < off + len ∧ first + 8 < data.length := by
      unfold spannedBytes at hnine; omega
    obtain ⟨tail, htail⟩ : ∃ tail, tail = off + len - 64 := ⟨_, rfl⟩
    obtain ⟨acc, hacc, hb⟩ := loadBe_spec (show first + 8 ≤ data.length by omega) le_rfl
    obtain ⟨d, hd, hlen, hbd⟩ := storeBe_spec le_rfl
      (show first + 8 ≤ data.length by omega) le_rfl
      (v := (acc &&& ~~~bitMask (len - tail)) |||
        ((raw &&& bitMask len) >>> tail &&& bitMask (len - tail)))
    have hlast : first + 8 < d.length := by omega
    simp only [if_neg hnb, ← htail, hacc, shr_eq _ (show tail < 64 by omega), hd,
      shl_eq 0xFF#32 (show 8 - tail < 32 by omega), shl_eq _ (show 8 - tail < 64 by omega),
      readByte_eq hlast, writeByte_eq _ hlast, Option.bind_some]
    refine ⟨_, rfl, by simpa using hlen, fun i k hk => ?_⟩
    rw [bitOf_set _ hlast]
    by_cases hi : i = first + 8
    · subst hi
      have hold : (d.getD (first + 8) 0).getLsbD k = bitOf data (first + 8, k) := by
        have := hbd (first + 8) k hk
        rwa [if_neg (by omega)] at this
      rw [if_pos rfl, getLsbD_spliceByte _ _ _ hk, getLsbD_highMask _ (by omega) _ hk, hold,
        BitVec.getLsbD_shiftLeft, BitVec.getLsbD_and, getLsbD_bitMask]
      by_cases h : 8 - tail ≤ k
      · rw [if_pos (decide_eq_true h), if_pos (by omega),
          show 8 * first + off + len - 1 - (8 * (first + 8) + (7 - k)) = k - (8 - tail) by omega]
        simp [h, show k < 64 by omega, show k - (8 - tail) < len by omega,
          show k - (8 - tail) < 64 by omega]
      · rw [if_neg (by simpa using h), if_neg (by omega)]
    · rw [if_neg hi, hbd i k hk]
      by_cases h : first ≤ i ∧ i < first + 8
      · rw [if_pos h]
        simp only [BitVec.getLsbD_or, BitVec.getLsbD_and, BitVec.getLsbD_not,
          BitVec.getLsbD_ushiftRight, getLsbD_bitMask, hb]
        rw [show first + (8 - 1 - (8 * (8 - 1 - (i - first)) + k) / 8) = i by omega,
          show (8 * (8 - 1 - (i - first)) + k) % 8 = k by omega]
        by_cases hw : 8 * first + off ≤ 8 * i + (7 - k)
        · rw [if_pos (by omega), show 8 * first + off + len - 1 - (8 * i + (7 - k)) =
            tail + (8 * (8 - 1 - (i - first)) + k) by omega]
          simp [show 8 * (8 - 1 - (i - first)) + k < len - tail by omega,
            show 8 * (8 - 1 - (i - first)) + k < 64 by omega,
            show tail + (8 * (8 - 1 - (i - first)) + k) < len by omega,
            show tail + (8 * (8 - 1 - (i - first)) + k) < 64 by omega]
        · rw [if_neg (by omega)]
          simp [show ¬ 8 * (8 - 1 - (i - first)) + k < len - tail by omega,
            show 8 * (8 - 1 - (i - first)) + k < 64 by omega]
      · rw [if_neg h, if_neg (by omega)]

end Motorola

end Core
end Canforge
