/-
# Cyclic redundancy checks

A CRC of `w` bits is a register that takes the bits of a message one at a time, most significant
first, and is reduced by a generator `p` (`crcBits`; the generator's top term is not in `p`).  The
register is linear in its content and the message (`crcBits_xor`), so two messages are told apart
by the register of their difference.  One bit puts a nonzero word in the register, which stays
nonzero while that bit has not left it, and for good when the generator has a constant term.  So
no burst of at most `w` bits goes unseen (`crcBits_ne_of_burst`).
-/

import Canforge.Lib.Dominance

namespace Canforge
namespace Lib

variable {w : ℕ}

/-- The register after one bit. -/
def crcBit (p c : BitVec w) (b : Bool) : BitVec w := if b != c.msb then c <<< 1 ^^^ p else c <<< 1

/-- The register after some bits. -/
def crcBits (p c : BitVec w) (bits : List Bool) : BitVec w := bits.foldl (crcBit p) c

/-- Two bit strings that differ, and only within at most `n` bits in a row. -/
def Burst (n : ℕ) (xs ys : List Bool) : Prop :=
  ∃ before x y behind, xs = before ++ x ++ behind ∧ ys = before ++ y ++ behind ∧
    x.length = y.length ∧ x.length ≤ n ∧ x ≠ y

variable {p c d : BitVec w}

theorem crcBits_append (p c : BitVec w) (xs ys : List Bool) :
    crcBits p c (xs ++ ys) = crcBits p (crcBits p c xs) ys :=
  List.foldl_append

theorem crcBits_cons (b : Bool) (xs : List Bool) :
    crcBits p c (b :: xs) = crcBits p (crcBit p c b) xs :=
  rfl

/-! ### Linearity -/

theorem crcBit_eq (p c : BitVec w) (b : Bool) :
    crcBit p c b = c <<< 1 ^^^ if (b ^^ c.msb) then p else 0 := by
  unfold crcBit
  cases hb : (b ^^ c.msb) with
  | true => rw [if_pos hb, if_pos rfl]
  | false =>
    rw [if_neg (show ¬((b ^^ c.msb) = true) by simp [hb]), if_neg Bool.false_ne_true]
    exact BitVec.xor_zero.symm

theorem crcBit_xor (a b : Bool) : crcBit p (c ^^^ d) (a ^^ b) = crcBit p c a ^^^ crcBit p d b := by
  have hif : ∀ x y : Bool, (if (x ^^ y) then p else 0) =
      (if x then p else 0) ^^^ (if y then p else 0) := by
    intro x y
    cases x <;> cases y <;> simp
  have hbits : (a ^^ b ^^ (c.msb ^^ d.msb)) = (a ^^ c.msb ^^ (b ^^ d.msb)) := by
    rw [Bool.xor_assoc, Bool.xor_assoc, Bool.xor_left_comm b]
  rw [crcBit_eq, crcBit_eq, crcBit_eq, BitVec.shiftLeft_xor_distrib, BitVec.msb_xor, hbits, hif]
  ac_rfl

/-- The bits of the register after one more. -/
theorem getLsbD_crcBit (p c : BitVec w) (b : Bool) (i : ℕ) : (crcBit p c b).getLsbD i =
    ((decide (0 < i) && decide (i < w) && c.getLsbD (i - 1)) ^^ ((b ^^ c.msb) && p.getLsbD i)) := by
  have hshift : (c <<< 1).getLsbD i = (decide (0 < i) && decide (i < w) && c.getLsbD (i - 1)) := by
    rw [BitVec.getLsbD_shiftLeft, Bool.and_comm (decide (0 < i))]
    congr 2
    simp [Nat.pos_iff_ne_zero]
  rw [crcBit_eq, BitVec.getLsbD_xor, hshift]
  cases (b ^^ c.msb) <;> simp

/-- **The register is linear.** -/
theorem crcBits_xor (xs ys : List Bool) (h : xs.length = ys.length) :
    crcBits p (c ^^^ d) (List.zipWith xor xs ys) = crcBits p c xs ^^^ crcBits p d ys := by
  induction xs generalizing c d ys with
  | nil =>
    obtain rfl : ys = [] := List.length_eq_zero_iff.1 h.symm
    rfl
  | cons a xs ih =>
    cases ys with
    | nil => cases h
    | cons b ys =>
      rw [List.zipWith_cons_cons, crcBits_cons, crcBits_cons, crcBits_cons, crcBit_xor]
      exact ih ys (Nat.succ.inj h)

theorem zipWith_xor_self (xs : List Bool) :
    List.zipWith xor xs xs = List.replicate xs.length false := by
  induction xs with
  | nil => rfl
  | cons b xs ih => rw [List.zipWith_cons_cons, ih, Bool.xor_self, List.length_cons,
      List.replicate_succ]

/-- Two messages that begin alike are told apart by the difference of what follows. -/
theorem crcBits_eq_iff {xs ys : List Bool} (h : xs.length = ys.length) :
    crcBits p c xs = crcBits p c ys ↔ crcBits p 0 (List.zipWith xor xs ys) = 0 := by
  have hlinear := crcBits_xor (p := p) (c := c) (d := c) xs ys h
  rw [BitVec.xor_self] at hlinear
  rw [show (0 : BitVec w) = 0#w from rfl, hlinear, BitVec.xor_eq_zero_iff]

/-! ### What stays in the register -/

theorem crcBit_zero : crcBit p 0 false = 0 := by
  simp [crcBit]

/-- A generator with a constant term loses nothing. -/
theorem crcBit_false_ne_zero (hp : p.getLsbD 0 = true) (hc : c ≠ 0) : crcBit p c false ≠ 0 := by
  intro hzero
  have hbit := fun i => (getLsbD_crcBit p c false i).symm.trans (congrArg (·.getLsbD i) hzero)
  have hmsb : c.msb = false := by simpa [hp] using hbit 0
  refine hc (BitVec.eq_of_getLsbD_eq fun i hi => ?_)
  rcases Nat.lt_or_ge (i + 1) w with hlt | hge
  · simpa [hmsb, hlt] using hbit (i + 1)
  · have hlast : w - 1 = i := by omega
    rw [BitVec.msb_eq_getLsbD_last, hlast] at hmsb
    simpa using hmsb

theorem crcBits_replicate_ne_zero (hp : p.getLsbD 0 = true) (hc : c ≠ 0) (n : ℕ) :
    crcBits p c (List.replicate n false) ≠ 0 := by
  induction n generalizing c with
  | zero => exact hc
  | succ n ih =>
    rw [List.replicate_succ, crcBits_cons]
    exact ih (crcBit_false_ne_zero hp hc)

/-- The lowest bit of the register moves up by one place with each further bit, unless the
generator puts another one below it. -/
theorem crcBits_ne_zero_of_low (hp : p.getLsbD 0 = true) {k : ℕ} (hlow : ∃ i ≤ k, c.getLsbD i = true)
    (bits : List Bool) (hroom : k + bits.length < w) : crcBits p c bits ≠ 0 := by
  induction bits generalizing c k with
  | nil =>
    obtain ⟨i, -, hi⟩ := hlow
    rintro hzero
    obtain rfl : c = 0 := hzero
    exact absurd hi (by simp)
  | cons b bits ih =>
    rw [List.length_cons] at hroom
    have hnext : ∃ i ≤ k + 1, (crcBit p c b).getLsbD i = true := by
      by_cases hb : (b ^^ c.msb) = true
      · exact ⟨0, Nat.zero_le _, by rw [getLsbD_crcBit, hb, hp]; rfl⟩
      · obtain ⟨i, hik, hi⟩ := hlow
        rw [Bool.not_eq_true] at hb
        refine ⟨i + 1, by omega, ?_⟩
        rw [getLsbD_crcBit, hb, Nat.add_sub_cancel, hi]
        simp
        omega
    exact ih hnext (by omega)

/-- **A burst no longer than the register leaves something in it.** -/
theorem crcBits_ne_zero_of_burst (hp : p.getLsbD 0 = true) {bits : List Bool} (h : true ∈ bits)
    (hw : bits.length ≤ w) : crcBits p 0 bits ≠ 0 := by
  induction bits with
  | nil => cases h
  | cons b bits ih =>
    rw [List.length_cons] at hw
    rw [crcBits_cons]
    cases b with
    | false =>
      rw [crcBit_zero]
      exact ih (by simpa using h) (by omega)
    | true =>
      have hone : crcBit p 0 true = p := by simp [crcBit]
      rw [hone]
      exact crcBits_ne_zero_of_low hp ⟨0, le_rfl, hp⟩ bits (by omega)

theorem true_mem_zipWith_xor {xs ys : List Bool} (hlen : xs.length = ys.length) (hne : xs ≠ ys) :
    true ∈ List.zipWith xor xs ys := by
  induction xs generalizing ys with
  | nil => exact absurd (List.length_eq_zero_iff.1 hlen.symm).symm hne
  | cons a xs ih =>
    cases ys with
    | nil => cases hlen
    | cons b ys =>
      rw [List.zipWith_cons_cons]
      by_cases hab : a = b
      · refine List.mem_cons_of_mem _ (ih (Nat.succ.inj hlen) fun htail => hne ?_)
        rw [hab, htail]
      · have hxor : (a ^^ b) = true := by
          cases a <;> cases b <;> simp_all
        rw [hxor]
        exact List.mem_cons_self

/-- **A burst is seen** when it is no longer than the register. -/
theorem crcBits_ne_of_burst (hp : p.getLsbD 0 = true) {xs ys : List Bool} (h : Burst w xs ys)
    (c : BitVec w) : crcBits p c xs ≠ crcBits p c ys := by
  obtain ⟨before, x, y, behind, rfl, rfl, hlen, hw, hne⟩ := h
  rw [List.append_assoc, List.append_assoc, crcBits_append p c before (x ++ behind), Ne,
    crcBits_append p c before (y ++ behind), crcBits_eq_iff (by simp [hlen]),
    List.zipWith_append hlen, crcBits_append, zipWith_xor_self]
  refine crcBits_replicate_ne_zero hp ?_ _
  refine crcBits_ne_zero_of_burst hp (true_mem_zipWith_xor hlen hne) ?_
  rwa [List.length_zipWith, ← hlen, min_self]

/-! ### Words -/

/-- A bit of the message is added to the highest one of the register. -/
theorem crcBit_xor_top {u : BitVec w} {b : Bool} (hmsb : u.msb = b) :
    crcBit p (c ^^^ u) false = crcBit p c b ^^^ u <<< 1 := by
  rw [crcBit_eq, crcBit_eq, BitVec.shiftLeft_xor_distrib, BitVec.msb_xor, hmsb, Bool.false_xor,
    Bool.xor_comm b]
  ac_rfl

/-- Taking in the top bits of a number is adding them to the register. -/
theorem crcBits_msbBits {k v : ℕ} (hk : k ≤ w) :
    crcBits p c (msbBits k v) = (crcBit p · false)^[k] (c ^^^ BitVec.ofNat w (v <<< (w - k))) := by
  induction k generalizing c with
  | zero =>
    have hnone : BitVec.ofNat w (v <<< (w - 0)) = 0#w := by
      refine BitVec.eq_of_toNat_eq ?_
      simp [Nat.shiftLeft_eq]
    rw [hnone, BitVec.xor_zero]
    rfl
  | succ k ih =>
    have hmsb : (BitVec.ofNat w (v <<< (w - (k + 1)))).msb = v.testBit k := by
      rw [BitVec.msb_eq_getLsbD_last, BitVec.getLsbD_ofNat, Nat.testBit_shiftLeft]
      simp [show w - 1 < w by omega, show w - (k + 1) ≤ w - 1 by omega,
        show w - 1 - (w - (k + 1)) = k by omega]
    have hnext : BitVec.ofNat w (v <<< (w - (k + 1))) <<< 1 = BitVec.ofNat w (v <<< (w - k)) := by
      refine BitVec.eq_of_toNat_eq ?_
      rw [BitVec.toNat_shiftLeft, BitVec.toNat_ofNat, BitVec.toNat_ofNat, Nat.shiftLeft_eq,
        Nat.mod_mul_mod, Nat.shiftLeft_eq, Nat.shiftLeft_eq, Nat.mul_assoc, ← Nat.pow_add,
        show w - (k + 1) + 1 = w - k by omega]
    rw [msbBits, crcBits_cons, ih (by omega), Function.iterate_succ_apply, crcBit_xor_top hmsb, hnext]

/-- **A whole word is taken in by adding it**, and the register moves by its width. -/
theorem crcBits_word (v : BitVec w) :
    crcBits p c (msbBits w v.toNat) = (crcBit p · false)^[w] (c ^^^ v) := by
  rw [crcBits_msbBits le_rfl, Nat.sub_self, Nat.shiftLeft_zero, BitVec.ofNat_toNat,
    BitVec.setWidth_eq]

end Lib
end Canforge
