/-
# Hostile input

`inflateRaw_safe`: for every input `inflate_raw` ends with a result or an error, never
leaves a table or the output, and never exceeds its limit.  Every symbol takes a bit of the
input, so what is left of it bounds the rounds of each loop (`Left`); a walk through a table
never subtracts below zero because what it has read is at least the first code of that length
(`decodeFrom_safe`), and a back reference begins inside the output (`copyBack_ensures`).
-/

import Canforge.Transport.HuffmanTable

namespace Canforge
namespace Transport

open Canforge.Core Lib Outcome

/-- At most `k` bits are left. -/
structure Left (k : ℕ) (r : BitReader) : Prop where
  valid : r.Valid
  length_le : r.stream.length ≤ k

variable {r r' : BitReader} {k n i v : ℕ} {table : Huffman}

theorem Left.mono {j : ℕ} (h : Left k r) (hle : k ≤ j) : Left j r :=
  ⟨h.valid, h.length_le.trans hle⟩

theorem bitsFrom_lt (hv : v < 2 ^ i) : (BitReader.bitsFrom n i v r).1 < 2 ^ (i + n) := by
  induction n generalizing i v r with
  | zero => exact hv
  | succ n ih =>
    rw [BitReader.bitsFrom]
    split
    · exact hv.trans_le (Nat.pow_le_pow_right (by decide) (Nat.le_add_right _ _))
    · rename_i r₁ _
      have hbit : (r₁.buffer &&& 1).toNat <<< i < 2 ^ (i + 1) := by
        have hle := (r₁.buffer.getLsbD 0).toNat_le
        have hpos : 0 < 2 ^ i := by positivity
        rw [BitReader.toNat_and_one, Nat.shiftLeft_eq, pow_succ]
        nlinarith
      have hor := Nat.or_lt_two_pow (hv.trans (Nat.pow_lt_pow_succ (by decide))) hbit
      rw [show i + (n + 1) = i + 1 + n by omega]
      exact ih hor

/-- **What a read leaves.** -/
theorem Left.bits (h : Left k r) (hbits : r.bits n = (v, r')) : v < 2 ^ n ∧ Left k r' ∧
    (r'.overrun = false → n ≤ k ∧ Left (k - n) r') := by
  have hv := @bitsFrom_lt r n 0 0 Nat.one_pos
  change (r.bits n).1 < _ at hv
  rw [hbits, Nat.zero_add] at hv
  have hle := h.length_le
  refine ⟨hv, ?_⟩
  rcases Nat.lt_or_ge r.stream.length n with hn | hn
  · obtain ⟨hvalid, hstream, hoverrun⟩ := BitReader.bits_overrun h.valid hn
    rw [hbits] at hvalid hstream hoverrun
    refine ⟨⟨hvalid, hstream ▸ Nat.zero_le k⟩, fun hok => ?_⟩
    rw [hok] at hoverrun
    cases hoverrun
  · obtain ⟨r₁, hbits₁, hvalid, hdrop, _, _⟩ := BitReader.bits_spec h.valid hn
    obtain rfl : r₁ = r' := congrArg Prod.snd (hbits₁.symm.trans hbits)
    have hlength := congrArg List.length hdrop
    rw [List.length_drop] at hlength
    exact ⟨⟨hvalid, by omega⟩, fun _ => ⟨by omega, hvalid, by omega⟩⟩

/-! ### Decoding -/

/-- A symbol takes at least one bit. -/
def Decoded (k : ℕ) (p : Option ℕ × BitReader) : Prop :=
  ∀ s, p.1 = some s → 0 < k ∧ Left (k - 1) p.2

theorem decodeFrom_safe (htable : table.counts.length = 16) {rounds l first index : ℕ}
    (hl : l + rounds = 16) (hfirst : first ≤ v) (h : Left k r) :
    (decodeFrom table rounds l v first index r).Ensures (Decoded k) := by
  induction rounds generalizing l v first index r k with
  | zero => exact .ok fun s hs => nomatch hs
  | succ rounds ih =>
    rw [decodeFrom]
    rcases hbits : r.bits 1 with ⟨bit, r₁⟩
    obtain ⟨_, _, hleft⟩ := h.bits hbits
    dsimp only
    refine .ite (fun _ => .ok fun s hs => nomatch hs) fun hok => ?_
    obtain ⟨hk, hleft⟩ := hleft (Bool.not_eq_true _ ▸ hok)
    rw [fetch_eq (by omega), ok_bind]
    have hcode : first ≤ v ||| bit := hfirst.trans Nat.left_le_or
    refine .ite (fun _ => ?_) fun hge => ?_
    · rw [indexSub_eq hcode, ok_bind]
      refine .ite (fun _ => .ok fun s hs => nomatch hs) fun hsize => ?_
      rw [fetch_eq (Nat.not_le.1 hsize)]
      exact .ok fun s _ => ⟨hk, hleft⟩
    · have hnext : (first + table.counts[l]) <<< 1 ≤ (v ||| bit) <<< 1 := by
        rw [Nat.shiftLeft_eq, Nat.shiftLeft_eq]
        omega
      refine (ih (by omega) hnext hleft).mono fun p hp s hs => ?_
      obtain ⟨_, hp⟩ := hp s hs
      exact ⟨hk, hp.mono (by omega)⟩

theorem decode_safe (htable : table.counts.length = 16) (h : Left k r) :
    (decode table r).Ensures (Decoded k) :=
  decodeFrom_safe htable rfl le_rfl h

theorem build_safe (lengths : List ℕ) :
    (Huffman.build lengths).Ensures fun table => table.counts.length = 16 :=
  (Huffman.build_ensures lengths).mono fun table h => by
    rw [h.counts_eq]
    rfl

/-! ### The tables of a block -/

theorem fixedTables_safe :
    fixedTables.Ensures fun p => p.1.counts.length = 16 ∧ p.2.counts.length = 16 := by
  rw [fixedTables]
  exact (build_safe _).bind fun _ hliterals => (build_safe _).bind fun _ hdistances =>
    .ok ⟨hliterals, hdistances⟩

theorem readCodeLengths_safe {left : ℕ} {lengths : List ℕ} (hlengths : lengths.length = 19)
    (hi : i + left ≤ 19) (h : Left k r) :
    (readCodeLengths left i lengths r).Ensures fun p => Left k p.2 := by
  induction left generalizing i lengths r with
  | zero => exact .ok h
  | succ left ih =>
    have hi' : i < kOrder.length := by
      change i < 19
      omega
    have hsymbol : kOrder[i] < lengths.length := by
      have hall : ∀ s ∈ kOrder, s < 19 := by decide
      exact hlengths ▸ hall _ (List.getElem_mem hi')
    rw [readCodeLengths, fetch_eq hi', ok_bind]
    rcases hbits : r.bits 3 with ⟨length, r₁⟩
    dsimp only
    rw [store_eq _ hsymbol, ok_bind]
    exact ih (List.length_set.trans hlengths) (by omega) (h.bits hbits).2.1

/-- **`repeatLength` writes a run.** -/
theorem repeatLength_eq (value : ℕ) {done rest : List ℕ} (hn : n ≤ rest.length) :
    repeatLength value n (done ++ rest) done.length =
      ok (done ++ List.replicate n value ++ rest.drop n, done.length + n) := by
  induction n generalizing done rest with
  | zero =>
    rw [repeatLength, List.replicate_zero, List.append_nil, List.drop_zero]
    rfl
  | succ n ih =>
    cases rest with
    | nil => exact absurd hn (Nat.not_succ_le_zero n)
    | cons x rest =>
      have hlt : done.length < (done ++ x :: rest).length := by
        rw [List.length_append, List.length_cons]
        omega
      have hset : (done ++ x :: rest).set done.length value = (done ++ [value]) ++ rest := by
        rw [List.set_append_right _ _ le_rfl, Nat.sub_self, List.append_assoc]
        rfl
      have hlength : done.length + 1 = (done ++ [value]).length := by rw [List.length_append]; rfl
      rw [repeatLength, store_eq _ hlt, ok_bind, hset, hlength, ih (Nat.le_of_succ_le_succ hn),
        ← hlength, List.replicate_succ, List.append_assoc done, List.drop_succ_cons]
      congr 2
      omega

theorem readLengths_safe (htable : table.counts.length = 16) {fuel written : ℕ}
    {lengths : List ℕ} (hfuel : k < fuel) (h : Left k r) :
    (readLengths table fuel lengths written r).Ensures fun p => Left k p.2 := by
  induction fuel generalizing lengths written r k with
  | zero => omega
  | succ fuel ih =>
    rw [readLengths]
    refine .ite (fun _ => .ok h) fun hwritten =>
      (decode_safe htable h).bind fun ⟨symbol, r₁⟩ hp => ?_
    cases symbol with
    | none => exact .error
    | some symbol =>
      obtain ⟨hk, hleft⟩ := hp symbol rfl
      refine .ite (fun _ => ?_) fun _ => .ite (fun _ => .error) fun hfirst => ?_
      · rw [store_eq _ (Nat.not_le.1 hwritten), ok_bind]
        exact (ih (by omega) hleft).mono fun p hp => hp.mono (by omega)
      · have hvalue : (repeatedLength symbol written lengths).Ensures fun _ => True := by
          refine .ite (fun hsymbol => ?_) fun _ => .ok trivial
          rw [fetch_eq (by omega)]
          exact .ok trivial
        refine hvalue.bind fun value _ => ?_
        rcases hbits : r₁.bits (if symbol = 16 then 2 else if symbol = 17 then 3 else 7)
          with ⟨extra, r₂⟩
        have hleft₂ := (hleft.bits hbits).2.1
        dsimp only
        generalize (if symbol ≤ 17 then 3 else 11) + extra = count
        refine .ite (fun _ => .error) fun hroom => ?_
        have hsplit := @repeatLength_eq count value (lengths.take written) (lengths.drop written)
          (by rw [List.length_drop]; omega)
        rw [List.take_append_drop, List.length_take, min_eq_left (by omega)] at hsplit
        rw [hsplit, ok_bind]
        exact (ih (by omega) hleft₂).mono fun p hp => hp.mono (by omega)

theorem dynamicTables_safe {fuel : ℕ} (hfuel : k < fuel) (h : Left k r) :
    (dynamicTables fuel r).Ensures fun p =>
      (p.1.1.counts.length = 16 ∧ p.1.2.counts.length = 16) ∧ Left k p.2 := by
  rw [dynamicTables]
  rcases hbits₁ : r.bits 5 with ⟨hlit, r₁⟩
  rcases hbits₂ : r₁.bits 5 with ⟨hdist, r₂⟩
  rcases hbits₃ : r₂.bits 4 with ⟨hclen, r₃⟩
  obtain ⟨_, hleft₁, _⟩ := h.bits hbits₁
  obtain ⟨_, hleft₂, _⟩ := hleft₁.bits hbits₂
  obtain ⟨hlt, hleft₃, _⟩ := hleft₂.bits hbits₃
  dsimp only
  rw [hbits₂]
  dsimp only
  rw [hbits₃]
  refine .ite (fun _ => .error) fun _ => (readCodeLengths_safe List.length_replicate
    (by omega) hleft₃).bind fun ⟨codeLengths, r₄⟩ hleft₄ => .ite (fun _ => .error) fun _ => ?_
  refine (build_safe _).bind fun table htable =>
    (readLengths_safe htable hfuel hleft₄).bind fun ⟨lengths, r₅⟩ hleft₅ => ?_
  exact (build_safe _).bind fun _ hliterals => (build_safe _).bind fun _ hdistances =>
    .ok ⟨⟨hliterals, hdistances⟩, hleft₅⟩

/-! ### Blocks -/

/-- **A back reference stays inside the output.** -/
theorem copyBack_ensures {start : ℕ} {out : List Byte} (h : start + i < out.length) :
    (copyBack start n i out).Ensures fun out' => out'.length = out.length + n := by
  induction n generalizing i out with
  | zero => exact .ok rfl
  | succ n ih =>
    rw [copyBack, fetch_eq h, ok_bind]
    refine (ih (by rw [List.length_append]; exact Nat.succ_lt_succ h)).mono fun out' hout => ?_
    rw [hout, List.length_append, List.length_singleton]
    omega

/-- What a block leaves: no more bits than before, and an output within the limit. -/
def Within (k : ℕ) (p : List Byte × BitReader) : Prop :=
  p.1.length ≤ kMaxInflateOutput ∧ Left k p.2

theorem readRange_safe {base extra : List ℕ} {index : ℕ} (hbase : ¬ base.length ≤ index)
    (hextra : ¬ extra.length ≤ index) (h : Left k r) :
    (readRange base extra index r).Ensures fun p => Left k p.2 := by
  rw [readRange, fetch_eq (Nat.not_le.1 hbase), ok_bind, fetch_eq (Nat.not_le.1 hextra), ok_bind]
  exact .ok (h.bits rfl).2.1

theorem inflateSymbols_safe {literals distances : Huffman} (hliterals : literals.counts.length = 16)
    (hdistances : distances.counts.length = 16) {fuel : ℕ} {out : List Byte} (hfuel : k < fuel)
    (h : Left k r) : (inflateSymbols literals distances fuel out r).Ensures (Within k) := by
  induction fuel generalizing out r k with
  | zero => omega
  | succ fuel ih =>
    have hnext : ∀ {j out r}, j < k → Left j r →
        (inflateSymbols literals distances fuel out r).Ensures (Within k) := fun hj hleft =>
      (ih (by omega) hleft).mono fun p hp => ⟨hp.1, hp.2.mono hj.le⟩
    rw [inflateSymbols]
    refine (decode_safe hliterals h).bind fun ⟨symbol, r₁⟩ hp => ?_
    cases symbol with
    | none => exact .error
    | some symbol =>
      obtain ⟨hk, hleft⟩ := hp symbol rfl
      refine .ite (fun _ => .error) fun hroom =>
        .ite (fun _ => hnext (by omega) hleft) fun hliteral =>
        .ite (fun _ => .ok ⟨(Nat.not_le.1 hroom).le, hleft.mono (by omega)⟩) fun _ => ?_
      rw [indexSub_eq (by omega), ok_bind]
      refine .ite (fun _ => .error) fun hindex => ?_
      refine (readRange_safe hindex hindex hleft).bind fun ⟨length, r₂⟩ hleft₂ =>
        (decode_safe hdistances hleft₂).bind fun ⟨symbol, r₃⟩ hp₃ => ?_
      cases symbol with
      | none => exact .error
      | some index =>
        obtain ⟨_, hleft₃⟩ := hp₃ index rfl
        refine .ite (fun _ => .error) fun hindex => ?_
        refine (readRange_safe hindex hindex hleft₃).bind fun ⟨distance, r₄⟩ hleft₄ => ?_
        refine .ite (fun _ => .error) fun _ => .ite (fun _ => .error) fun hdistance =>
          .ite (fun _ => .error) fun _ => ?_
        rw [indexSub_eq (by omega), ok_bind]
        exact (copyBack_ensures (by omega)).bind fun _ _ => hnext (by omega) hleft₄

theorem readU16Le_safe (ha : r.Aligned) (h : Left k r) :
    r.readU16Le.Ensures fun p => p.2.Aligned ∧ Left k p.2 := by
  have hvalid := h.valid
  have hlength := h.length_le
  rw [BitReader.stream_length] at hlength
  rw [BitReader.readU16Le]
  refine .ite (fun _ => .ok ⟨ha, ⟨hvalid.held_lt, hvalid.pos_le⟩, h.length_le⟩) fun hlt => ?_
  rw [fetch_eq (by omega), ok_bind, fetch_eq (by omega), ok_bind]
  refine .ok ⟨ha, ⟨hvalid.held_lt, by dsimp only; omega⟩, ?_⟩
  rw [BitReader.stream_length]
  dsimp only
  omega

theorem inflateStored_safe {out : List Byte} (h : Left k r) :
    (inflateStored out r).Ensures (Within k) := by
  have halign : Left k r.alignToByte := by
    refine ⟨BitReader.alignToByte_valid h.valid, ?_⟩
    rw [BitReader.alignToByte_stream h.valid, List.length_drop]
    exact (Nat.sub_le _ _).trans h.length_le
  rw [inflateStored]
  have haligned : r.alignToByte.Aligned := rfl
  refine (readU16Le_safe haligned halign).bind fun ⟨length, r₁⟩ ⟨ha₁, hleft₁⟩ =>
    (readU16Le_safe ha₁ hleft₁).bind fun ⟨inverse, r₂⟩ ⟨ha₂, hleft₂⟩ => ?_
  refine .ite (fun _ => .error) fun _ => .ite (fun _ => .error) fun _ =>
    .ite (fun _ => .error) fun hroom => ?_
  rw [BitReader.copyBytes]
  split_ifs with hlt
  · exact .error
  · have hlength := hleft₂.length_le
    rw [BitReader.stream_length] at hlength
    change r₂.held + 8 * (r₂.data.length - r₂.pos) ≤ k at hlength
    refine .ok ⟨?_, ⟨hleft₂.valid.held_lt, Nat.not_lt.1 hlt⟩, ?_⟩
    · rw [List.length_append, List.length_take, List.length_drop]
      omega
    · rw [BitReader.stream_length]
      dsimp only
      omega

theorem blockTables_safe {fuel type : ℕ} (hfuel : k < fuel) (h : Left k r) :
    (blockTables fuel type r).Ensures fun p =>
      (p.1.1.counts.length = 16 ∧ p.1.2.counts.length = 16) ∧ Left k p.2 := by
  rw [blockTables]
  exact .ite (fun _ => fixedTables_safe.bind fun _ hp => .ok ⟨hp, h⟩) fun _ =>
    dynamicTables_safe hfuel h

theorem inflateBlock_safe {fuel type : ℕ} {out : List Byte} (hfuel : k < fuel) (h : Left k r) :
    (inflateBlock fuel type out r).Ensures (Within k) := by
  rw [inflateBlock]
  refine .ite (fun _ => inflateStored_safe h) fun _ => (blockTables_safe hfuel h).bind
    fun ⟨⟨literals, distances⟩, r₃⟩ ⟨⟨hliterals, hdistances⟩, hleft⟩ => ?_
  exact inflateSymbols_safe hliterals hdistances hfuel hleft

theorem inflateBlocks_safe {fuel blocks : ℕ} {out : List Byte} (hfuel : k < fuel)
    (hblocks : k < blocks) (h : Left k r) :
    (inflateBlocks fuel blocks out r).Ensures fun out => out.length ≤ kMaxInflateOutput := by
  induction blocks generalizing out r k with
  | zero => omega
  | succ blocks ih =>
    rw [inflateBlocks]
    rcases hbits₁ : r.bits 1 with ⟨final, r₁⟩
    rcases hbits₂ : r₁.bits 2 with ⟨type, r₂⟩
    obtain ⟨_, hleft₁, _⟩ := h.bits hbits₁
    obtain ⟨_, _, hleft₂⟩ := hleft₁.bits hbits₂
    dsimp only
    rw [hbits₂]
    refine .ite (fun _ => .error) fun hok => .ite (fun _ => .error) fun _ => ?_
    obtain ⟨hk, hleft⟩ := hleft₂ (Bool.not_eq_true _ ▸ hok)
    refine (inflateBlock_safe (by omega) hleft).bind fun ⟨out', r₃⟩ ⟨hout, hleft₃⟩ =>
      .ite (fun _ => .ok hout) fun _ => ?_
    exact ih (by omega) (by omega) hleft₃

/-- **Inflating is safe.**  Whatever the input, there is a result or an error, no access leaves
its table, and the output stays within the limit. -/
theorem inflateRaw_safe (data : List Byte) (expectedSize : ℕ) :
    (inflateRaw data expectedSize).Ensures fun out => out.length ≤ kMaxInflateOutput := by
  have hleft : Left (8 * data.length) { data } := by
    refine ⟨⟨Nat.zero_lt_succ 7, Nat.zero_le _⟩, ?_⟩
    rw [BitReader.stream_length]
    exact (Nat.zero_add _).le
  exact inflateBlocks_safe (Nat.lt_succ_self _) (Nat.lt_succ_self _) hleft

end Transport
end Canforge
