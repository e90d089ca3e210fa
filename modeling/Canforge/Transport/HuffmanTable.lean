/-
# The decoder's tables and the canonical code

`Huffman.build` accepts a list of code lengths if none is above 15 and the codes are not too
many (`build_eq`), and then counts the codes and sorts the symbols by length and symbol
(`Table`).  A walk through such a table finds the symbol of every code (`decode_code`).
-/

import Canforge.Lib.Canonical
import Canforge.Transport.BitStream

namespace Canforge
namespace Transport

open Canforge.Core Lib Outcome Canonical

namespace Huffman

/-- A table with an entry for each code length. -/
def byLength (f : ℕ → ℕ) : List ℕ := (List.range 16).map f

variable {f g : ℕ → ℕ} {lengths : List ℕ} {l m rounds : ℕ}

theorem byLength_congr (h : ∀ l < 16, f l = g l) : byLength f = byLength g :=
  List.map_congr_left fun l hl => h l (List.mem_range.1 hl)

theorem replicate_eq_byLength : List.replicate 16 0 = byLength fun _ => 0 := rfl

theorem fetch_byLength (h : l < 16) : (fetch (byLength f) l : Checked ℕ) = ok (f l) := by
  refine fetch_of_getElem? ?_
  rw [byLength, List.getElem?_map, List.getElem?_range h]
  rfl

theorem store_byLength (h : l < 16) (a : ℕ) :
    (store (byLength f) l a : Checked (List ℕ)) = ok (byLength (Function.update f l a)) := by
  have hlength : (byLength f).length = 16 := rfl
  rw [store_eq a (hlength ▸ h)]
  refine congrArg ok (List.ext_getElem (by rw [List.length_set]; rfl) fun i _ _ => ?_)
  rw [List.getElem_set]
  simp only [byLength, List.getElem_map, List.getElem_range, Function.update_apply, eq_comm]

/-! ### Building a table -/

theorem countLengths_eq (h : ∀ l ∈ lengths, l ≤ kMaxBits) :
    countLengths lengths (byLength f) = ok (byLength fun l => f l + lengths.count l) := by
  induction lengths generalizing f with
  | nil => rfl
  | cons l lengths ih =>
    obtain ⟨hl, hrest⟩ := List.forall_mem_cons.1 h
    have hlt : l < 16 := Nat.lt_succ_of_le hl
    rw [countLengths, if_neg (Nat.not_lt.2 hl), fetch_byLength hlt, ok_bind, store_byLength hlt,
      ok_bind, ih hrest]
    refine congrArg ok (byLength_congr fun k _ => ?_)
    rw [List.count_cons, Function.update_apply]
    by_cases hk : k = l
    · rw [if_pos hk, hk, beq_self_eq_true, if_pos rfl]
      omega
    · rw [if_neg hk, beq_false_of_ne (Ne.symm hk)]
      rfl

theorem countLengths_error (h : ¬ ∀ l ∈ lengths, l ≤ kMaxBits) :
    countLengths lengths (byLength f) = bad "Huffman code length exceeds 15 bits" := by
  induction lengths generalizing f with
  | nil => exact absurd (List.forall_mem_nil _) h
  | cons l lengths ih =>
    rw [countLengths]
    split_ifs with hl
    · rfl
    · have hlt : l < 16 := Nat.lt_succ_of_le (Nat.not_lt.1 hl)
      rw [fetch_byLength hlt, ok_bind, store_byLength hlt, ok_bind]
      exact ih fun hrest => h (List.forall_mem_cons.2 ⟨Nat.not_lt.1 hl, hrest⟩)

/-- The check keeps what is left of the codes of each length. -/
theorem checkSubscription_eq (hfits : Fits lengths m) (hm : m + rounds = 15) :
    checkSubscription (byLength (codes lengths)) rounds (m + 1)
        (2 ^ m - ((lengths.map (slots m)).sum : ℕ)) =
      if Fits lengths 15 then ok () else bad "over-subscribed Huffman code" := by
  induction rounds generalizing m with
  | zero =>
    obtain rfl : m = 15 := hm
    rw [if_pos hfits]
    rfl
  | succ rounds ih =>
    have hleft : (2 ^ m - ((lengths.map (slots m)).sum : ℕ) : ℤ) * 2 - codes lengths (m + 1) =
        2 ^ (m + 1) - ((lengths.map (slots (m + 1))).sum : ℕ) := by
      rw [sum_slots_succ, pow_succ]
      push_cast
      ring
    rw [checkSubscription, fetch_byLength (by omega), ok_bind]
    dsimp only
    rw [hleft]
    have hiff : (2 ^ (m + 1) - ((lengths.map (slots (m + 1))).sum : ℕ) : ℤ) < 0 ↔
        ¬ Fits lengths (m + 1) := by
      rw [Fits, sub_neg, not_le]
      exact_mod_cast Iff.rfl
    split_ifs with hneg hfits' hfits'
    · exact absurd (hfits'.of_le (by omega)) (hiff.1 hneg)
    · rfl
    · rw [ih (not_not.1 fun h => hneg (hiff.2 h)) (by omega), if_pos hfits']
    · rw [ih (not_not.1 fun h => hneg (hiff.2 h)) (by omega), if_neg hfits']

theorem fillOffsets_eq (hf : ∀ l ≤ m, f l = shorter lengths l) (hm : m + rounds = 15) :
    fillOffsets (byLength (codes lengths)) rounds m (byLength f) =
      ok (byLength (shorter lengths)) := by
  induction rounds generalizing m f with
  | zero => exact congrArg ok (byLength_congr fun l hl => hf l (by omega))
  | succ rounds ih =>
    rw [fillOffsets, fetch_byLength (by omega), ok_bind, fetch_byLength (by omega), ok_bind,
      store_byLength (by omega), ok_bind]
    refine ih (fun l hl => ?_) (by omega)
    rw [Function.update_apply]
    split_ifs with h
    · rw [h, hf m le_rfl]
      rfl
    · exact hf l (by omega)

/-- The symbols before the `i`-th are at their places. -/
def Placed (lengths : List ℕ) (i : ℕ) (symbols : List ℕ) : Prop :=
  symbols.length = lengths.length ∧
    ∀ s < i, lengthOf lengths s ≠ 0 → symbols[position lengths s]? = some s

theorem Placed.place {symbols : List ℕ} {i : ℕ} (h : Placed lengths i symbols)
    (hi : i < lengths.length) (hl : lengthOf lengths i ≠ 0) :
    Placed lengths (i + 1) (symbols.set (position lengths i) i) := by
  refine ⟨(List.length_set).trans h.1, fun s hs hls => ?_⟩
  have hplace := position_lt hi hl
  rcases Nat.lt_succ_iff_lt_or_eq.1 hs with hs | rfl
  · rw [List.getElem?_set_ne fun heq => hs.ne' (position_injective hi (hs.trans hi) hl hls heq)]
    exact h.2 s hs hls
  · exact List.getElem?_set_self (h.1 ▸ hplace)

theorem placeSymbols_spec {rest symbols : List ℕ} {i : ℕ} (h : ∀ l ∈ lengths, l ≤ kMaxBits)
    (hrest : lengths.drop i = rest) (hi : i ≤ lengths.length)
    (hf : ∀ l, l ≠ 0 → f l = shorter lengths l + (lengths.take i).count l)
    (hplaced : Placed lengths i symbols) :
    ∃ symbols', placeSymbols rest i (byLength f) symbols = ok symbols' ∧
      Placed lengths lengths.length symbols' := by
  induction rest generalizing i f symbols with
  | nil =>
    obtain rfl : i = lengths.length := Nat.le_antisymm hi (List.drop_eq_nil_iff.1 hrest)
    exact ⟨symbols, rfl, hplaced⟩
  | cons l rest ih =>
    have hlt : i < lengths.length := by
      by_contra hge
      rw [List.drop_of_length_le (by omega)] at hrest
      cases hrest
    rw [List.drop_eq_getElem_cons hlt, List.cons.injEq] at hrest
    obtain ⟨hget, hdrop⟩ := hrest
    have hlength : lengthOf lengths i = l := (List.getD_eq_getElem _ _ hlt).trans hget
    have hcount : ∀ k, (lengths.take (i + 1)).count k =
        (lengths.take i).count k + if l = k then 1 else 0 := by
      intro k
      rw [List.take_succ_eq_append_getElem hlt, List.count_append, hget, List.count_singleton]
      simp only [beq_iff_eq]
    have hl16 : l < 16 := Nat.lt_succ_of_le (h l (hget ▸ List.getElem_mem hlt))
    rw [placeSymbols]
    split_ifs with hl
    · have hposition : f l = position lengths i := by
        rw [hf l hl, position, rank, hlength]
      have hbound : f l < symbols.length := by
        rw [hposition, hplaced.1]
        exact position_lt hlt (hlength ▸ hl)
      rw [fetch_byLength hl16, ok_bind, store_eq i hbound, ok_bind, store_byLength hl16, ok_bind,
        hposition]
      refine ih hdrop hlt (fun k hk => ?_) (hplaced.place hlt (hlength ▸ hl))
      rw [hcount, Function.update_apply]
      rcases eq_or_ne k l with rfl | hkl
      · rw [if_pos rfl, if_pos rfl, ← hposition, hf k hk]
        rfl
      · rw [if_neg hkl, if_neg hkl.symm]
        exact hf k hk
    · refine ih hdrop hlt (fun k hk => ?_) ⟨hplaced.1, fun s hs hls => ?_⟩
      · rw [hcount, if_neg (by omega), hf k hk]
        rfl
      · rcases Nat.lt_succ_iff_lt_or_eq.1 hs with hs | rfl
        · exact hplaced.2 s hs hls
        · exact absurd (hlength ▸ hls) hl

end Huffman

/-- **The table of a list of code lengths.** -/
structure Table (lengths : List ℕ) (table : Huffman) : Prop where
  counts_eq : table.counts = Huffman.byLength (codes lengths)
  placed : Huffman.Placed lengths lengths.length table.symbols

namespace Huffman

variable {lengths : List ℕ}

/-- **`build` gives the table of a code, and an error for anything else.** -/
theorem build_eq (lengths : List ℕ) :
    (∃ table, build lengths = ok table ∧ Table lengths table) ∧
        (∀ l ∈ lengths, l ≤ kMaxBits) ∧ Fits lengths 15 ∨
      (∃ e, build lengths = .error e) ∧
        ¬ ((∀ l ∈ lengths, l ≤ kMaxBits) ∧ Fits lengths 15) := by
  rw [build, replicate_eq_byLength]
  by_cases hle : ∀ l ∈ lengths, l ≤ kMaxBits
  · have hcounts : byLength (Function.update (fun l => 0 + lengths.count l) 0 0) =
        byLength (codes lengths) := byLength_congr fun l _ => by
      rw [Function.update_apply, codes, Nat.zero_add]
    have hzero : (2 ^ 0 - ((lengths.map (slots 0)).sum : ℕ) : ℤ) = 1 := by
      rw [← firstCode_add_codes]
      rfl
    have hcheck := @checkSubscription_eq lengths 0 15 (by
      rw [Fits, ← firstCode_add_codes]
      exact Nat.zero_le _) rfl
    rw [hzero] at hcheck
    rw [countLengths_eq hle, ok_bind, store_byLength (by decide), ok_bind, hcounts]
    change
      (∃ table, (checkSubscription (byLength (codes lengths)) 15 (0 + 1) 1 >>= _) = _ ∧ _) ∧ _ ∨
      (∃ e, (checkSubscription (byLength (codes lengths)) 15 (0 + 1) 1 >>= _) = _) ∧ _
    rw [hcheck]
    by_cases hfits : Fits lengths 15
    · left
      refine ⟨?_, hle, hfits⟩
      obtain ⟨symbols, hplace, hplaced⟩ := @placeSymbols_spec (shorter lengths) lengths lengths
        (List.replicate lengths.length 0) 0 hle rfl (Nat.zero_le _) (fun _ _ => rfl)
        ⟨List.length_replicate, fun s hs => absurd hs (Nat.not_lt_zero s)⟩
      refine ⟨{ counts := byLength (codes lengths), symbols }, ?_, rfl, hplaced⟩
      have hfill := @fillOffsets_eq (Function.update (fun _ => 0) 1 0) lengths 1 14
        (fun l hl => by
          rw [Function.update_apply, ite_self]
          interval_cases l <;> rfl) rfl
      rw [if_pos hfits, ok_bind, store_byLength (by decide), ok_bind]
      change (fillOffsets (byLength (codes lengths)) 14 1 _ >>= _) = _
      rw [hfill, ok_bind, hplace]
      rfl
    · right
      rw [if_neg hfits]
      exact ⟨⟨_, rfl⟩, fun h => hfits h.2⟩
  · right
    rw [countLengths_error hle]
    exact ⟨⟨_, rfl⟩, fun h => hle h.1⟩

theorem build_ensures (lengths : List ℕ) : (build lengths).Ensures (Table lengths) := by
  rcases build_eq lengths with ⟨⟨table, hbuild, htable⟩, _⟩ | ⟨⟨e, hbuild⟩, _⟩
  · rw [hbuild]
    exact .ok htable
  · rw [hbuild]
    exact .error

theorem build_ok (hle : ∀ l ∈ lengths, l ≤ kMaxBits) (hfits : Fits lengths 15) :
    ∃ table, build lengths = ok table ∧ Table lengths table := by
  rcases build_eq lengths with ⟨h, _⟩ | ⟨_, h⟩
  · exact h
  · exact absurd ⟨hle, hfits⟩ h

/-- What `build` accepts, and what it gives. -/
theorem build_spec {table : Huffman} (hbuild : build lengths = ok table) :
    Table lengths table ∧ (∀ l ∈ lengths, l ≤ kMaxBits) ∧ Fits lengths 15 := by
  rcases build_eq lengths with ⟨⟨table', hbuild', htable⟩, hle, hfits⟩ | ⟨⟨e, herror⟩, -⟩
  · have hsame : table' = table := Outcome.ok.inj (hbuild'.symm.trans hbuild)
    exact ⟨hsame ▸ htable, hle, hfits⟩
  · rw [herror] at hbuild
    cases hbuild

end Huffman

/-! ### Decoding a code -/

section Decode

variable {lengths : List ℕ} {table : Huffman} {r : BitReader} {rest : List Bool} {s : ℕ}

theorem toBits_succ_reverse (n v : ℕ) :
    (toBits (n + 1) v).reverse = v.testBit n :: (toBits n v).reverse := by
  rw [toBits_eq_map, toBits_eq_map, List.range_succ, List.map_append, List.reverse_append]
  rfl

theorem shiftRight_eq_or_testBit (v n : ℕ) :
    (v >>> (n + 1)) <<< 1 ||| (v.testBit n).toNat = v >>> n := by
  have hbit : (v.testBit n).toNat = v >>> n % 2 := by
    rw [Nat.testBit_eq_decide_div_mod_eq, Nat.shiftRight_eq_div_pow]
    rcases Nat.mod_two_eq_zero_or_one (v / 2 ^ n) with h | h <;> simp [h]
  rw [← Nat.shiftLeft_add_eq_or_of_lt (by rw [hbit]; omega), hbit, Nat.shiftLeft_eq,
    Nat.shiftRight_succ]
  omega

/-- One bit of the walk, when it is there. -/
theorem decodeFrom_succ (htable : Table lengths table) {b : Bool} {rounds l first index v : ℕ}
    (hl : l < 16) (hr : r.Reads (b :: rest)) : ∃ r', r'.Reads rest ∧
      decodeFrom table (rounds + 1) l v first index r =
        if v ||| b.toNat < first + codes lengths l then
          indexSub (v ||| b.toNat) first >>= fun off =>
            if table.symbols.length ≤ index + off then pure (none, r')
            else fetch table.symbols (index + off) >>= fun symbol => pure (some symbol, r')
        else decodeFrom table rounds (l + 1) ((v ||| b.toNat) <<< 1)
          ((first + codes lengths l) <<< 1) (index + codes lengths l) r' := by
  obtain ⟨r', hbit, hr'⟩ := @BitReader.Reads.bits r 1 [b] rest hr rfl
  refine ⟨r', hr', ?_⟩
  rw [decodeFrom, hbit, htable.counts_eq]
  dsimp only
  rw [hr'.ok, if_neg Bool.false_ne_true, Huffman.fetch_byLength hl]
  rfl

/-- The walk from the bit on behind which `k` more are left of the code. -/
theorem decodeFrom_code (htable : Table lengths table) (hs : s < lengths.length)
    {k rounds l : ℕ} (hl : lengthOf lengths s = l + k) (hl₀ : l ≠ 0) (hmax : l + rounds = 16)
    (hrounds : k < rounds)
    (hr : r.Reads ((toBits (k + 1) (code lengths s)).reverse ++ rest)) :
    ∃ r', decodeFrom table rounds l ((code lengths s >>> (k + 1)) <<< 1) (firstCode lengths l)
      (shorter lengths l) r = ok (some s, r') ∧ r'.Reads rest := by
  induction k generalizing rounds l r with
  | zero =>
    obtain ⟨rounds, rfl⟩ := Nat.exists_eq_succ_of_ne_zero (Nat.ne_of_gt hrounds)
    obtain ⟨r', hr', hstep⟩ := @decodeFrom_succ _ _ _ _ htable _ rounds l (firstCode lengths l)
      (shorter lengths l) ((code lengths s >>> (0 + 1)) <<< 1) (by omega) hr
    have hrank := @rank_lt lengths s hs (hl ▸ hl₀)
    rw [Nat.add_zero] at hl
    rw [hl] at hrank
    have hcode : code lengths s = firstCode lengths l + rank lengths s := by rw [code, hl]
    have hposition : shorter lengths l + rank lengths s = position lengths s := by
      rw [position, hl]
    have hsymbol := htable.placed.2 s hs (hl ▸ hl₀)
    have hbound := List.getElem?_eq_some_iff.1 hsymbol |>.choose
    refine ⟨r', ?_, hr'⟩
    rw [hstep, shiftRight_eq_or_testBit, Nat.shiftRight_zero, if_pos (by omega),
      indexSub_eq (by omega), ok_bind, hcode, Nat.add_sub_cancel_left, hposition,
      if_neg (Nat.not_le.2 hbound), fetch_of_getElem? hsymbol]
    rfl
  | succ k ih =>
    obtain ⟨rounds, rfl⟩ := Nat.exists_eq_succ_of_ne_zero (Nat.ne_of_gt (Nat.zero_lt_of_lt hrounds))
    rw [toBits_succ_reverse] at hr
    obtain ⟨r₁, hr₁, hstep⟩ := @decodeFrom_succ _ _ _ _ htable _ rounds l (firstCode lengths l)
      (shorter lengths l) ((code lengths s >>> (k + 1 + 1)) <<< 1) (by omega) hr
    obtain ⟨r', hrest, hr'⟩ := @ih r₁ rounds (l + 1) (by omega) (by omega) (by omega) (by omega) hr₁
    have hnot := @le_shiftRight_code lengths l s (by omega)
    rw [hl, Nat.add_sub_cancel_left] at hnot
    have hfirst : (firstCode lengths l + codes lengths l) <<< 1 = firstCode lengths (l + 1) := by
      rw [Nat.shiftLeft_eq, Nat.mul_comm]
      rfl
    refine ⟨r', ?_, hr'⟩
    rw [hstep, shiftRight_eq_or_testBit, if_neg (Nat.not_lt.2 hnot), hfirst]
    exact hrest

/-- **The walk finds the symbol of a code.** -/
theorem decode_code (htable : Table lengths table) (hfits : Fits lengths 15)
    (hs : s < lengths.length) (hl : lengthOf lengths s ≠ 0) (hmax : lengthOf lengths s ≤ 15)
    (hr : r.Reads (codeBits lengths s ++ rest)) :
    ∃ r', decode table r = ok (some s, r') ∧ r'.Reads rest := by
  obtain ⟨k, hk⟩ := Nat.exists_eq_succ_of_ne_zero hl
  have hcode := code_lt hfits hs hl hmax
  rw [codeBits, hk] at hr
  obtain ⟨r', hdecode, hr'⟩ := @decodeFrom_code _ _ _ _ _ htable hs k 15 1 (by omega)
    Nat.one_ne_zero rfl (by omega) hr
  refine ⟨r', ?_, hr'⟩
  rw [hk] at hcode
  rw [Nat.shiftRight_eq_zero _ _ hcode] at hdecode
  exact hdecode

/-! ### The codes that are found -/

/-- The number of what is read, with the next bit behind it. -/
theorem ofBits_reverse_snoc (before : List Bool) (b : Bool) :
    ofBits before.reverse <<< 1 ||| b.toNat = ofBits (before ++ [b]).reverse := by
  rw [List.reverse_append, List.reverse_singleton, List.singleton_append, ofBits,
    ← Nat.shiftLeft_add_eq_or_of_lt (by have := b.toNat_le; omega), Nat.shiftLeft_eq]
  omega

/-- A step of the walk that finds something has read a bit. -/
theorem decodeFrom_reads {rounds l v first index : ℕ} {r' : BitReader} (hr : r.Valid)
    (h : decodeFrom table (rounds + 1) l v first index r = ok (some s, r')) :
    ∃ b rest, r.Reads (b :: rest) := by
  cases hstream : r.stream with
  | nil =>
    have hover := (BitReader.bits_overrun (n := 1) hr (by rw [hstream]; exact Nat.one_pos)).2.2
    rw [decodeFrom] at h
    dsimp only at h
    rw [if_pos hover] at h
    cases h
  | cons b rest =>
    obtain ⟨r₁, hbits, -, -, -, hover⟩ :=
      BitReader.bits_spec (n := 1) hr (by rw [hstream, List.length_cons]; omega)
    rw [decodeFrom, hbits] at h
    dsimp only at h
    split_ifs at h with hstop
    · cases h
    · exact ⟨b, rest, hr, hstream, by rw [← hover]; simpa using hstop⟩

/-- **What is found behind `before` is the symbol of a code that begins so**, by induction on the
bits that may follow. -/
theorem decodeFrom_found (htable : Table lengths table) {rounds l : ℕ} {before : List Bool}
    {r' : BitReader} (hr : r.Valid) (hl : l ≠ 0) (hmax : l + rounds = 16)
    (hbefore : before.length + 1 = l) (hfirst : firstCode lengths l ≤ ofBits before.reverse <<< 1)
    (h : decodeFrom table rounds l (ofBits before.reverse <<< 1) (firstCode lengths l)
      (shorter lengths l) r = ok (some s, r')) :
    lengthOf lengths s ≠ 0 ∧ before ++ r.stream = codeBits lengths s ++ r'.stream := by
  induction rounds generalizing l before r with
  | zero => cases h
  | succ rounds ih =>
    obtain ⟨b, rest, hreads⟩ := decodeFrom_reads hr h
    obtain ⟨r₁, hr₁, hstep⟩ := @decodeFrom_succ _ _ _ _ htable b rounds l (firstCode lengths l)
      (shorter lengths l) (ofBits before.reverse <<< 1) (by omega) hreads
    rw [hstep, ofBits_reverse_snoc] at h
    have hle : firstCode lengths l ≤ ofBits (before ++ [b]).reverse := by
      rw [← ofBits_reverse_snoc]
      exact hfirst.trans Nat.left_le_or
    rw [hreads.stream_eq, List.append_cons]
    split_ifs at h with hfound
    · -- the code is one of this length: its symbol is the one of its rank
      obtain ⟨t, ht, hlength, hrank⟩ := exists_rank hl (Nat.sub_lt_left_of_lt_add hle hfound)
      have hplace : shorter lengths l + (ofBits (before ++ [b]).reverse - firstCode lengths l) =
          position lengths t := by rw [position, hlength, hrank]
      have hsymbol := htable.placed.2 t ht (hlength ▸ hl)
      have hbound := List.getElem?_eq_some_iff.1 hsymbol |>.choose
      rw [indexSub_eq hle, ok_bind, hplace, if_neg (Nat.not_le.2 hbound),
        fetch_of_getElem? hsymbol] at h
      cases h
      have hcode : code lengths s = ofBits (before ++ [b]).reverse := by
        rw [code, hlength, hrank]
        omega
      have hcodeBits : codeBits lengths s = before ++ [b] := by
        have hlen : (before ++ [b]).reverse.length = lengthOf lengths s := by
          rw [List.length_reverse, List.length_append, List.length_singleton, hbefore, hlength]
        rw [codeBits, hcode, ← hlen, toBits_ofBits, List.reverse_reverse]
      rw [hcodeBits, hr₁.stream_eq]
      exact ⟨hlength ▸ hl, rfl⟩
    · have hfirst' : (firstCode lengths l + codes lengths l) <<< 1 = firstCode lengths (l + 1) := by
        rw [Nat.shiftLeft_eq, Nat.mul_comm]
        rfl
      rw [hfirst'] at h
      rw [← hr₁.stream_eq]
      refine ih hr₁.valid (by omega) (by omega) ?_ ?_ h
      · rw [List.length_append, List.length_singleton, hbefore]
      · rw [← hfirst', Nat.shiftLeft_eq, Nat.shiftLeft_eq]
        omega

/-- **Decoding is the canonical code.**  A symbol with a code is found where the code stands, and
what is found has its code there. -/
theorem decode_canonical (hbuild : Huffman.build lengths = ok table) (hr : r.Valid) :
    (∀ s rest, lengthOf lengths s ≠ 0 → r.overrun = false →
        r.stream = codeBits lengths s ++ rest →
        ∃ r', decode table r = ok (some s, r') ∧ r'.Reads rest) ∧
      ∀ s r', decode table r = ok (some s, r') →
        lengthOf lengths s ≠ 0 ∧ r.stream = codeBits lengths s ++ r'.stream := by
  obtain ⟨htable, hle, hfits⟩ := Huffman.build_spec hbuild
  constructor
  · intro s rest hl hok hstream
    have hs := lt_length hl
    have hmax : lengthOf lengths s ≤ 15 := by
      rw [lengthOf, List.getD_eq_getElem _ _ hs]
      exact hle _ (List.getElem_mem hs)
    exact decode_code htable hfits hs hl hmax ⟨hr, hstream, hok⟩
  · intro s r' hfound
    exact @decodeFrom_found _ _ _ _ htable _ _ [] _ hr Nat.one_ne_zero rfl rfl (Nat.zero_le _) hfound

/-- The lengths 1, 2 and 2: the bits `10` are the symbol 1, and six bits are left. -/
theorem decode_canonical_three :
    ∃ table r', Huffman.build [1, 2, 2] = ok table ∧
      decode table { data := [0x01] } = ok (some 1, r') ∧
      codeBits [1, 2, 2] 1 = [true, false] ∧ r'.Reads (List.replicate 6 false) := by
  have hbuild : Huffman.build [1, 2, 2] =
      ok { counts := [0, 1, 2, 0, 0, 0, 0, 0, 0, 0, 0, 0, 0, 0, 0, 0], symbols := [0, 1, 2] } := rfl
  obtain ⟨r', hdecode, hreads⟩ := (decode_canonical (r := { data := [0x01] }) hbuild
    ⟨by decide, by decide⟩).1 1 (List.replicate 6 false) (by decide) rfl (by decide)
  exact ⟨_, r', hbuild, hdecode, by decide, hreads⟩

end Decode

end Transport
end Canforge
