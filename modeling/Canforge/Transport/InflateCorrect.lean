/-
# Decoding a stream

`inflateRaw_stream`: the decoder gives the expansion of every valid sequence of blocks,
whatever follows the last one.  Each function of the decoder has one lemma here, which says
what it returns when the bits that encode its part of the stream come next, and that it
leaves the reader behind them.
-/

import Canforge.Lib.Deflate
import Canforge.Transport.InflateSafe

namespace Canforge
namespace Transport

open Canforge.Core Lib Outcome Canonical Deflate

variable {r : BitReader} {rest : List Bool} {out : List Byte}

/-! ### The tables of the source -/

theorem kLengthBase_eq : kLengthBase = (List.range 29).map lengthBase := by decide
theorem kLengthExtra_eq : kLengthExtra = (List.range 29).map lengthExtra := by decide
theorem kDistanceBase_eq : kDistanceBase = (List.range 30).map distanceBase := by decide
theorem kDistanceExtra_eq : kDistanceExtra = (List.range 30).map distanceExtra := by decide

/-- **A range code and its extra bits.** -/
theorem readRange_place {count : ℕ} {base extra : ℕ → ℕ} (p : Place count base extra)
    (hr : r.Reads (toBits (extra p.index) p.more ++ rest)) :
    ∃ r', readRange ((List.range count).map base) ((List.range count).map extra) p.index r =
      ok (p.value, r') ∧ r'.Reads rest := by
  have hget : ∀ f : ℕ → ℕ, ((List.range count).map f)[p.index]? = some (f p.index) := by
    intro f
    rw [List.getElem?_map, List.getElem?_range p.index_lt]
    rfl
  obtain ⟨r', hbits, hr'⟩ := hr.bits (toBits_length _ _)
  refine ⟨r', ?_, hr'⟩
  rw [readRange, fetch_of_getElem? (hget base), ok_bind, fetch_of_getElem? (hget extra), ok_bind,
    hbits, ofBits_toBits_of_lt p.more_lt]
  rfl

/-! ### Tokens -/

/-- **The copy loop repeats what it has copied.** -/
theorem copyBack_from {start d n i : ℕ} (hd : 0 < d) (hstart : start + d = out.length) :
    copyBack start n i (out ++ (List.range i).map fun i => out.getD (start + i % d) 0) =
      ok (out ++ (List.range (i + n)).map fun i => out.getD (start + i % d) 0) := by
  induction n generalizing i with
  | zero => rfl
  | succ n ih =>
    have hmod := Nat.mod_lt i hd
    have hget : (out ++ (List.range i).map fun i => out.getD (start + i % d) 0)[start + i]? =
        some (out.getD (start + i % d) 0) := by
      rcases Nat.lt_or_ge i d with hlt | hge
      · rw [List.getElem?_append_left (by omega), Nat.mod_eq_of_lt hlt,
          List.getElem?_eq_getElem (by omega), List.getD_eq_getElem _ _ (by omega)]
      · rw [List.getElem?_append_right (by omega), List.getElem?_map,
          List.getElem?_range (by omega), show start + i - out.length = i - d by omega,
          Option.map_some, ← Nat.mod_eq_sub_mod hge]
    have hsnoc : (out ++ (List.range i).map fun i => out.getD (start + i % d) 0) ++
        [out.getD (start + i % d) 0] =
          out ++ (List.range (i + 1)).map fun i => out.getD (start + i % d) 0 := by
      rw [List.range_succ, List.map_append, List.append_assoc]
      rfl
    rw [copyBack, fetch_of_getElem? hget, ok_bind, hsnoc, ih, Nat.add_right_comm, Nat.add_assoc]

theorem copyBack_eq {d n : ℕ} (hd : 0 < d) (hle : d ≤ out.length) :
    copyBack (out.length - d) n 0 out =
      ok (out ++ (List.range n).map fun i => out.getD (out.length - d + i % d) 0) := by
  have h := @copyBack_from out (out.length - d) d n 0 hd (by omega)
  rwa [List.range_zero, List.map_nil, List.append_nil, Nat.zero_add] at h

/-- The table decodes the codes of the symbols below `count`. -/
def Decodes (lengths : List ℕ) (table : Huffman) (count : ℕ) : Prop :=
  ∀ s < count, lengthOf lengths s ≠ 0 → ∀ (r : BitReader) (rest : List Bool),
    r.Reads (codeBits lengths s ++ rest) → ∃ r', decode table r = ok (some s, r') ∧ r'.Reads rest

theorem Table.decodes {lengths : List ℕ} {table : Huffman} (htable : Table lengths table)
    (hcode : IsCode lengths 15) (count : ℕ) : Decodes lengths table count := by
  intro s _ hs r rest hr
  have hlt := lt_length hs
  have hmem : lengthOf lengths s ∈ lengths := by
    rw [lengthOf, List.getD_eq_getElem _ _ hlt]
    exact List.getElem_mem hlt
  exact decode_code htable hcode.fits hlt hs (hcode.le _ hmem) hr

/-- The tables of a block. -/
structure Tables (c : Codes) (literals distances : Huffman) : Prop where
  literal : Decodes c.literals literals 286
  distance : Decodes c.distances distances 30

variable {c : Codes} {literals distances : Huffman}

/-- One round of the loop over the symbols. -/
theorem inflateSymbols_token (ht : Tables c literals distances) {t : Token} {fuel : ℕ}
    (hcoded : t.Coded c) (hreaches : t.Reaches out)
    (hlimit : (t.expand out).length < kMaxInflateOutput)
    (hr : r.Reads (t.bits c ++ rest)) : ∃ r', r'.Reads rest ∧
      inflateSymbols literals distances (fuel + 1) out r =
        inflateSymbols literals distances fuel (t.expand out) r' := by
  have hroom : ¬ kMaxInflateOutput ≤ out.length := by
    have := t.length_le_expand out
    omega
  cases t with
  | literal byte =>
    have hbyte : byte.toNat < 256 := byte.isLt
    obtain ⟨r', hdecode, hr'⟩ := ht.literal _ (by omega) hcoded r rest hr
    refine ⟨r', hr', ?_⟩
    rw [inflateSymbols, hdecode, ok_bind]
    dsimp only
    rw [if_neg hroom, if_pos hbyte, BitVec.ofNat_toNat,
      BitVec.setWidth_eq]
    rfl
  | copy l d =>
    rw [Token.bits, List.append_assoc, List.append_assoc, List.append_assoc] at hr
    have hl := l.index_lt
    have hd := d.index_lt
    obtain ⟨r₁, hdecode₁, hr₁⟩ := ht.literal _ (by omega) hcoded.1 r _ hr
    obtain ⟨r₂, hrange₂, hr₂⟩ := readRange_place l hr₁
    obtain ⟨r₃, hdecode₃, hr₃⟩ := ht.distance _ hd hcoded.2 r₂ _ hr₂
    obtain ⟨r₄, hrange₄, hr₄⟩ := readRange_place d hr₃
    have hpos := distance_pos d
    have hle : d.value ≤ out.length := hreaches
    have hlength : out.length + l.value < kMaxInflateOutput := by
      rwa [Token.expand, List.length_append, List.length_map, List.length_range] at hlimit
    refine ⟨r₄, hr₄, ?_⟩
    rw [inflateSymbols, hdecode₁, ok_bind]
    dsimp only
    rw [if_neg hroom, if_neg (by omega), if_neg (by omega), indexSub_eq (by omega), ok_bind,
      Nat.add_sub_cancel_left, if_neg (by omega), kLengthBase_eq, kLengthExtra_eq, hrange₂, ok_bind]
    dsimp only
    rw [hdecode₃, ok_bind]
    dsimp only
    rw [if_neg (by omega), kDistanceBase_eq, kDistanceExtra_eq, hrange₄, ok_bind]
    dsimp only
    rw [hr₄.ok, if_neg Bool.false_ne_true, if_neg (by omega), if_neg (by omega),
      indexSub_eq hle, ok_bind, copyBack_eq hpos hle, ok_bind]
    rfl

theorem token_bits_pos {t : Token} (hcoded : t.Coded c) : 0 < (t.bits c).length := by
  cases t with
  | literal byte => exact (codeBits_length _ _).symm ▸ Nat.pos_of_ne_zero hcoded
  | copy l d =>
    rw [Token.bits, List.length_append, codeBits_length]
    exact Nat.add_pos_left (Nat.pos_of_ne_zero hcoded.1) _

/-- **The body of a block.** -/
theorem inflateSymbols_body (ht : Tables c literals distances) {tokens : List Token} {fuel : ℕ}
    (hcoded : ∀ t ∈ tokens, t.Coded c) (hend : lengthOf c.literals 256 ≠ 0)
    (hreach : TokensReach out tokens)
    (hlimit : (expandTokens out tokens).length < kMaxInflateOutput)
    (hr : r.Reads (bodyBits c tokens ++ rest)) (hfuel : (bodyBits c tokens).length ≤ fuel) :
    ∃ r', inflateSymbols literals distances fuel out r = ok (expandTokens out tokens, r') ∧
      r'.Reads rest := by
  induction tokens generalizing out r fuel with
  | nil =>
    have hlength : (bodyBits c []).length = lengthOf c.literals 256 := codeBits_length _ _
    obtain ⟨fuel, rfl⟩ : ∃ n, fuel = n + 1 := ⟨fuel - 1, by omega⟩
    obtain ⟨r', hdecode, hr'⟩ := ht.literal 256 (by decide) hend r rest hr
    refine ⟨r', ?_, hr'⟩
    have hroom : ¬ kMaxInflateOutput ≤ out.length := Nat.not_le.2 hlimit
    rw [inflateSymbols, hdecode, ok_bind]
    dsimp only
    rw [if_neg hroom, if_neg (lt_irrefl 256), if_pos rfl]
    rfl
  | cons t tokens ih =>
    obtain ⟨hcoded₁, hcoded⟩ := List.forall_mem_cons.1 hcoded
    have hbody : bodyBits c (t :: tokens) = t.bits c ++ bodyBits c tokens := by
      rw [bodyBits, List.flatMap_cons, List.append_assoc]
      rfl
    have hpos := token_bits_pos hcoded₁
    rw [hbody, List.append_assoc] at hr
    rw [hbody, List.length_append] at hfuel
    obtain ⟨fuel, rfl⟩ : ∃ n, fuel = n + 1 := ⟨fuel - 1, by omega⟩
    obtain ⟨r₁, hr₁, hstep⟩ := @inflateSymbols_token _ _ _ _ _ _ ht t fuel hcoded₁ hreach.1
      ((length_le_expandTokens _ tokens).trans_lt hlimit) hr
    rw [hstep]
    exact ih hcoded hreach.2 hlimit hr₁ (by omega)

/-! ### The tables of a dynamic block -/

/-- The lengths of the alphabet of which `i` have been read. -/
def readAlphabet (alphabet : List ℕ) (i : ℕ) : List ℕ :=
  (List.range 19).map fun s => if s ∈ order.take i then lengthOf alphabet s else 0

theorem readAlphabet_succ (alphabet : List ℕ) {i : ℕ} (hi : i < order.length) :
    (readAlphabet alphabet i).set order[i] (lengthOf alphabet order[i]) =
      readAlphabet alphabet (i + 1) := by
  refine List.ext_getElem (by rw [List.length_set]; rfl) fun s _ _ => ?_
  rw [List.getElem_set]
  simp only [readAlphabet, List.getElem_map, List.getElem_range,
    List.take_succ_eq_append_getElem hi, List.mem_append, List.mem_singleton]
  by_cases hs : order[i] = s
  · rw [if_pos hs, hs, if_pos (Or.inr rfl)]
  · rw [if_neg hs]
    simp only [Ne.symm hs, or_false]

/-- Behind the lengths that are sent the others are zero. -/
theorem readAlphabet_sent (h : Header) : readAlphabet h.alphabet h.sent = h.alphabet := by
  have hall : ∀ s < 19, s ∈ order := by decide
  refine List.ext_getElem ?_ fun s hs hs' => ?_
  · rw [readAlphabet, List.length_map, List.length_range, h.alphabet_length]
  · have hlength : lengthOf h.alphabet s = h.alphabet[s] := List.getD_eq_getElem _ _ hs'
    simp only [readAlphabet, List.getElem_map, List.getElem_range]
    split_ifs with hsent
    · exact hlength
    · have hmem := hall s (h.alphabet_length ▸ hs')
      rw [← List.take_append_drop h.sent order, List.mem_append] at hmem
      rw [← hlength, h.unsent s (hmem.resolve_left hsent)]

theorem readCodeLengths_spec {alphabet : List ℕ} (hcode : IsCode alphabet 7) {i left : ℕ}
    (hle : i + left ≤ 19) (hr : r.Reads (((order.drop i).take left).flatMap
      (fun s => toBits 3 (lengthOf alphabet s)) ++ rest)) :
    ∃ r', readCodeLengths left i (readAlphabet alphabet i) r =
      ok (readAlphabet alphabet (i + left), r') ∧ r'.Reads rest := by
  induction left generalizing i r with
  | zero => exact ⟨r, rfl, hr⟩
  | succ left ih =>
    have hi : i < order.length := by
      change i < 19
      omega
    have hlt : lengthOf alphabet order[i] < 2 ^ 3 := by
      by_cases hzero : lengthOf alphabet order[i] = 0
      · rw [hzero]
        decide
      · have hs := lt_length hzero
        refine Nat.lt_succ_of_le (hcode.le _ ?_)
        rw [lengthOf, List.getD_eq_getElem _ _ hs]
        exact List.getElem_mem hs
    have hstore : order[i] < (readAlphabet alphabet i).length := by
      have hall : ∀ s ∈ order, s < 19 := by decide
      exact hall _ (List.getElem_mem hi)
    rw [List.drop_eq_getElem_cons hi, List.take_succ_cons, List.flatMap_cons,
      List.append_assoc] at hr
    obtain ⟨r₁, hbits, hr₁⟩ := hr.bits (toBits_length _ _)
    obtain ⟨r', hrest, hr'⟩ := ih (i := i + 1) (by omega) hr₁
    refine ⟨r', ?_, hr'⟩
    rw [readCodeLengths, fetch_eq (show i < kOrder.length from hi), ok_bind]
    dsimp only
    rw [hbits, ofBits_toBits_of_lt hlt]
    change (store (readAlphabet alphabet i) order[i] (lengthOf alphabet order[i]) >>= _) = _
    rw [store_eq _ hstore, ok_bind, readAlphabet_succ _ hi, hrest, Nat.add_right_comm,
      Nat.add_assoc]

section Lengths

variable {alphabet done next final : List ℕ} {table : Huffman} {fuel m : ℕ}

/-- A repeat code. -/
theorem readLengths_repeat (htable : Decodes alphabet table 19)
    {s value width base more : ℕ} (hcoded : lengthOf alphabet s ≠ 0) (hs : ¬ s < 16)
    (hs' : s < 19)
    (hstart : ¬ (s = 16 ∧ done.length = 0))
    (hvalue : repeatedLength s done.length (done ++ List.replicate m 0) = ok value)
    (hwidth : (if s = 16 then 2 else if s = 17 then 3 else 7) = width)
    (hbase : (if s ≤ 17 then 3 else 11) = base) (hmore : more < 2 ^ width)
    (hroom : base + more ≤ m)
    (hr : r.Reads (codeBits alphabet s ++ toBits width more ++ rest)) : ∃ r', r'.Reads rest ∧
      readLengths table (fuel + 1) (done ++ List.replicate m 0) done.length r =
        readLengths table fuel ((done ++ List.replicate (base + more) value) ++
          List.replicate (m - (base + more)) 0) (done.length + (base + more)) r' := by
  rw [List.append_assoc] at hr
  obtain ⟨r₁, hdecode, hr₁⟩ := htable s hs' hcoded r _ hr
  obtain ⟨r₂, hbits, hr₂⟩ := hr₁.bits (toBits_length _ _)
  have hlength : (done ++ List.replicate m 0).length = done.length + m := by
    rw [List.length_append, List.length_replicate]
  have hpos : 0 < base := by
    rw [← hbase]
    split_ifs <;> decide
  refine ⟨r₂, hr₂, ?_⟩
  rw [readLengths, if_neg (by omega), hdecode, ok_bind]
  dsimp only
  rw [if_neg hs, if_neg hstart, hvalue, ok_bind, hwidth, hbits, hbase,
    ofBits_toBits_of_lt hmore]
  dsimp only
  rw [hr₂.ok, if_neg (by rw [hlength]; simp; omega),
    repeatLength_eq value (by rw [List.length_replicate]; exact hroom), ok_bind,
    List.drop_replicate]

/-- One code of the run-length coded lengths. -/
theorem readLengths_run (htable : Decodes alphabet table 19) {run : Run}
    (hcoded : lengthOf alphabet run.symbol ≠ 0) (happend : run.append done = some next)
    (hroom : next.length ≤ done.length + m)
    (hr : r.Reads (codeBits alphabet run.symbol ++ run.more ++ rest)) : ∃ r', r'.Reads rest ∧
      readLengths table (fuel + 1) (done ++ List.replicate m 0) done.length r =
        readLengths table fuel (next ++ List.replicate (done.length + m - next.length) 0)
          next.length r' := by
  have hrepeat : ∀ {value n : ℕ}, done ++ List.replicate n value = next →
      n ≤ m ∧ next.length = done.length + n ∧ done.length + m - next.length = m - n := by
    rintro value n rfl
    rw [List.length_append, List.length_replicate] at hroom ⊢
    omega
  cases run with
  | length l =>
    obtain rfl := Option.some.inj happend
    rw [Run.more, List.append_nil] at hr
    have hsymbol : Run.symbol (.length l) < 16 := l.isLt
    obtain ⟨r₁, hdecode, hr₁⟩ := htable _ (by omega) hcoded r _ hr
    rw [List.length_append] at hroom ⊢
    change done.length + 1 ≤ _ at hroom
    obtain ⟨m, rfl⟩ : ∃ n, m = n + 1 := ⟨m - 1, by omega⟩
    have hlt : done.length < (done ++ List.replicate (m + 1) 0).length := by
      rw [List.length_append, List.length_replicate]
      omega
    have hset : (done ++ List.replicate (m + 1) 0).set done.length l.val =
        (done ++ [l.val]) ++ List.replicate m 0 := by
      rw [List.set_append_right _ _ le_rfl, Nat.sub_self, List.append_assoc]
      rfl
    refine ⟨r₁, hr₁, ?_⟩
    rw [readLengths, if_neg (Nat.not_le.2 hlt), hdecode, ok_bind]
    dsimp only
    rw [if_pos hsymbol, store_eq (Run.symbol (.length l)) hlt, ok_bind]
    change readLengths table fuel ((done ++ List.replicate (m + 1) 0).set done.length l.val) _ _ = _
    rw [hset, List.length_singleton, show done.length + (m + 1) - (done.length + 1) = m by omega]
  | again more =>
    obtain ⟨value, hlast, hnext⟩ := Option.map_eq_some_iff.1 happend
    obtain ⟨hle, hlength, hleft⟩ := hrepeat hnext
    have hne : done ≠ [] := by
      rintro rfl
      cases hlast
    have hpos := List.length_pos_iff.2 hne
    have hvalue : repeatedLength 16 done.length (done ++ List.replicate m 0) = ok value := by
      rw [repeatedLength, if_pos rfl]
      refine fetch_of_getElem? ?_
      rw [List.getElem?_append_left (by omega), ← List.getLast?_eq_getElem?]
      exact hlast
    have h := @readLengths_repeat _ _ _ done _ fuel m htable 16 value 2 3 more.val hcoded
      (by decide) (by decide) (by omega) hvalue rfl rfl more.isLt hle hr
    rwa [hnext, ← hlength, ← hleft] at h
  | zeros more =>
    have hnext := Option.some.inj happend
    obtain ⟨hle, hlength, hleft⟩ := hrepeat hnext
    have h := @readLengths_repeat _ _ _ done _ fuel m htable 17 0 3 3 more.val hcoded
      (by decide) (by decide) (by omega) rfl rfl rfl more.isLt hle hr
    rwa [hnext, ← hlength, ← hleft] at h
  | manyZeros more =>
    have hnext := Option.some.inj happend
    obtain ⟨hle, hlength, hleft⟩ := hrepeat hnext
    have h := @readLengths_repeat _ _ _ done _ fuel m htable 18 0 7 11 more.val hcoded
      (by decide) (by decide) (by omega) rfl rfl rfl more.isLt hle hr
    rwa [hnext, ← hlength, ← hleft] at h

theorem run_append_length {run : Run} (h : run.append done = some next) :
    done.length < next.length := by
  cases run with
  | again more =>
    obtain ⟨value, _, rfl⟩ := Option.map_eq_some_iff.1 h
    rw [List.length_append, List.length_replicate]
    omega
  | length | zeros | manyZeros =>
    obtain rfl := Option.some.inj h
    simp only [List.length_append, List.length_replicate, List.length_singleton]
    omega

theorem runs_append_length {runs : List Run} (h : runs.foldlM Run.append done = some final) :
    done.length ≤ final.length := by
  induction runs generalizing done with
  | nil => exact (Option.some.inj h) ▸ le_rfl
  | cons run runs ih =>
    rw [List.foldlM_cons] at h
    obtain ⟨next, hnext, hrest⟩ := Option.bind_eq_some_iff.1 h
    exact (run_append_length hnext).le.trans (ih hrest)

/-- **The run-length coded lengths.** -/
theorem readLengths_runs (htable : Decodes alphabet table 19)
    {runs : List Run} (hcoded : ∀ run ∈ runs, lengthOf alphabet run.symbol ≠ 0)
    (happend : runs.foldlM Run.append done = some final) (hfuel : runs.length < fuel)
    (hr : r.Reads (runs.flatMap (fun run => codeBits alphabet run.symbol ++ run.more) ++ rest)) :
    ∃ r', readLengths table fuel (done ++ List.replicate (final.length - done.length) 0)
      done.length r = ok (final, r') ∧ r'.Reads rest := by
  induction runs generalizing done r fuel with
  | nil =>
    obtain rfl : done = final := Option.some.inj happend
    obtain ⟨fuel, rfl⟩ : ∃ n, fuel = n + 1 := ⟨fuel - 1, by omega⟩
    refine ⟨r, ?_, hr⟩
    rw [Nat.sub_self, List.replicate_zero, List.append_nil, readLengths, if_pos le_rfl]
    rfl
  | cons run runs ih =>
    obtain ⟨hcoded₁, hcoded⟩ := List.forall_mem_cons.1 hcoded
    rw [List.foldlM_cons] at happend
    obtain ⟨next, hnext, hfinal⟩ := Option.bind_eq_some_iff.1 happend
    have hlt := run_append_length hnext
    have hle := runs_append_length hfinal
    rw [List.length_cons] at hfuel
    rw [List.flatMap_cons, List.append_assoc] at hr
    obtain ⟨fuel, rfl⟩ : ∃ n, fuel = n + 1 := ⟨fuel - 1, by omega⟩
    obtain ⟨r₁, hr₁, hstep⟩ := @readLengths_run _ _ _ _ _ _ fuel (final.length - done.length)
      htable run hcoded₁ hnext (by omega) hr
    rw [hstep, Nat.add_sub_cancel' (by omega)]
    exact ih hcoded hfinal (by omega) hr₁

end Lengths

theorem runs_length_le {alphabet : List ℕ} {runs : List Run}
    (hcoded : ∀ run ∈ runs, lengthOf alphabet run.symbol ≠ 0) : runs.length ≤
      (runs.flatMap fun run => codeBits alphabet run.symbol ++ run.more).length := by
  induction runs with
  | nil => exact le_rfl
  | cons run runs ih =>
    obtain ⟨hcoded₁, hcoded⟩ := List.forall_mem_cons.1 hcoded
    have hrest := ih hcoded
    rw [List.flatMap_cons, List.length_append, List.length_append, codeBits_length,
      List.length_cons]
    omega

/-- **The head of a dynamic block.** -/
theorem dynamicTables_header (h : Header) {fuel : ℕ} (hfuel : h.bits.length < fuel)
    (hr : r.Reads (h.bits ++ rest)) : ∃ literals distances r',
      dynamicTables fuel r = ok ((literals, distances), r') ∧
        Tables h.codes literals distances ∧ r'.Reads rest := by
  obtain ⟨hlit, hlit'⟩ := h.literals_length
  obtain ⟨hdist, hdist'⟩ := h.distances_length
  obtain ⟨hsent, hsent'⟩ := h.sent_le
  have hcode : IsCode h.alphabet 15 := ⟨fun l hl => (h.alphabet_code.le l hl).trans (by decide),
    h.alphabet_code.fits.mono h.alphabet_code.le (by decide)⟩
  have hruns := runs_length_le h.runs_coded
  rw [Header.bits] at hr hfuel
  simp only [List.append_assoc] at hr
  simp only [List.length_append] at hfuel
  obtain ⟨r₁, hbits₁, hr₁⟩ := hr.bits (toBits_length _ _)
  obtain ⟨r₂, hbits₂, hr₂⟩ := hr₁.bits (toBits_length _ _)
  obtain ⟨r₃, hbits₃, hr₃⟩ := hr₂.bits (toBits_length _ _)
  obtain ⟨r₄, halphabet, hr₄⟩ := @readCodeLengths_spec _ _ _ h.alphabet_code 0 h.sent (by omega) hr₃
  rw [Nat.zero_add, readAlphabet_sent] at halphabet
  obtain ⟨table, hbuild, htable⟩ := Huffman.build_ok hcode.le hcode.fits
  obtain ⟨r₅, hlengths, hr₅⟩ := @readLengths_runs _ _ _ [] _ table fuel (htable.decodes hcode 19) _
    h.runs_coded h.runs_append (by omega) hr₄
  obtain ⟨literals, hbuildl, hliterals⟩ :=
    Huffman.build_ok h.literals_code.le h.literals_code.fits
  obtain ⟨distances, hbuildd, hdistances⟩ :=
    Huffman.build_ok h.distances_code.le h.distances_code.fits
  refine ⟨literals, distances, r₅, ?_,
    ⟨hliterals.decodes h.literals_code _, hdistances.decodes h.distances_code _⟩, hr₅⟩
  rw [List.nil_append, List.length_nil, Nat.sub_zero, List.length_append] at hlengths
  rw [dynamicTables, hbits₁]
  dsimp only
  rw [hbits₂]
  dsimp only
  rw [hbits₃]
  dsimp only
  rw [ofBits_toBits_of_lt (by omega), ofBits_toBits_of_lt (by omega),
    ofBits_toBits_of_lt (by omega), Nat.sub_add_cancel hlit, Nat.sub_add_cancel hdist,
    Nat.sub_add_cancel hsent, hr₃.ok, if_neg (by simp; omega)]
  change (readCodeLengths h.sent 0 (readAlphabet h.alphabet 0) r₃ >>= _) = _
  rw [halphabet, ok_bind]
  dsimp only
  rw [hr₄.ok, if_neg Bool.false_ne_true, hbuild, ok_bind, hlengths, ok_bind]
  dsimp only
  rw [List.take_left, List.drop_left, List.take_length, hbuildl, ok_bind, hbuildd]
  rfl

/-- **The tables of a fixed block.** -/
theorem fixedTables_spec : ∃ literals distances, fixedTables = ok (literals, distances) ∧
    Tables fixedCodes literals distances := by
  have hcode : IsCode fixedDistances 15 := ⟨by decide +kernel, by decide +kernel⟩
  obtain ⟨literals, hbuildl, hliterals⟩ :=
    Huffman.build_ok fixed_literals_code.le fixed_literals_code.fits
  obtain ⟨distances, hbuildd, hdistances⟩ := Huffman.build_ok hcode.le hcode.fits
  refine ⟨literals, distances, ?_, hliterals.decodes fixed_literals_code _,
    fun s hs _ r rest hr => ?_⟩
  · rw [fixedTables]
    change (Huffman.build fixedCodes.literals >>= _) = _
    rw [hbuildl, ok_bind, hbuildd]
    rfl
  · -- the two distance codes that are never sent do not change the others
    have hsame : ∀ s < 30, codeBits fixedDistances s = codeBits fixedCodes.distances s ∧
        lengthOf fixedDistances s ≠ 0 := by decide +kernel
    rw [← (hsame s hs).1] at hr
    exact hdistances.decodes hcode 30 s hs (hsame s hs).2 r rest hr

/-! ### Blocks -/

/-- Stored bytes behind the bits up to the boundary. -/
theorem inflateStored_bytes {bytes : List Byte} {padding : List Bool}
    (hbytes : bytes.length < 2 ^ 16) (hpadding : padding.length < 8) (hrest : rest.length % 8 = 0)
    (hlimit : (out ++ bytes).length < kMaxInflateOutput)
    (hr : r.Reads (padding ++ (wordBits (BitVec.ofNat 16 bytes.length) ++
      (wordBits (~~~BitVec.ofNat 16 bytes.length) ++ (bytes.flatMap wordBits ++ rest))))) :
    ∃ r', inflateStored out r = ok (out ++ bytes, r') ∧ r'.Reads rest := by
  obtain ⟨hr₁, ha₁⟩ := hr.alignToByte hpadding (by
    simp only [List.length_append, wordBits_length]
    rw [show (bytes.flatMap wordBits).length = 8 * bytes.length from BitReader.bitsOf_length bytes]
    omega)
  obtain ⟨r₂, hlength, hr₂, ha₂⟩ := hr₁.readU16Le ha₁
  obtain ⟨r₃, hinverse, hr₃, ha₃⟩ := hr₂.readU16Le ha₂
  obtain ⟨r₄, hcopy, hr₄⟩ := @BitReader.Reads.copyBytes _ _ out _ hr₃ ha₃
  have htoNat : (BitVec.ofNat 16 bytes.length).toNat = bytes.length :=
    (BitVec.toNat_ofNat _ _).trans (Nat.mod_eq_of_lt hbytes)
  rw [List.length_append] at hlimit
  refine ⟨r₄, ?_, hr₄⟩
  rw [inflateStored, hlength, ok_bind]
  dsimp only
  rw [hinverse, ok_bind]
  dsimp only
  rw [hr₃.ok, if_neg Bool.false_ne_true, if_neg (not_not.2 rfl), htoNat, if_neg (by omega), hcopy]
  rfl

/-- **A block.** -/
theorem inflateBlock_bits {b : Block} {position fuel : ℕ} (hvalid : b.Valid out)
    (hlimit : (b.expand out).length < kMaxInflateOutput)
    (hposition : (position + (b.bits position).length + rest.length) % 8 = 0)
    (hfuel : (b.bits position).length ≤ fuel) (hr : r.Reads (b.bits position ++ rest)) :
    ∃ type r₁ r', r.bits 2 = (type, r₁) ∧ type ≠ 3 ∧ r₁.overrun = false ∧
      inflateBlock fuel type out r₁ = ok (b.expand out, r') ∧ r'.Reads rest := by
  cases b with
  | stored bytes padding =>
    rw [Block.bits] at hr hposition
    simp only [List.append_assoc] at hr
    simp only [List.length_append, List.length_map, List.length_range, wordBits_length,
      toBits_length] at hposition
    rw [show (bytes.flatMap wordBits).length = 8 * bytes.length from BitReader.bitsOf_length bytes]
      at hposition
    obtain ⟨r₁, hbits, hr₁⟩ := hr.bits (toBits_length _ _)
    obtain ⟨r', hstored, hr'⟩ := @inflateStored_bytes _ _ _ _ _ hvalid
      (by rw [List.length_map, List.length_range]; omega) (by omega) hlimit hr₁
    refine ⟨0, r₁, r', hbits, by decide, hr₁.ok, ?_, hr'⟩
    rw [inflateBlock, if_pos rfl, hstored]
    rfl
  | fixed tokens =>
    rw [Block.bits, List.append_assoc] at hr
    rw [Block.bits, List.length_append] at hfuel
    have hbodyfuel : (bodyBits fixedCodes tokens).length ≤ fuel := by omega
    obtain ⟨r₁, hbits, hr₁⟩ := hr.bits (toBits_length _ _)
    obtain ⟨literals, distances, hfixed, ht⟩ := fixedTables_spec
    obtain ⟨r', hbody, hr'⟩ := inflateSymbols_body ht (fun t _ => t.coded_fixed)
      (fixed_lengthOf (by decide)) hvalid hlimit hr₁ hbodyfuel
    refine ⟨1, r₁, r', hbits, by decide, hr₁.ok, ?_, hr'⟩
    rw [inflateBlock, if_neg (by decide), blockTables, if_pos rfl, hfixed, ok_bind]
    exact hbody
  | dynamic header tokens =>
    obtain ⟨hreach, hcoded, hend⟩ := hvalid
    rw [Block.bits, List.append_assoc, List.append_assoc] at hr
    rw [Block.bits, List.length_append, List.length_append, toBits_length] at hfuel
    have hbodyfuel : (bodyBits header.codes tokens).length ≤ fuel := by omega
    obtain ⟨r₁, hbits, hr₁⟩ := hr.bits (toBits_length _ _)
    obtain ⟨literals, distances, r₂, htables, ht, hr₂⟩ :=
      @dynamicTables_header _ _ header fuel (by omega) hr₁
    obtain ⟨r', hbody, hr'⟩ := inflateSymbols_body ht hcoded hend hreach hlimit hr₂ hbodyfuel
    refine ⟨2, r₁, r', hbits, by decide, hr₁.ok, ?_, hr'⟩
    rw [inflateBlock, if_neg (by decide), blockTables, if_neg (by decide), htables, ok_bind]
    exact hbody

theorem length_le_stream (position : ℕ) (blocks : List Block) :
    blocks.length ≤ (stream position blocks).length := by
  induction blocks generalizing position with
  | nil => exact le_rfl
  | cons b blocks ih =>
    rw [stream, List.length_append, List.length_cons, List.length_cons]
    have := ih (position + (blocks.isEmpty :: b.bits (position + 1)).length)
    rw [List.length_cons] at this
    omega

/-- **All blocks.** -/
theorem inflateBlocks_stream {blocks : List Block} {position fuel n : ℕ} (hne : blocks ≠ [])
    (hvalid : Deflate.Valid out blocks) (hlimit : (expand out blocks).length < kMaxInflateOutput)
    (hposition : (position + (stream position blocks).length + rest.length) % 8 = 0)
    (hfuel : (stream position blocks).length ≤ fuel) (hn : blocks.length ≤ n)
    (hr : r.Reads (stream position blocks ++ rest)) :
    inflateBlocks fuel n out r = ok (expand out blocks) := by
  induction blocks generalizing out r position n with
  | nil => exact absurd rfl hne
  | cons b blocks ih =>
    obtain ⟨hb, hvalid⟩ := hvalid
    obtain ⟨n, rfl⟩ : ∃ k, n = k + 1 := ⟨n - 1, by rw [List.length_cons] at hn; omega⟩
    rw [stream, List.length_append, List.length_cons] at hposition hfuel
    rw [stream, List.length_cons, List.append_assoc, List.cons_append] at hr
    obtain ⟨r₁, hfinal, hr₁⟩ := @BitReader.Reads.bits r 1 [blocks.isEmpty] _ hr rfl
    have hbits : (b.bits (position + 1)).length ≤ fuel := by omega
    obtain ⟨type, r₂, r', htype, hthree, hok, hblock, hr'⟩ := inflateBlock_bits hb
      ((length_le_expand _ blocks).trans_lt hlimit) (by rw [List.length_append]; omega) hbits hr₁
    rw [inflateBlocks, hfinal]
    dsimp only
    rw [htype]
    dsimp only
    rw [hok, if_neg Bool.false_ne_true, if_neg hthree, hblock, ok_bind]
    dsimp only
    cases blocks with
    | nil => exact if_pos (by decide)
    | cons b' blocks =>
      have hmore : ¬ ofBits [(b' :: blocks).isEmpty] ≠ 0 := not_not.2 rfl
      rw [if_neg hmore]
      exact ih (List.cons_ne_nil _ _) hvalid hlimit (by omega) (by omega)
        (Nat.le_of_succ_le_succ hn) hr'

/-- **Inflating is correct.**  Whatever valid blocks a stream holds and whatever follows them,
the result is their expansion. -/
theorem inflateRaw_stream {data : List Byte} {blocks : List Block} (expectedSize : ℕ)
    (hne : blocks ≠ []) (hvalid : Deflate.Valid [] blocks)
    (hlimit : (expand [] blocks).length < kMaxInflateOutput)
    (hdata : bitsOf data = stream 0 blocks ++ rest) :
    inflateRaw data expectedSize = ok (expand [] blocks) := by
  have hlength := congrArg List.length hdata
  rw [BitReader.bitsOf_length, List.length_append] at hlength
  have hblocks := length_le_stream 0 blocks
  have hreads : { data : BitReader }.Reads (stream 0 blocks ++ rest) :=
    ⟨⟨Nat.zero_lt_succ 7, Nat.zero_le _⟩, hdata ▸ rfl, rfl⟩
  exact inflateBlocks_stream hne hvalid hlimit (by omega) (by omega) (by omega) hreads

/-- A head with two symbols, the byte 97 and the end; its last run crosses the boundary. -/
def crossingHeader : Header where
  codes := ⟨List.replicate 97 0 ++ [1] ++ List.replicate 158 0 ++ [1, 0], [0, 0]⟩
  alphabet := [0, 2] ++ List.replicate 15 0 ++ [2, 1]
  sent := 18
  runs := [.manyZeros 86, .length 1, .manyZeros 127, .manyZeros 9, .length 1, .zeros 0]
  literals_length := by decide +kernel
  distances_length := by decide
  literals_code := ⟨by decide +kernel, by decide +kernel⟩
  distances_code := ⟨by decide +kernel, by decide +kernel⟩
  alphabet_length := rfl
  alphabet_code := ⟨by decide +kernel, by decide +kernel⟩
  sent_le := by decide
  unsent := by decide +kernel
  runs_coded := by
    simp only [List.forall_mem_cons]
    decide +kernel
  runs_append := by decide +kernel

/-- A stored, a fixed and a dynamic block, an overlapping copy, and a byte behind them. -/
theorem inflateRaw_stream_three_blocks :
    inflateRaw [0, 1, 0, 254, 255, 7, 74, 4, 1, 64, 67, 112, 40, 0, 0, 0, 0, 0, 136, 53, 127, 137,
      134, 171] 7 = ok [7, 97, 97, 97, 97, 97, 97] :=
  (@inflateRaw_stream (wordBits (171 : Byte)) _
    [.stored [7] fun _ => false,
      .fixed [.literal 97, .copy ⟨1, 0, by decide, by decide⟩ ⟨0, 0, by decide, by decide⟩],
      .dynamic crossingHeader [.literal 97]] 7 (List.cons_ne_nil _ _) (by decide +kernel)
    (by decide +kernel) (by decide +kernel)).trans (by decide +kernel)

end Transport
end Canforge
