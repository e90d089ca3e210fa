/-
# The DEFLATE format

RFC 1951: a stream is a sequence of blocks, stored or compressed, and a compressed block is
a sequence of literals and back references (`Token`) in a fixed or a transmitted pair of
canonical prefix codes.  `stream` are the bits of a sequence of blocks, `expand` are the
bytes they stand for, and `Valid` says that every symbol has a code and that no back
reference reaches beyond the output.

A length or a distance is one of a few consecutive ranges and a number of further bits
(`Place`); every length from 3 to 258 and every distance from 1 to 32768 has its place
(`exists_length`, `exists_distance`).
-/

import Canforge.Lib.Canonical

namespace Canforge
namespace Lib
namespace Deflate

open Canonical

/-! ### Lengths and distances -/

/-- The extra bits of a length code. -/
def lengthExtra (i : ℕ) : ℕ := if i = 28 then 0 else i / 4 - 1

/-- The extra bits of a distance code. -/
def distanceExtra (j : ℕ) : ℕ := j / 2 - 1

/-- The numbers in the ranges before the `i`-th. -/
def covered (extra : ℕ → ℕ) (i : ℕ) : ℕ := ((List.range i).map fun k => 2 ^ extra k).sum

/-- The first length of a length code; the last code stands for 258 alone. -/
def lengthBase (i : ℕ) : ℕ := if i = 28 then 258 else 3 + covered lengthExtra i

/-- The first distance of a distance code. -/
def distanceBase (j : ℕ) : ℕ := 1 + covered distanceExtra j

/-- A number as the index of its range and its place in there. -/
structure Place (count : ℕ) (base extra : ℕ → ℕ) where
  index : ℕ
  more : ℕ
  index_lt : index < count
  more_lt : more < 2 ^ extra index

/-- The number. -/
def Place.value {count : ℕ} {base extra : ℕ → ℕ} (p : Place count base extra) : ℕ :=
  base p.index + p.more

/-- A length of a back reference. -/
abbrev Length := Place 29 lengthBase lengthExtra

/-- A distance of a back reference. -/
abbrev Distance := Place 30 distanceBase distanceExtra

theorem exists_range {extra : ℕ → ℕ} {count n : ℕ} (h : n < covered extra count) :
    ∃ i < count, ∃ more < 2 ^ extra i, covered extra i + more = n := by
  induction count with
  | zero => exact absurd h (Nat.not_lt_zero n)
  | succ count ih =>
    rcases Nat.lt_or_ge n (covered extra count) with hlt | hge
    · obtain ⟨i, hi, hmore⟩ := ih hlt
      exact ⟨i, hi.trans (Nat.lt_succ_self count), hmore⟩
    · have hsucc : covered extra (count + 1) = covered extra count + 2 ^ extra count := by
        rw [covered, List.range_succ, List.map_append, List.sum_append]
        rfl
      exact ⟨count, Nat.lt_succ_self count, n - covered extra count, by omega, by omega⟩

/-- **Every length has its place.** -/
theorem exists_length {n : ℕ} (h₃ : 3 ≤ n) (hn : n ≤ 258) : ∃ l : Length, l.value = n := by
  rcases hn.lt_or_eq with hlt | rfl
  · have hcovered : covered lengthExtra 28 = 256 := by decide
    obtain ⟨i, hi, more, hmore, hsum⟩ := @exists_range lengthExtra 28 (n - 3) (by omega)
    refine ⟨⟨i, more, by omega, hmore⟩, ?_⟩
    have hvalue : lengthBase i = 3 + covered lengthExtra i := if_neg (by omega)
    change lengthBase i + more = n
    omega
  · exact ⟨⟨28, 0, by decide, by decide⟩, rfl⟩

/-- **Every distance has its place.** -/
theorem exists_distance {n : ℕ} (h₁ : 1 ≤ n) (hn : n ≤ 32768) : ∃ d : Distance, d.value = n := by
  have hcovered : covered distanceExtra 30 = 32768 := by decide
  obtain ⟨i, hi, more, hmore, hsum⟩ := @exists_range distanceExtra 30 (n - 1) (by omega)
  refine ⟨⟨i, more, hi, hmore⟩, ?_⟩
  change 1 + covered distanceExtra i + more = n
  omega

theorem distance_pos (d : Distance) : 0 < d.value := by
  rw [Place.value, distanceBase]
  omega

/-! ### Tokens -/

/-- A literal or a back reference. -/
inductive Token
  | literal (byte : BitVec 8)
  | copy (length : Length) (distance : Distance)

/-- The code lengths of a block: of literals, the end of the block and lengths, and of
distances. -/
structure Codes where
  literals : List ℕ
  distances : List ℕ

/-- The bits of a token. -/
def Token.bits (c : Codes) : Token → List Bool
  | literal byte => codeBits c.literals byte.toNat
  | copy l d => codeBits c.literals (257 + l.index) ++ (toBits (lengthExtra l.index) l.more ++
      (codeBits c.distances d.index ++ toBits (distanceExtra d.index) d.more))

/-- The symbols of the token have a code. -/
def Token.Coded (c : Codes) : Token → Prop
  | literal byte => lengthOf c.literals byte.toNat ≠ 0
  | copy l d => lengthOf c.literals (257 + l.index) ≠ 0 ∧ lengthOf c.distances d.index ≠ 0

/-- The output behind a token.  A back reference that is longer than its distance repeats
what lies between. -/
def Token.expand (out : List (BitVec 8)) : Token → List (BitVec 8)
  | literal byte => out ++ [byte]
  | copy l d => out ++ (List.range l.value).map fun i =>
      out.getD (out.length - d.value + i % d.value) 0

/-- The back reference stays inside the output. -/
def Token.Reaches (out : List (BitVec 8)) : Token → Prop
  | literal _ => True
  | copy _ d => d.value ≤ out.length

/-- The output behind some tokens. -/
def expandTokens (out : List (BitVec 8)) (tokens : List Token) : List (BitVec 8) :=
  tokens.foldl Token.expand out

/-- All back references stay inside the output. -/
def TokensReach : List (BitVec 8) → List Token → Prop
  | _, [] => True
  | out, t :: tokens => t.Reaches out ∧ TokensReach (t.expand out) tokens

instance (c : Codes) : ∀ t : Token, Decidable (t.Coded c)
  | .literal byte => inferInstanceAs (Decidable (lengthOf c.literals byte.toNat ≠ 0))
  | .copy l d => inferInstanceAs (Decidable
      (lengthOf c.literals (257 + l.index) ≠ 0 ∧ lengthOf c.distances d.index ≠ 0))

instance (out : List (BitVec 8)) : ∀ t : Token, Decidable (t.Reaches out)
  | .literal _ => .isTrue trivial
  | .copy _ d => inferInstanceAs (Decidable (d.value ≤ out.length))

instance decidableTokensReach : ∀ out tokens, Decidable (TokensReach out tokens)
  | _, [] => .isTrue trivial
  | out, t :: tokens =>
    have := decidableTokensReach (t.expand out) tokens
    inferInstanceAs (Decidable (t.Reaches out ∧ TokensReach (t.expand out) tokens))

theorem Token.length_le_expand (out : List (BitVec 8)) (t : Token) :
    out.length ≤ (t.expand out).length := by
  cases t with
  | literal byte =>
    rw [expand, List.length_append]
    exact Nat.le_add_right _ _
  | copy l d =>
    rw [expand, List.length_append]
    exact Nat.le_add_right _ _

theorem length_le_expandTokens (out : List (BitVec 8)) (tokens : List Token) :
    out.length ≤ (expandTokens out tokens).length := by
  induction tokens generalizing out with
  | nil => exact le_rfl
  | cons t tokens ih => exact (t.length_le_expand out).trans (ih _)

/-! ### The codes of a block -/

/-- The codes of a fixed block. -/
def fixedCodes : Codes where
  literals := List.replicate 144 8 ++ List.replicate 112 9 ++ List.replicate 24 7 ++
    List.replicate 8 8
  distances := List.replicate 32 5

/-- The order in which the lengths of the code length alphabet are sent. -/
def order : List ℕ := [16, 17, 18, 0, 8, 7, 9, 6, 10, 5, 11, 4, 12, 3, 13, 2, 14, 1, 15]

/-- A symbol of the code length alphabet: a length, the length before again, or zeros. -/
inductive Run
  | length (l : Fin 16)
  | again (more : Fin 4)
  | zeros (more : Fin 8)
  | manyZeros (more : Fin 128)

namespace Run

/-- The symbol. -/
def symbol : Run → ℕ
  | length l => l
  | again _ => 16
  | zeros _ => 17
  | manyZeros _ => 18

/-- The bits behind its code. -/
def more : Run → List Bool
  | length _ => []
  | again more => toBits 2 more
  | zeros more => toBits 3 more
  | manyZeros more => toBits 7 more

/-- The lengths behind it; there is nothing to repeat at the start. -/
def append (done : List ℕ) : Run → Option (List ℕ)
  | length l => some (done ++ [l.val])
  | again more => done.getLast?.map fun l => done ++ List.replicate (3 + more) l
  | zeros more => some (done ++ List.replicate (3 + more) 0)
  | manyZeros more => some (done ++ List.replicate (11 + more) 0)

end Run

/-- The head of a dynamic block: the two codes and how they are sent.  The runs may cross
the boundary between the two lists of lengths. -/
structure Header where
  codes : Codes
  alphabet : List ℕ
  sent : ℕ
  runs : List Run
  literals_length : 257 ≤ codes.literals.length ∧ codes.literals.length ≤ 286
  distances_length : 1 ≤ codes.distances.length ∧ codes.distances.length ≤ 30
  literals_code : IsCode codes.literals 15
  distances_code : IsCode codes.distances 15
  alphabet_length : alphabet.length = 19
  alphabet_code : IsCode alphabet 7
  sent_le : 4 ≤ sent ∧ sent ≤ 19
  unsent : ∀ s ∈ order.drop sent, lengthOf alphabet s = 0
  runs_coded : ∀ run ∈ runs, lengthOf alphabet run.symbol ≠ 0
  runs_append : runs.foldlM Run.append [] = some (codes.literals ++ codes.distances)

/-- The bits of the head. -/
def Header.bits (h : Header) : List Bool :=
  toBits 5 (h.codes.literals.length - 257) ++ (toBits 5 (h.codes.distances.length - 1) ++
    (toBits 4 (h.sent - 4) ++
      ((order.take h.sent).flatMap (fun s => toBits 3 (lengthOf h.alphabet s)) ++
        h.runs.flatMap fun run => codeBits h.alphabet run.symbol ++ run.more)))

/-! ### Blocks -/

/-- A block.  The bits up to the byte boundary before stored bytes do not matter. -/
inductive Block
  | stored (bytes : List (BitVec 8)) (padding : ℕ → Bool)
  | fixed (tokens : List Token)
  | dynamic (header : Header) (tokens : List Token)

/-- The tokens and the end of a block. -/
def bodyBits (c : Codes) (tokens : List Token) : List Bool :=
  tokens.flatMap (Token.bits c) ++ codeBits c.literals 256

namespace Block

/-- The bits of a block behind its final flag, which the bit at `position` follows. -/
def bits (position : ℕ) : Block → List Bool
  | stored bytes padding =>
    let length := BitVec.ofNat 16 bytes.length
    toBits 2 0 ++ ((List.range ((8 - (position + 2) % 8) % 8)).map padding ++
      (wordBits length ++ (wordBits (~~~length) ++ bytes.flatMap wordBits)))
  | fixed tokens => toBits 2 1 ++ bodyBits fixedCodes tokens
  | dynamic header tokens => toBits 2 2 ++ (header.bits ++ bodyBits header.codes tokens)

/-- The output behind a block. -/
def expand (out : List (BitVec 8)) : Block → List (BitVec 8)
  | stored bytes _ => out ++ bytes
  | fixed tokens => expandTokens out tokens
  | dynamic _ tokens => expandTokens out tokens

/-- The block can be sent behind an output. -/
def Valid (out : List (BitVec 8)) : Block → Prop
  | stored bytes _ => bytes.length < 2 ^ 16
  | fixed tokens => TokensReach out tokens
  | dynamic header tokens => TokensReach out tokens ∧ (∀ t ∈ tokens, t.Coded header.codes) ∧
      lengthOf header.codes.literals 256 ≠ 0

theorem length_le_expand (out : List (BitVec 8)) (b : Block) :
    out.length ≤ (b.expand out).length := by
  cases b with
  | stored bytes padding =>
    rw [expand, List.length_append]
    exact Nat.le_add_right _ _
  | fixed tokens => exact length_le_expandTokens out tokens
  | dynamic header tokens => exact length_le_expandTokens out tokens

end Block

/-- The bits of blocks from `position` on; the last one has the final flag. -/
def stream (position : ℕ) : List Block → List Bool
  | [] => []
  | b :: blocks =>
    let bits := blocks.isEmpty :: b.bits (position + 1)
    bits ++ stream (position + bits.length) blocks

/-- The output behind some blocks. -/
def expand (out : List (BitVec 8)) (blocks : List Block) : List (BitVec 8) :=
  blocks.foldl Block.expand out

/-- The blocks can be sent behind an output. -/
def Valid : List (BitVec 8) → List Block → Prop
  | _, [] => True
  | out, b :: blocks => b.Valid out ∧ Valid (b.expand out) blocks

instance (out : List (BitVec 8)) : ∀ b : Block, Decidable (b.Valid out)
  | .stored bytes _ => inferInstanceAs (Decidable (bytes.length < 2 ^ 16))
  | .fixed tokens => inferInstanceAs (Decidable (TokensReach out tokens))
  | .dynamic header tokens => inferInstanceAs (Decidable (TokensReach out tokens ∧
      (∀ t ∈ tokens, t.Coded header.codes) ∧ lengthOf header.codes.literals 256 ≠ 0))

instance decidableValid : ∀ out blocks, Decidable (Valid out blocks)
  | _, [] => .isTrue trivial
  | out, b :: blocks =>
    have := decidableValid (b.expand out) blocks
    inferInstanceAs (Decidable (b.Valid out ∧ Valid (b.expand out) blocks))

theorem length_le_expand (out : List (BitVec 8)) (blocks : List Block) :
    out.length ≤ (expand out blocks).length := by
  induction blocks generalizing out with
  | nil => exact le_rfl
  | cons b blocks ih => exact (b.length_le_expand out).trans (ih _)

/-! ### The fixed codes -/

theorem fixed_literals_code : IsCode fixedCodes.literals 15 :=
  ⟨by decide +kernel, by decide +kernel⟩

theorem fixed_lengthOf {s : ℕ} (h : s < 288) : lengthOf fixedCodes.literals s ≠ 0 := by
  have hall : ∀ l ∈ fixedCodes.literals, l ≠ 0 := by decide +kernel
  have hlength : fixedCodes.literals.length = 288 := by decide +kernel
  rw [lengthOf, List.getD_eq_getElem _ _ (hlength ▸ h)]
  exact hall _ (List.getElem_mem _)

theorem fixed_distanceOf {j : ℕ} (h : j < 32) : lengthOf fixedCodes.distances j ≠ 0 := by
  have hget : lengthOf fixedCodes.distances j = 5 := List.getD_replicate _ h
  rw [hget]
  decide

/-- **The fixed codes have a code for every token.** -/
theorem Token.coded_fixed (t : Token) : t.Coded fixedCodes := by
  cases t with
  | literal byte => exact fixed_lengthOf (byte.isLt.trans (by decide))
  | copy l d =>
    have hl := l.index_lt
    have hd := d.index_lt
    exact ⟨fixed_lengthOf (by omega), fixed_distanceOf (by omega)⟩

end Deflate
end Lib
end Canforge
