/-
# Bytes, words and the operations C++ leaves undefined

`std::uint8_t` is `BitVec 8` and a `std::uint8_t*` with its buffer is a
`List Byte`.  An operation that C++ leaves undefined has no result here: a read
or a write outside the buffer (`readByte`, `writeByte`) and a shift by the width
of the shifted type or more (`shl`, `shr`) are `none`.  A function that returns
`some` therefore stays inside the buffer it was given.

`bitOf` is the buffer as a memory of bits: the cell `(i, k)` is bit `k` of byte
`i`, least significant first.
-/

import Mathlib

namespace Canforge
namespace Core

/-- `std::uint8_t`. -/
abbrev Byte := BitVec 8

/-- `data[i]`. -/
def readByte (data : List Byte) (i : ℕ) : Option Byte := data[i]?

/-- `data[i] = v`. -/
def writeByte (data : List Byte) (i : ℕ) (v : Byte) : Option (List Byte) :=
  if i < data.length then some (data.set i v) else none

/-- `v << n` on an unsigned type of `w` bits. -/
def shl {w : ℕ} (v : BitVec w) (n : ℕ) : Option (BitVec w) :=
  if n < w then some (v <<< n) else none

/-- `v >> n` on an unsigned type of `w` bits. -/
def shr {w : ℕ} (v : BitVec w) (n : ℕ) : Option (BitVec w) :=
  if n < w then some (v >>> n) else none

theorem shl_eq {w n : ℕ} (v : BitVec w) (h : n < w) : shl v n = some (v <<< n) := if_pos h

theorem shr_eq {w n : ℕ} (v : BitVec w) (h : n < w) : shr v n = some (v >>> n) := if_pos h

/-- Bit `a.2` of byte `a.1`; a cell outside the buffer reads as zero. -/
def bitOf (data : List Byte) (a : ℕ × ℕ) : Bool := (data.getD a.1 0).getLsbD a.2

theorem readByte_eq {data : List Byte} {i : ℕ} (h : i < data.length) :
    readByte data i = some (data.getD i 0) := by
  rw [readByte, List.getElem?_eq_getElem h, List.getD_eq_getElem data 0 h]

theorem writeByte_eq {data : List Byte} {i : ℕ} (v : Byte) (h : i < data.length) :
    writeByte data i v = some (data.set i v) := if_pos h

theorem bitOf_of_ge {data : List Byte} {a : ℕ × ℕ} (h : 8 ≤ a.2) : bitOf data a = false :=
  BitVec.getLsbD_of_ge _ _ h

theorem bitOf_set {data : List Byte} {i : ℕ} (v : Byte) (h : i < data.length) (a : ℕ × ℕ) :
    bitOf (data.set i v) a = if a.1 = i then v.getLsbD a.2 else bitOf data a := by
  unfold bitOf
  split_ifs with ha
  · rw [ha, List.getD_eq_getElem _ _ (by simpa using h), List.getElem_set_self]
  · rw [List.getD_eq_getElem?_getD, List.getD_eq_getElem?_getD,
      List.getElem?_set_ne (Ne.symm ha)]

theorem bitOf_append (d d' : List Byte) (a : ℕ × ℕ) :
    bitOf (d ++ d') a =
      if a.1 < d.length then bitOf d a else bitOf d' (a.1 - d.length, a.2) := by
  unfold bitOf
  split_ifs with h
  · rw [List.getD_append _ _ _ _ h]
  · rw [List.getD_append_right _ _ _ _ (by omega)]

theorem bitOf_append_left {d : List Byte} (d' : List Byte) {a : ℕ × ℕ} (h : a.1 < d.length) :
    bitOf (d ++ d') a = bitOf d a := by
  rw [bitOf_append, if_pos h]

/-- A buffer is its length and its bits. -/
theorem ext_bitOf {d d' : List Byte} (hl : d.length = d'.length) (h : bitOf d = bitOf d') :
    d = d' := by
  refine List.ext_getElem hl fun i hi hi' => BitVec.eq_of_getLsbD_eq fun k _ => ?_
  have := congrFun h (i, k)
  rwa [bitOf, bitOf, List.getD_eq_getElem _ _ hi, List.getD_eq_getElem _ _ hi'] at this

end Core
end Canforge
