/-
# UTF-8

The encoding of the Unicode scalar values, those below 0x110000 that are no surrogates, and the
texts that encode some of them (`WellFormed`).  A lead octet and the tails it asks for make a
`Sequence`; which of them are characters is decided by their first two octets (`isChar_iff`), and a
text is divided into sequences in one way only (`flatten_inj`).
-/

import Mathlib

namespace Canforge
namespace Lib
namespace Utf8

/-- The octets of a scalar value. -/
def encode (v : ℕ) : List ℕ :=
  if v < 0x80 then [v]
  else if v < 0x800 then [0xC0 + v / 64, 0x80 + v % 64]
  else if v < 0x10000 then [0xE0 + v / 4096, 0x80 + v / 64 % 64, 0x80 + v % 64]
  else [0xF0 + v / 262144, 0x80 + v / 4096 % 64, 0x80 + v / 64 % 64, 0x80 + v % 64]

/-- The octets of some scalar values. -/
def WellFormed (octets : List ℕ) : Prop :=
  ∃ vs : List ℕ, (∀ v ∈ vs, v.isValidChar) ∧ vs.flatMap encode = octets

/-- The octets of one scalar value. -/
def IsChar (w : List ℕ) : Prop := ∃ v : ℕ, v.isValidChar ∧ encode v = w

/-- An octet behind the first one of a character. -/
def Tail (b : ℕ) : Prop := 0x80 ≤ b ∧ b ≤ 0xBF

/-- A lead octet and as many tails as it asks for. -/
inductive Sequence : List ℕ → Prop
  | one {a : ℕ} : a ≤ 0x7F → Sequence [a]
  | two {a b : ℕ} : 0xC0 ≤ a → a ≤ 0xDF → Tail b → Sequence [a, b]
  | three {a b c : ℕ} : 0xE0 ≤ a → a ≤ 0xEF → Tail b → Tail c → Sequence [a, b, c]
  | four {a b c d : ℕ} : 0xF0 ≤ a → a ≤ 0xF7 → Tail b → Tail c → Tail d → Sequence [a, b, c, d]

/-- The first two octets of overlong forms, of surrogates, and of what is above 0x10FFFF. -/
def Excluded : List ℕ → Prop
  | a :: b :: _ => a < 0xC2 ∨ (a = 0xE0 ∧ b < 0xA0) ∨ (a = 0xED ∧ 0xA0 ≤ b) ∨
      (a = 0xF0 ∧ b < 0x90) ∨ (a = 0xF4 ∧ 0x90 ≤ b) ∨ 0xF4 < a
  | _ => False

variable {w w' r r' : List ℕ}

theorem IsChar.sequence (h : IsChar w) : Sequence w ∧ ¬Excluded w := by
  obtain ⟨v, hv, rfl⟩ := h
  unfold Nat.isValidChar at hv
  unfold encode
  split_ifs
  · exact ⟨.one (by omega), id⟩
  · refine ⟨.two (by omega) (by omega) ⟨by omega, by omega⟩, ?_⟩
    simp only [Excluded]
    omega
  · refine ⟨.three (by omega) (by omega) ⟨by omega, by omega⟩ ⟨by omega, by omega⟩, ?_⟩
    simp only [Excluded]
    omega
  · refine ⟨.four (by omega) (by omega) ⟨by omega, by omega⟩ ⟨by omega, by omega⟩
      ⟨by omega, by omega⟩, ?_⟩
    simp only [Excluded]
    omega

/-- The value of a sequence that is not excluded. -/
theorem Sequence.isChar (h : Sequence w) (hw : ¬Excluded w) : IsChar w := by
  cases h with
  | @one a ha =>
    refine ⟨a, .inl (by omega), ?_⟩
    rw [encode, if_pos (by omega)]
  | @two a b ha ha' hb =>
    simp only [Excluded] at hw
    obtain ⟨hb, hb'⟩ := hb
    obtain ⟨v, hv⟩ : ∃ v, v = (a - 0xC0) * 64 + (b - 0x80) := ⟨_, rfl⟩
    have ha₀ : 0xC0 + v / 64 = a := by omega
    have hb₀ : 0x80 + v % 64 = b := by omega
    refine ⟨v, .inl (by omega), ?_⟩
    rw [encode, if_neg (by omega), if_pos (by omega), ha₀, hb₀]
  | @three a b c ha ha' hb hc =>
    simp only [Excluded] at hw
    obtain ⟨hb, hb'⟩ := hb
    obtain ⟨hc, hc'⟩ := hc
    obtain ⟨v, hv⟩ : ∃ v, v = (a - 0xE0) * 4096 + (b - 0x80) * 64 + (c - 0x80) := ⟨_, rfl⟩
    have ha₀ : 0xE0 + v / 4096 = a := by omega
    have hb₀ : 0x80 + v / 64 % 64 = b := by omega
    have hc₀ : 0x80 + v % 64 = c := by omega
    refine ⟨v, ?_, ?_⟩
    · unfold Nat.isValidChar
      omega
    · rw [encode, if_neg (by omega), if_neg (by omega), if_pos (by omega), ha₀, hb₀, hc₀]
  | @four a b c d ha ha' hb hc hd =>
    simp only [Excluded] at hw
    obtain ⟨hb, hb'⟩ := hb
    obtain ⟨hc, hc'⟩ := hc
    obtain ⟨hd, hd'⟩ := hd
    obtain ⟨v, hv⟩ : ∃ v, v = (a - 0xF0) * 262144 + (b - 0x80) * 4096 + (c - 0x80) * 64 +
      (d - 0x80) := ⟨_, rfl⟩
    have ha₀ : 0xF0 + v / 262144 = a := by omega
    have hb₀ : 0x80 + v / 4096 % 64 = b := by omega
    have hc₀ : 0x80 + v / 64 % 64 = c := by omega
    have hd₀ : 0x80 + v % 64 = d := by omega
    refine ⟨v, ?_, ?_⟩
    · unfold Nat.isValidChar
      omega
    · rw [encode, if_neg (by omega), if_neg (by omega), if_neg (by omega), ha₀, hb₀, hc₀, hd₀]

/-- **Which sequences are characters.** -/
theorem isChar_iff : IsChar w ↔ Sequence w ∧ ¬Excluded w :=
  ⟨IsChar.sequence, fun h => h.1.isChar h.2⟩

/-- A text is well formed when it is divided into characters. -/
theorem wellFormed_iff {octets : List ℕ} :
    WellFormed octets ↔ ∃ ws : List (List ℕ), (∀ w ∈ ws, IsChar w) ∧ ws.flatten = octets := by
  constructor
  · rintro ⟨vs, hvs, rfl⟩
    refine ⟨vs.map encode, ?_, rfl⟩
    rw [List.forall_mem_map]
    exact fun v hv => ⟨v, hvs v hv, rfl⟩
  · rintro ⟨ws, hws, rfl⟩
    induction ws with
    | nil => exact ⟨[], by simp, rfl⟩
    | cons w ws ih =>
      obtain ⟨v, hv, rfl⟩ := hws w List.mem_cons_self
      obtain ⟨vs, hvs, hflatten⟩ := ih fun u hu => hws u (List.mem_cons_of_mem _ hu)
      refine ⟨v :: vs, List.forall_mem_cons.2 ⟨hv, hvs⟩, ?_⟩
      rw [List.flatMap_cons, List.flatten_cons, hflatten]

/-- The octets that a lead octet begins. -/
def leadLength (a : ℕ) : ℕ :=
  if a ≤ 0x7F then 1 else if a ≤ 0xDF then 2 else if a ≤ 0xEF then 3 else 4

theorem Sequence.length_eq (h : Sequence w) : ∃ a v, w = a :: v ∧ w.length = leadLength a := by
  unfold leadLength
  cases h with
  | @one a ha => exact ⟨a, [], rfl, (if_pos ha).symm⟩
  | @two a b ha ha' => exact ⟨a, [b], rfl, by rw [if_neg (by omega), if_pos ha']; rfl⟩
  | @three a b c ha ha' =>
    exact ⟨a, [b, c], rfl, by rw [if_neg (by omega), if_neg (by omega), if_pos ha']; rfl⟩
  | @four a b c d ha =>
    refine ⟨a, [b, c, d], rfl, ?_⟩
    rw [if_neg (by omega), if_neg (by omega), if_neg (by omega)]
    rfl

/-- The lead octet says where a sequence ends. -/
theorem Sequence.eq_of_append (h : Sequence w) (h' : Sequence w') (heq : w ++ r = w' ++ r') :
    w = w' := by
  obtain ⟨a, v, hw, hlength⟩ := h.length_eq
  obtain ⟨a', v', hw', hlength'⟩ := h'.length_eq
  have hlead : a = a' := by
    rw [hw, hw'] at heq
    exact (List.cons.inj heq).1
  exact (List.append_inj heq (by rw [hlength, hlength', hlead])).1

/-- **A text is divided into sequences in one way.** -/
theorem flatten_inj {ws ws' : List (List ℕ)} (h : ∀ w ∈ ws, Sequence w)
    (h' : ∀ w ∈ ws', Sequence w) (heq : ws.flatten = ws'.flatten) : ws = ws' := by
  induction ws generalizing ws' with
  | nil =>
    cases ws' with
    | nil => rfl
    | cons w' ws' =>
      obtain ⟨a, v, rfl, -⟩ := (h' w' List.mem_cons_self).length_eq
      exact absurd heq (by simp)
  | cons w ws ih =>
    obtain ⟨hw, hws⟩ := List.forall_mem_cons.1 h
    cases ws' with
    | nil =>
      obtain ⟨a, v, rfl, -⟩ := hw.length_eq
      exact absurd heq (by simp)
    | cons w' ws' =>
      obtain ⟨hw', hws'⟩ := List.forall_mem_cons.1 h'
      rw [List.flatten_cons, List.flatten_cons] at heq
      obtain rfl := hw.eq_of_append hw' heq
      rw [ih hws hws' (List.append_cancel_left heq)]

/-- A text with an excluded sequence is not well formed. -/
theorem not_wellFormed {ws : List (List ℕ)} (h : ∀ w ∈ ws, Sequence w) (hw : ∃ w ∈ ws, Excluded w) :
    ¬WellFormed ws.flatten := by
  intro hwell
  obtain ⟨ws', hchars, hflatten⟩ := wellFormed_iff.1 hwell
  obtain rfl := flatten_inj (fun w hw => (hchars w hw).sequence.1) h hflatten
  obtain ⟨w, hmem, hexcluded⟩ := hw
  exact (hchars w hmem).sequence.2 hexcluded

theorem WellFormed.append {a b : List ℕ} (ha : WellFormed a) (hb : WellFormed b) :
    WellFormed (a ++ b) := by
  obtain ⟨vs, hvs, rfl⟩ := ha
  obtain ⟨us, hus, rfl⟩ := hb
  refine ⟨vs ++ us, fun v hv => ?_, List.flatMap_append⟩
  rcases List.mem_append.1 hv with hv | hv
  · exact hvs v hv
  · exact hus v hv

theorem IsChar.wellFormed (h : IsChar w) : WellFormed w :=
  wellFormed_iff.2 ⟨[w], by simpa using h, by simp⟩

/-- The euro sign. -/
example : encode 0x20AC = [0xE2, 0x82, 0xAC] := by decide

end Utf8
end Lib
end Canforge
