/-
# Reading what was written

The words of a log line, one lemma for each kind: a number in hexadecimal
(`parseHex_hex`), a time stamp to the microsecond (`parseSecondsToNs_format`),
the bytes of a payload (`parseHexBytes_toHex`, `ascPayload_words`), and the line
itself, cut back into its words (`split_word`, `split_trim`).
-/

import Canforge.Transport.LogFormat

namespace Canforge
namespace Transport

open Canforge.Core
open Lib (numeral ofNumeral)

/-! ### Digits -/

theorem hexNibble_digitChar {d : ℕ} (h : d < 16) : hexNibble (digitChar d) = some d := by
  have hall : ∀ d : Fin 16, hexNibble (digitChar d) = some (d : ℕ) := by decide
  exact hall ⟨d, h⟩

/-- The marks a digit is not. -/
def marks : Text := ascii " \t\r#().xXRr/"

theorem digitChar_plain {d : ℕ} (h : d < 16) :
    isSpace (digitChar d) = false ∧ digitChar d ∉ marks := by
  have hall : ∀ d : Fin 16, isSpace (digitChar d) = false ∧ digitChar d ∉ marks := by decide
  exact hall ⟨d, h⟩

theorem parseHexFrom_digits {ds : List ℕ} (h : ∀ d ∈ ds, d < 16) (m : ℕ) :
    parseHexFrom m (ds.map digitChar) = some (m * 16 ^ ds.length + ofNumeral 16 ds) := by
  induction ds generalizing m with
  | nil => simp [parseHexFrom, ofNumeral]
  | cons d ds ih =>
    rw [List.map_cons, parseHexFrom, hexNibble_digitChar (h d List.mem_cons_self)]
    simp only
    rw [ih fun d hd => h d (List.mem_cons_of_mem _ hd), Lib.ofNumeral_cons, List.length_cons,
      pow_succ]
    congr 1
    ring

/-- **A hexadecimal number is read back.** -/
theorem parseHex_hex {width n : ℕ} (hw : width ≤ 16) (hn : n < 2 ^ 64) :
    parseHex (hex width n) = some n := by
  have hlen : (numeral 16 width n).length ≤ 16 :=
    Lib.numeral_length_le (by decide) hw (by decide) (by simpa using hn)
  have hne : hex width n ≠ [] := by
    simpa [hex] using Lib.numeral_ne_nil width n
  rw [parseHex, if_neg]
  · rw [hex, parseHexFrom_digits fun d hd => Lib.numeral_lt (by decide) hd, Lib.ofNumeral_numeral,
      Nat.zero_mul, Nat.zero_add]
  · rw [hex, List.length_map]
    rintro (h | h)
    · exact hne h
    · omega

/-! ### Time stamps -/

/-- What ends a run of decimal digits. -/
def Stops (rest : Text) : Prop := ∀ c ∈ rest.head?, isDigit c = false

theorem wholeFrom_digits {ds : List ℕ} (h : ∀ d ∈ ds, d < 10) {rest : Text} (hrest : Stops rest)
    (m : ℕ) (hfit : m * 10 ^ ds.length + ofNumeral 10 ds < 2 ^ 64) :
    wholeFrom m (ds.map digitChar ++ rest) = (m * 10 ^ ds.length + ofNumeral 10 ds, rest) := by
  induction ds generalizing m with
  | nil =>
    cases rest with
    | nil => simp [wholeFrom, ofNumeral]
    | cons c cs => simp [wholeFrom, ofNumeral, hrest c rfl]
  | cons d ds ih =>
    obtain ⟨hdigit, hval⟩ := digit_digitChar (h d List.mem_cons_self)
    rw [Lib.ofNumeral_cons, List.length_cons, pow_succ] at hfit ⊢
    have hsum : m * (10 ^ ds.length * 10) + (d * 10 ^ ds.length + ofNumeral 10 ds) =
        (m * 10 + d) * 10 ^ ds.length + ofNumeral 10 ds := by ring
    have hstep : m * 10 + d < 2 ^ 64 := by
      have := Nat.le_mul_of_pos_right (m * 10 + d) (pow_pos (by decide : 0 < 10) ds.length)
      omega
    rw [hsum] at hfit ⊢
    rw [List.map_cons, List.cons_append, wholeFrom, if_pos hdigit, hval, Nat.mod_eq_of_lt hstep]
    exact ih (fun d hd => h d (List.mem_cons_of_mem _ hd)) _ hfit

theorem fractionFrom_digits {ds : List ℕ} (h : ∀ d ∈ ds, d < 10) {k : ℕ} (hk : ds.length ≤ k + 1)
    (fraction : ℕ) : fractionFrom (10 ^ k) fraction (ds.map digitChar) =
      (fraction + ofNumeral 10 ds * 10 ^ (k + 1 - ds.length), []) := by
  induction ds generalizing k fraction with
  | nil => simp [fractionFrom, ofNumeral]
  | cons d ds ih =>
    obtain ⟨hdigit, hval⟩ := digit_digitChar (h d List.mem_cons_self)
    have hds : ∀ d ∈ ds, d < 10 := fun d hd => h d (List.mem_cons_of_mem _ hd)
    rw [List.length_cons] at hk
    rw [List.map_cons, fractionFrom, if_pos hdigit, hval, Lib.ofNumeral_cons, List.length_cons]
    cases k with
    | zero =>
      obtain rfl := List.length_eq_zero_iff.1 (by omega : ds.length = 0)
      simp [fractionFrom, ofNumeral]
    | succ k =>
      rw [pow_succ, Nat.mul_div_cancel _ (by decide : 0 < 10), ih hds (by omega)]
      have hpow : (10 : ℕ) ^ ds.length * 10 ^ (k + 1 + 1 - (ds.length + 1)) = 10 ^ k * 10 := by
        rw [← pow_add, ← pow_succ]
        congr 1
        omega
      have hsub : k + 1 + 1 - (ds.length + 1) = k + 1 - ds.length := by omega
      rw [Nat.add_mul, Nat.mul_assoc, hpow, hsub, Nat.add_assoc]

/-- The digits of a number below `10 ^ w`. -/
theorem numeral_digits (w n : ℕ) : ∀ d ∈ numeral 10 w n, d < 10 :=
  fun _ hd => Lib.numeral_lt (by decide) hd

/-- **A time stamp is read back to the microsecond.** -/
theorem parseSecondsToNs_format {ns : ℕ} (h : ns < 2 ^ 64) :
    parseSecondsToNs (formatSeconds ns) = some (ns / 1000 * 1000) := by
  have hstops : Stops (ch '.' :: dec 6 (ns % 1000000000 / 1000)) := by
    intro c hc
    cases hc
    decide
  have hlen : (numeral 10 6 (ns % 1000000000 / 1000)).length = 6 :=
    Lib.numeral_length (by decide) (by decide) (by omega)
  have hwhole : wholeFrom 0 (formatSeconds ns) =
      (ns / 1000000000, ch '.' :: dec 6 (ns % 1000000000 / 1000)) := by
    have hval := Lib.ofNumeral_numeral (b := 10) 1 (ns / 1000000000)
    have hread := wholeFrom_digits (numeral_digits 1 (ns / 1000000000)) hstops 0
      (by rw [hval]; omega)
    rw [hval, Nat.zero_mul, Nat.zero_add] at hread
    rw [formatSeconds, List.append_assoc]
    exact hread
  have hfraction : fractionFrom 100000000 0 (dec 6 (ns % 1000000000 / 1000)) =
      (ns % 1000000000 / 1000 * 1000, []) := by
    have h8 : (100000000 : ℕ) = 10 ^ 8 := by norm_num
    rw [h8, dec, fractionFrom_digits (numeral_digits _ _) (by omega), Lib.ofNumeral_numeral, hlen,
      Nat.zero_add]
    norm_num
  have hne : (ch '.' :: dec 6 (ns % 1000000000 / 1000)).length ≠ (formatSeconds ns).length := by
    have hpos : 0 < (dec 1 (ns / 1000000000)).length := by
      rw [dec, List.length_map]
      exact List.length_pos_of_ne_nil (Lib.numeral_ne_nil _ _)
    rw [formatSeconds, List.length_append, List.length_append, List.length_cons]
    simp
    omega
  rw [parseSecondsToNs, hwhole]
  simp only [hfraction, if_neg hne, if_true]
  rw [if_neg (by simp)]
  congr 1
  omega

/-! ### Words -/

/-- A word of a line. -/
structure Word (w : Text) : Prop where
  ne_nil : w ≠ []
  plain : ∀ c ∈ w, isSpace c = false

theorem Word.not_mem {w : Text} (hw : Word w) {c : Byte} (hc : isSpace c = true) : c ∉ w := by
  intro hmem
  rw [hw.plain c hmem] at hc
  cases hc

theorem isBlank_of_not_isSpace {c : Byte} (h : isSpace c = false) : isBlank c = false := by
  unfold isSpace at h
  unfold isBlank
  rw [Bool.or_eq_false_iff] at h ⊢
  refine ⟨h.1, ?_⟩
  by_contra hc
  rw [Bool.not_eq_false, beq_iff_eq] at hc
  rw [hc] at h
  exact absurd h.2 (by decide)

theorem splitFrom_plain {w : Text} (hw : ∀ c ∈ w, isSpace c = false) (acc rest : Text) :
    splitFrom acc (w ++ rest) = splitFrom (acc ++ w) rest := by
  induction w generalizing acc with
  | nil => rw [List.nil_append, List.append_nil]
  | cons c w ih =>
    have hc : ¬ isBlank c = true := by simp [isBlank_of_not_isSpace (hw c List.mem_cons_self)]
    rw [List.cons_append, splitFrom, if_neg hc, ih fun d hd => hw d (List.mem_cons_of_mem _ hd),
      List.append_assoc]
    rfl

theorem split_blank {c : Byte} (hc : isBlank c = true) (rest : Text) :
    splitWhitespace (c :: rest) = splitWhitespace rest := by
  rw [splitWhitespace, splitFrom, if_pos hc, if_pos rfl]
  rfl

theorem split_blanks {gap : Text} (hgap : ∀ c ∈ gap, isBlank c = true) (rest : Text) :
    splitWhitespace (gap ++ rest) = splitWhitespace rest := by
  induction gap with
  | nil => rfl
  | cons c gap ih =>
    rw [List.cons_append, split_blank (hgap c List.mem_cons_self),
      ih fun d hd => hgap d (List.mem_cons_of_mem _ hd)]

/-- **A word ends at a blank.** -/
theorem split_word {w gap : Text} (hw : Word w) (hne : gap ≠ [])
    (hgap : ∀ c ∈ gap, isBlank c = true) (rest : Text) :
    splitWhitespace (w ++ (gap ++ rest)) = w :: splitWhitespace rest := by
  cases gap with
  | nil => exact absurd rfl hne
  | cons c gap =>
    rw [splitWhitespace, splitFrom_plain hw.plain, List.nil_append, List.cons_append, splitFrom,
      if_pos (hgap c List.mem_cons_self), if_neg hw.ne_nil]
    exact congrArg _ (split_blanks (fun d hd => hgap d (List.mem_cons_of_mem _ hd)) rest)

theorem split_last {w : Text} (hw : Word w) : splitWhitespace w = [w] := by
  have h := splitFrom_plain hw.plain [] []
  rw [List.append_nil, List.nil_append, splitFrom, if_neg hw.ne_nil] at h
  exact h

theorem Word.append {w w' : Text} (hw : Word w) (hw' : ∀ c ∈ w', isSpace c = false) :
    Word (w ++ w') where
  ne_nil := List.append_ne_nil_of_left_ne_nil hw.ne_nil _
  plain c hc := (List.mem_append.1 hc).elim (hw.plain c) (hw' c)

theorem digits_plain {ds : List ℕ} (h : ∀ d ∈ ds, d < 16) :
    ∀ c ∈ ds.map digitChar, isSpace c = false ∧ c ∉ marks := by
  intro c hc
  obtain ⟨d, hd, rfl⟩ := List.mem_map.1 hc
  exact digitChar_plain (h d hd)

theorem dec_plain (w n : ℕ) : ∀ c ∈ dec w n, isSpace c = false ∧ c ∉ marks :=
  digits_plain fun d hd => (numeral_digits w n d hd).trans (by decide)

theorem hex_plain (w n : ℕ) : ∀ c ∈ hex w n, isSpace c = false ∧ c ∉ marks :=
  digits_plain fun _ hd => Lib.numeral_lt (by decide) hd

theorem word_dec (w n : ℕ) : Word (dec w n) :=
  ⟨by simpa [dec] using Lib.numeral_ne_nil w n, fun c hc => (dec_plain w n c hc).1⟩

theorem word_hex (w n : ℕ) : Word (hex w n) :=
  ⟨by simpa [hex] using Lib.numeral_ne_nil w n, fun c hc => (hex_plain w n c hc).1⟩

theorem word_formatSeconds (ns : ℕ) : Word (formatSeconds ns) :=
  ((word_dec 1 _).append (by decide)).append fun c hc => (dec_plain 6 _ c hc).1

/-! ### Payloads -/

theorem hexByte_eq (b : Byte) : hexByte b = [b.toNat / 16, b.toNat % 16].map digitChar := rfl

theorem hexByte_digits (b : Byte) : ∀ d ∈ [b.toNat / 16, b.toNat % 16], d < 16 := by
  have := b.isLt
  simp
  omega

theorem word_hexByte (b : Byte) : Word (hexByte b) :=
  ⟨by simp [hexByte], fun c hc => (digits_plain (hexByte_digits b) c hc).1⟩

theorem parseHex_hexByte (b : Byte) : parseHex (hexByte b) = some b.toNat := by
  have hread := parseHexFrom_digits (hexByte_digits b) 0
  rw [parseHex, if_neg (by simp [hexByte]), hexByte_eq, hread]
  simp [ofNumeral]
  omega

theorem toHex_false (bytes : List Byte) : toHex false bytes = bytes.flatMap hexByte := by
  induction bytes with
  | nil => rfl
  | cons b bytes ih =>
    cases bytes with
    | nil => simp [toHex]
    | cons b' bytes => simp [toHex, ih]

theorem hexPairs_toHex (bytes : List Byte) : hexPairs (bytes.flatMap hexByte) = some bytes := by
  induction bytes with
  | nil => rfl
  | cons b bytes ih =>
    have hb := b.isLt
    rw [List.flatMap_cons]
    simp only [hexByte, List.cons_append, List.nil_append]
    rw [hexPairs, hexNibble_digitChar (by omega), hexNibble_digitChar (by omega)]
    have hbyte : BitVec.ofNat 8 (b.toNat / 16 * 16 + b.toNat % 16) = b := by
      rw [Nat.div_add_mod']
      exact BitVec.ofNat_toNat 8 b ▸ BitVec.setWidth_eq b
    rw [ih]
    simp only [hbyte]

/-- **A payload is read back**, as pairs of digits. -/
theorem parseHexBytes_toHex {bytes : List Byte} {max : ℕ} (h : bytes.length ≤ max) :
    parseHexBytes (toHex false bytes) max = some bytes := by
  have hlen : (bytes.flatMap hexByte).length = bytes.length * 2 := by
    induction bytes with
    | nil => rfl
    | cons b bytes ih =>
      rw [List.flatMap_cons, List.length_append, ih (by simp at h; omega), List.length_cons]
      simp [hexByte]
      omega
  rw [toHex_false, parseHexBytes, if_neg (by omega), if_neg (by omega), hexPairs_toHex]

theorem split_toHex (bytes : List Byte) :
    splitWhitespace (toHex true bytes) = bytes.map hexByte := by
  induction bytes with
  | nil => rfl
  | cons b bytes ih =>
    cases bytes with
    | nil => exact split_last (word_hexByte b)
    | cons b' bytes =>
      have htoHex : toHex true (b :: b' :: bytes) =
          hexByte b ++ ([ch ' '] ++ toHex true (b' :: bytes)) := rfl
      rw [htoHex, split_word (word_hexByte b) (by simp) (by decide), ih]
      rfl

/-- **A payload is read back**, as words. -/
theorem ascPayload_words (bytes : List Byte) :
    ascPayload bytes.length (bytes.map hexByte) = bytes := by
  induction bytes with
  | nil => rfl
  | cons b bytes ih =>
    rw [List.length_cons, List.map_cons, ascPayload, parseHex_hexByte]
    simp only
    rw [ih]
    congr 1
    simp

/-! ### Lines -/

theorem isTrimmed_blank {c : Byte} (h : isTrimmed c = true) (hr : c ≠ ch '\r') :
    isBlank c = true := by
  simpa [isTrimmed, isBlank, hr] using h

theorem splitFrom_concat {c : Byte} (hc : isBlank c = true) (acc s : Text) :
    splitFrom acc (s ++ [c]) = splitFrom acc s := by
  induction s generalizing acc with
  | nil =>
    rw [List.nil_append]
    simp only [splitFrom, if_pos hc]
    split_ifs <;> rfl
  | cons d s ih =>
    rw [List.cons_append, splitFrom, splitFrom]
    split_ifs
    · exact ih []
    · rw [ih []]
    · exact ih _

theorem split_dropWhile {s : Text} (h : ch '\r' ∉ s) :
    splitWhitespace (s.dropWhile isTrimmed) = splitWhitespace s := by
  induction s with
  | nil => rfl
  | cons c s ih =>
    rw [List.dropWhile_cons]
    split_ifs with hc
    · rw [ih fun hs => h (List.mem_cons_of_mem _ hs),
        split_blank (isTrimmed_blank hc fun hr => h (hr ▸ List.mem_cons_self))]
    · rfl

theorem split_rdropWhile {s : Text} (h : ch '\r' ∉ s) :
    splitWhitespace (s.rdropWhile isTrimmed) = splitWhitespace s := by
  induction s using List.reverseRecOn with
  | nil => rfl
  | append_singleton s c ih =>
    rw [List.rdropWhile_concat]
    split_ifs with hc
    · have hblank := isTrimmed_blank hc fun hr => h (by simp [hr])
      rw [ih fun hs => h (List.mem_append_left _ hs)]
      exact (splitFrom_concat hblank [] s).symm
    · rfl

theorem mem_of_mem_trim {s : Text} {c : Byte} (h : c ∈ trim s) : c ∈ s :=
  (List.dropWhile_suffix _).subset ((List.rdropWhile_prefix _ _).subset h)

/-- **Trimming keeps the words.** -/
theorem split_trim {s : Text} (h : ch '\r' ∉ s) : splitWhitespace (trim s) = splitWhitespace s := by
  rw [trim, split_rdropWhile fun hs => h ((List.dropWhile_suffix _).subset hs), split_dropWhile h]

/-- **Trimming keeps a line's first character.** -/
theorem trim_cons {c : Byte} (hc : isTrimmed c = false) (s : Text) :
    ∃ s', trim (c :: s) = c :: s' := by
  have hdrop : (c :: s).dropWhile isTrimmed = c :: s := by
    rw [List.dropWhile_cons, if_neg (by simp [hc])]
  have hne : trim (c :: s) ≠ [] := by
    rw [trim, hdrop, Ne, List.rdropWhile_eq_nil_iff]
    intro hall
    have := hall c List.mem_cons_self
    rw [hc] at this
    cases this
  have hpre : trim (c :: s) <+: c :: s := by
    rw [trim, hdrop]
    exact List.rdropWhile_prefix _ _
  obtain ⟨d, s', hs'⟩ := List.exists_cons_of_ne_nil hne
  rw [hs', List.cons_prefix_cons] at hpre
  exact ⟨s', by rw [hs', hpre.1]⟩

/-- **A line ends at its newline.** -/
theorem getLines_cons {line : Text} (h : ch '\n' ∉ line) (rest : Text) :
    getLines (line ++ [ch '\n'] ++ rest) = line :: getLines rest := by
  have hsplit : (line ++ [ch '\n'] ++ rest).splitOn (ch '\n') =
      line :: rest.splitOn (ch '\n') := by
    rw [List.append_assoc, List.singleton_append, List.splitOn_append_cons_self,
      List.splitOn_eq_singleton h, List.singleton_append]
  have hne := List.splitOn_ne_nil (ch '\n') rest
  unfold getLines
  simp only [hsplit, List.getLast?_cons_of_ne_nil hne]
  split_ifs
  · exact List.dropLast_cons_of_ne_nil hne
  · rfl

/-! ### Small numbers -/

theorem strtoul_dec {n : ℕ} (h : n ≤ 64) : strtoul 10 (dec 1 n) = n := by
  have hall : ∀ n : Fin 65, strtoul 10 (dec 1 n) = (n : ℕ) := by decide +kernel
  exact hall ⟨n, by omega⟩

theorem strtoul_hex {n : ℕ} (h : n ≤ 15) :
    strtoul 16 (dec 1 n) = if n ≤ 9 then n else n + 6 := by
  have hall : ∀ n : Fin 16, strtoul 16 (dec 1 n) = if (n : ℕ) ≤ 9 then (n : ℕ) else n + 6 := by
    decide +kernel
  exact hall ⟨n, by omega⟩

theorem parseHex_dec {n : ℕ} (h : n ≤ 15) :
    parseHex (dec 1 n) = some (if n ≤ 9 then n else n + 6) := by
  have hall : ∀ n : Fin 16, parseHex (dec 1 n) = some (if (n : ℕ) ≤ 9 then (n : ℕ) else n + 6) := by
    decide +kernel
  exact hall ⟨n, by omega⟩

end Transport
end Canforge
