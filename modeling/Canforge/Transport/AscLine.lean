/-
# An ASC line, written and read

The writer has three kinds of lines: CAN FD, remote and classic data frames
(`asc_words`).  Reading one gives what `make` or `make_remote` builds of what
the line says (`parse_format_asc`).  A line has no place for the error flag, and
the length a remote frame asks for is written in decimal and read in
hexadecimal.
-/

import Canforge.Transport.CandumpLine

namespace Canforge
namespace Transport

open Canforge.Core

variable {f : FdFrame}

theorem word_ascId (f : FdFrame) : Word (formatAscId f) :=
  (word_hex 1 _).append fun c hc => by
    split_ifs at hc
    · rw [List.mem_singleton.1 hc]
      decide
    · cases hc

/-- **The identifier of an ASC line is read back.** -/
theorem parseAscId_format (f : FdFrame) : parseAscId true (formatAscId f) = .ok f.id := by
  have hv := value_lt f.id
  have hof : BitVec.ofNat 32 f.id.value.toNat = f.id.value := by simp
  have hread : parseHex (hex 1 f.id.value.toNat) = some f.id.value.toNat :=
    parseHex_hex (by decide) (by omega)
  have hmask : f.id.value &&& 0x1FFFFFFF = f.id.value := by
    rw [CanId.value, BitVec.and_assoc]
    rfl
  unfold parseAscId formatAscId
  cases hext : f.id.isExtended with
  | true =>
    have hlast : (hex 1 f.id.value.toNat ++ [ch 'x']).getLast? = some (ch 'x') :=
      List.getLast?_concat
    simp only [if_true, hlast, true_or, decide_true, List.dropLast_concat, hread]
    rw [logId, if_pos rfl, hof, hmask]
    exact CanId.extended_eq hext
  | false =>
    have hlast : ∀ c ∈ marks, (hex 1 f.id.value.toNat).getLast? ≠ some c := fun c hc h =>
      (hex_plain 1 _ c (List.mem_of_getLast? h)).2 hc
    have hno : ¬ ((hex 1 f.id.value.toNat).getLast? = some (ch 'x') ∨
        (hex 1 f.id.value.toNat).getLast? = some (ch 'X')) := by
      rintro (h | h)
      · exact hlast _ (by decide) h
      · exact hlast _ (by decide) h
    simp only [Bool.false_eq_true, if_false, List.append_nil, hno, decide_false, hread, if_true]
    rw [logId, if_neg Bool.false_ne_true, hof]
    exact CanId.standard_eq hext

/-! ### The words of a line -/

/-- `Rx` or `Tx`. -/
def ascDirection (isRx : Bool) : Text := if isRx then ascii "Rx" else ascii "Tx"

theorem word_ascDirection (isRx : Bool) : Word (ascDirection isRx) := by
  cases isRx
  · exact ⟨by decide, by decide⟩
  · exact ⟨by decide, by decide⟩

/-- The words of the line of a record. -/
def ascWords (record : LogRecord) : List Text :=
  let f := record.frame
  formatSeconds f.timestampNs ::
    if f.isFd then
      [ascii "CANFD", record.channel, ascDirection record.isRx, formatAscId f,
        dec 1 f.isBrs.toNat, dec 1 f.isEsi.toNat, dec 1 f.dlc, dec 1 f.size] ++ f.bytes.map hexByte
    else if f.isRemote then
      [record.channel, formatAscId f, ascDirection record.isRx, ascii "r", dec 1 f.dlc]
    else
      [record.channel, formatAscId f, ascDirection record.isRx, ascii "d", dec 1 f.size] ++
        f.bytes.map hexByte

/-- A line with one blank between its words, and one behind them. -/
theorem split_bytes {w : Text} (hw : Word w) (bytes : List Byte) :
    splitWhitespace (w ++ ([ch ' '] ++ toHex true bytes)) = w :: bytes.map hexByte := by
  rw [split_word hw (by simp) (by decide), split_toHex]

/-- **The line is cut back into its words.** -/
theorem split_ascLine {record : LogRecord} (hc : Word record.channel) :
    splitWhitespace (formatAscLine record) = ascWords record := by
  have hone : ∀ c ∈ [ch ' '], isBlank c = true := by decide
  have htwo : ∀ c ∈ ascii "  ", isBlank c = true := by decide
  have hwide : ∀ c ∈ ascii "             ", isBlank c = true := by decide
  have hthree : ∀ c ∈ ascii "   ", isBlank c = true := by decide
  have hr : ascii "   r " = ascii "   " ++ (ascii "r" ++ [ch ' ']) := rfl
  have hd : ascii "   d " = ascii "   " ++ (ascii "d" ++ [ch ' ']) := rfl
  have hfd : ascii "CANFD " = ascii "CANFD" ++ [ch ' '] := rfl
  have hwr : Word (ascii "r") := ⟨by decide, by decide⟩
  have hwd : Word (ascii "d") := ⟨by decide, by decide⟩
  have hwfd : Word (ascii "CANFD") := ⟨by decide, by decide⟩
  have hdir := word_ascDirection record.isRx
  unfold formatAscLine ascWords
  simp only
  rw [← ascDirection, hr, hd, hfd, List.append_assoc, split_word (word_formatSeconds _) (by simp) hone]
  congr 1
  split_ifs
  · simp only [List.append_assoc]
    rw [split_word hwfd (by simp) hone, split_word hc (by simp) hone, split_word hdir (by simp) hone,
      split_word (word_ascId _) (by simp) hone, split_word (word_dec 1 _) (by simp) hone,
      split_word (word_dec 1 _) (by simp) hone, split_word (word_dec 1 _) (by simp) hone,
      split_bytes (word_dec 1 _)]
    rfl
  · simp only [List.append_assoc]
    rw [split_word hc (by decide) htwo, split_word (word_ascId _) (by decide) hwide,
      split_word hdir (by decide) hthree, split_word hwr (by simp) hone, split_last (word_dec 1 _)]
  · simp only [List.append_assoc]
    rw [split_word hc (by decide) htwo, split_word (word_ascId _) (by decide) hwide,
      split_word hdir (by decide) hthree, split_word hwd (by simp) hone, split_bytes (word_dec 1 _)]
    rfl

/-! ### The line -/

/-- What reading an ASC line makes of a frame. -/
def ascFrame (f : FdFrame) (ts : ℕ) : Result FdFrame :=
  if f.isFd then BasicFrame.make 64 f.id f.bytes (fdFlags f.flags) ts
  else if f.isRemote then BasicFrame.makeRemote 64 f.id (readAsHex f.dlc) ts
  else BasicFrame.make 64 f.id f.bytes FrameFlags.none ts

theorem decFlag (b : Bool) (bit : FrameFlags) :
    (if dec 1 b.toNat ≠ ascii "0" then bit else FrameFlags.none) =
      if b then bit else FrameFlags.none := by
  have hone : dec 1 true.toNat ≠ ascii "0" := by decide
  have hzero : dec 1 false.toNat = ascii "0" := by decide
  cases b
  · rw [if_neg (not_not.2 hzero), if_neg Bool.false_ne_true]
  · rw [if_pos hone, if_pos rfl]

theorem direction_eq (isRx : Bool) : decide (ascDirection isRx = ascii "Rx") = isRx := by
  cases isRx <;> decide

theorem take_payload (h : Wired f) : ascPayload (min f.size (min (f.bytes.map hexByte).length 64))
    (f.bytes.map hexByte) = f.bytes := by
  have hlen := h.bytes_length
  have hsize := h.size_le
  have hle : f.size ≤ 64 := by
    split_ifs at hsize <;> omega
  have hmin : min f.size (min (f.bytes.map hexByte).length 64) = f.bytes.length := by
    rw [List.length_map]
    omega
  rw [hmin, ascPayload_words]

theorem ok_bind {α β : Type} (a : α) (f : α → Result β) : (Except.ok a >>= f) = f a := rfl

theorem bind_pure_map {α β : Type} (r : Result α) (f : α → β) :
    (r >>= fun a => pure (f a)) = r.map f := by
  cases r <;> rfl

/-- **An ASC line, read back.** -/
theorem parse_format_asc {record : LogRecord} {line : Text} (hc : ChannelName record.channel)
    (h : Wired record.frame) (hts : record.frame.timestampNs < 2 ^ 64)
    (hsplit : splitWhitespace line = ascWords record) : parseAscLine true line =
      (ascFrame record.frame (record.frame.timestampNs / 1000 * 1000)).map
        fun frame => { frame, channel := record.channel, isRx := record.isRx } := by
  have hsize := h.size_le
  rw [parseAscLine, hsplit, ascWords, ascFrame]
  cases hfd : record.frame.isFd with
  | true =>
    have hfd' : hasFlag record.frame.flags FrameFlags.fd = true := hfd
    rw [hfd, if_pos rfl] at hsize
    simp only [if_true, List.cons_append, List.nil_append, parseSecondsToNs_format hts]
    simp only [parseFd, parseAscId_format, decFlag, strtoul_dec hsize, take_payload h, direction_eq,
      ok_bind]
    rw [fdFlags, if_pos hfd']
    exact bind_pure_map _ _
  | false =>
    rw [hfd, if_neg Bool.false_ne_true] at hsize
    cases hr : record.frame.isRemote with
    | true =>
      simp only [Bool.false_eq_true, if_false, if_true, parseSecondsToNs_format hts, hc.notFd]
      simp only [parseClassic, parseAscId_format, ok_bind, if_true, strtoul_hex h.dlc,
        direction_eq, true_or]
      rw [← readAsHex, readAsHex_mod h.dlc]
      exact bind_pure_map _ _
    | false =>
      have hd : ¬ (ascii "d" = ascii "r" ∨ ascii "d" = ascii "R") := by decide
      have hlen : strtoul 16 (dec 1 record.frame.size) = record.frame.size := by
        rw [strtoul_hex (by omega), if_pos (by omega)]
      simp only [Bool.false_eq_true, if_false, List.cons_append, List.nil_append,
        parseSecondsToNs_format hts, hc.notFd]
      simp only [parseClassic, parseAscId_format, ok_bind, if_true, direction_eq, hlen,
        take_payload h]
      rw [if_neg hd]
      exact bind_pure_map _ _

/-! ### The reader -/

theorem ascLine_cons (record : LogRecord) :
    ∃ d < 10, ∃ rest, formatAscLine record = digitChar d :: rest := by
  have hne := Lib.numeral_ne_nil (b := 10) 1 (record.frame.timestampNs / 1000000000)
  obtain ⟨d, ds, hds⟩ := List.exists_cons_of_ne_nil hne
  have hd : d < 10 := numeral_digits 1 _ d (hds ▸ List.mem_cons_self)
  refine ⟨d, hd, ?_⟩
  rw [formatAscLine, formatSeconds, dec, hds]
  exact ⟨_, rfl⟩

/-- A line that begins with a digit is a frame line for the reader. -/
theorem asc_next {line rest : Text} {d : ℕ} (hd : d < 10) (hline : line = digitChar d :: rest)
    (n : ℕ) (lines : List Text) {result : Result LogRecord}
    (hparse : parseAscLine true (trim line) = result)
    (hcode : ∀ e, result = .error e → e.code ≠ .logEndOfFile) :
    AscReader.nextFrom n true (line :: lines) =
      (result.mapError (atLine · ((n + 1) % 2 ^ 32)), ⟨lines, (n + 1) % 2 ^ 32, true⟩) := by
  have hall : ∀ d : Fin 10, isTrimmed (digitChar d) = false ∧ isDigit (digitChar d) = true ∧
      digitChar d ≠ ch '/' ∧ digitChar d ≠ ch 'b' := by decide
  obtain ⟨htrimmed, hdigit, hslash, hb⟩ := hall ⟨d, hd⟩
  obtain ⟨rest', htrim⟩ := trim_cons htrimmed rest
  rw [← hline] at htrim
  have hcomment : ¬ (trim line = [] ∨ (ascii "//").isPrefixOf (trim line) = true) := by
    rw [htrim]
    rintro (h | h)
    · cases h
    · exact hslash (List.cons_prefix_cons.1 (List.isPrefixOf_iff_prefix.1 h)).1.symm
  have hbase : ¬ (ascii "base ").isPrefixOf (trim line) = true := by
    rw [htrim]
    exact fun h => hb (List.cons_prefix_cons.1 (List.isPrefixOf_iff_prefix.1 h)).1.symm
  have hfront : ¬ (((trim line).head?.map isDigit).getD false = false) := by
    rw [htrim]
    simp [hdigit]
  rw [AscReader.nextFrom]
  simp only [if_neg hcomment, if_neg hbase, if_neg hfront, hparse]
  cases hres : result with
  | error e =>
    simp only [if_neg (hcode e hres)]
    rfl
  | ok record => rfl

end Transport
end Canforge
