/-
# A candump line, written and read

Any frame `from_wire` lets through is written as a line with three words, and
reading it gives what `make` or `make_remote` builds of what the line says
(`parse_format_candump`).  The line does not say everything: an error frame is
written with eight digits whatever its format, and the length a remote frame
asks for is written in decimal and read in hexadecimal.
-/

import Canforge.Transport.LogLines

namespace Canforge
namespace Transport

open Canforge.Core

/-- What `from_wire` lets through, with flags that are a union of enumerators. -/
structure Wired (f : FdFrame) : Prop where
  validated : BasicFrame.validateFlags 64 f.flags = .ok ()
  dlc : f.dlc ≤ 15
  valid : f.flags.Valid

/-- A channel name that is one word, and not the one that marks a CAN FD line. -/
structure ChannelName (channel : Text) : Prop where
  word : Word channel
  notFd : channel ≠ ascii "CANFD"

/-- The identifier a candump line gives back: that of an error frame is read as extended. -/
def candumpId (f : FdFrame) : CanId :=
  if f.isErrorFrame then
    ⟨f.id.value ||| kEffFlag, CanId.inRange_or_kEffFlag (by
      rw [CanId.value, BitVec.le_def, BitVec.toNat_and]
      exact Nat.and_le_right)⟩
  else f.id

/-- The flags a CAN FD line writes. -/
def fdFlags (flags : FrameFlags) : FrameFlags :=
  if hasFlag flags FrameFlags.fd then
    FrameFlags.fd |||
      (if hasFlag flags FrameFlags.brs then FrameFlags.brs else FrameFlags.none) |||
      (if hasFlag flags FrameFlags.esi then FrameFlags.esi else FrameFlags.none)
  else FrameFlags.none

/-- The flags of a data frame: all but the remote one. -/
def dataFlags (flags : FrameFlags) : FrameFlags :=
  fdFlags flags ||| if hasFlag flags FrameFlags.error then FrameFlags.error else FrameFlags.none

theorem dataFlags_eq {flags : FrameFlags} (h : BasicFrame.validateFlags 64 flags = .ok ())
    (hvalid : flags.Valid) (hrtr : hasFlag flags FrameFlags.rtr = false) :
    dataFlags flags = flags := by
  have hall : ∀ flags : FrameFlags, flags.Valid →
      BasicFrame.validateFlags 64 flags = .ok () → hasFlag flags FrameFlags.rtr = false →
      dataFlags flags = flags := by
    decide +kernel
  exact hall flags hvalid h hrtr

/-- The number the digits of a length stand for when they are read in hexadecimal. -/
def readAsHex (n : ℕ) : ℕ := if n ≤ 9 then n else n + 6

theorem readAsHex_mod {n : ℕ} (h : n ≤ 15) : readAsHex n % 256 = readAsHex n := by
  rw [readAsHex]
  split_ifs <;> omega

variable {f : FdFrame}

theorem value_lt (id : CanId) : id.value.toNat < 2 ^ 29 := by
  rw [CanId.value_toNat]
  exact Nat.mod_lt _ (by decide)

theorem Wired.size_le (h : Wired f) : f.size ≤ if f.isFd then 64 else 8 := by
  have hall : ∀ dlc : Fin 16, ∀ fd : Bool, dlcToLength dlc fd ≤ if fd then 64 else 8 := by decide
  rw [BasicFrame.size]
  by_cases hr : f.isRemote = true
  · rw [if_pos hr]
    exact Nat.zero_le _
  · rw [if_neg hr]
    exact hall ⟨f.dlc, Nat.lt_succ_of_le h.dlc⟩ f.isFd

theorem Wired.bytes_length (h : Wired f) : f.bytes.length = f.size := by
  have hle := h.size_le
  rw [BasicFrame.bytes, List.length_take, f.data_length]
  split_ifs at hle <;> omega

/-! ### The identifier -/

/-- The number a candump line writes for the identifier. -/
def candumpRaw (f : FdFrame) : ℕ :=
  (if f.isErrorFrame then f.id.value ||| 0x20000000 else f.id.value).toNat

theorem candumpRaw_eq (f : FdFrame) :
    candumpRaw f = f.id.value.toNat + if f.isErrorFrame then 2 ^ 29 else 0 := by
  have hv := value_lt f.id
  unfold candumpRaw
  split_ifs
  · have := Nat.two_pow_add_eq_or_of_lt hv 1
    rw [BitVec.toNat_or, Nat.lor_comm, show (0x20000000 : BitVec 32).toNat = 2 ^ 29 * 1 from rfl,
      ← this]
    omega
  · rfl

theorem candumpRaw_length (f : FdFrame) : (formatCandumpId f).length =
    if f.id.isExtended || f.isErrorFrame then 8 else 3 := by
  have hv := value_lt f.id
  have hraw := candumpRaw_eq f
  have hfit : candumpRaw f < 16 ^ if f.id.isExtended || f.isErrorFrame then 8 else 3 := by
    cases herr : f.isErrorFrame with
    | true =>
      rw [hraw, herr, Bool.or_true, if_pos rfl, if_pos rfl]
      omega
    | false =>
      rw [hraw, herr, Bool.or_false, if_neg Bool.false_ne_true]
      cases hext : f.id.isExtended with
      | true =>
        rw [if_pos rfl]
        omega
      | false =>
        have hle : f.id.value.toNat ≤ 0x7FF := (CanId.standard_value hext).2
        rw [if_neg Bool.false_ne_true]
        omega
  rw [formatCandumpId, hex, List.length_map]
  exact Lib.numeral_length (by decide) (by split_ifs <;> decide) hfit

theorem parseHex_candumpId (f : FdFrame) : parseHex (formatCandumpId f) = some (candumpRaw f) := by
  have hraw := candumpRaw_eq f
  have hv := value_lt f.id
  refine parseHex_hex (by split_ifs <;> decide) ?_
  change candumpRaw f < 2 ^ 64
  rw [hraw]
  split_ifs <;> omega

theorem logId_candump (f : FdFrame) :
    logId (decide (3 < (formatCandumpId f).length)) (candumpRaw f) = .ok (candumpId f) := by
  have hv := value_lt f.id
  have hraw := candumpRaw_eq f
  have hmask : BitVec.ofNat 32 (candumpRaw f) &&& 0x1FFFFFFF = f.id.value := by
    refine BitVec.eq_of_toNat_eq ?_
    have hand := Nat.and_two_pow_sub_one_eq_mod (BitVec.ofNat 32 (candumpRaw f)).toNat 29
    rw [BitVec.toNat_and, show (0x1FFFFFFF : BitVec 32).toNat = 2 ^ 29 - 1 from rfl, hand,
      BitVec.toNat_ofNat, hraw]
    split_ifs <;> omega
  have hle : f.id.value ≤ kExtendedIdMax := by
    rw [BitVec.le_def]
    change f.id.value.toNat ≤ 2 ^ 29 - 1
    omega
  unfold logId candumpId
  rw [candumpRaw_length, hmask]
  cases herr : f.isErrorFrame with
  | true =>
    rw [Bool.or_true]
    simp only [if_true]
    rw [if_pos (by decide), CanId.extended, dif_pos hle]
  | false =>
    cases hext : f.id.isExtended with
    | true =>
      simp only [Bool.or_false, if_true, Bool.false_eq_true, if_false]
      rw [if_pos (by decide)]
      exact CanId.extended_eq hext
    | false =>
      have hof : BitVec.ofNat 32 (candumpRaw f) = f.id.value := by
        refine BitVec.eq_of_toNat_eq ?_
        rw [BitVec.toNat_ofNat, hraw, herr]
        simp
        omega
      simp only [Bool.or_false, Bool.false_eq_true, if_false]
      rw [if_neg (by decide), hof]
      exact CanId.standard_eq hext

/-! ### The data -/

theorem toHex_plain (bytes : List Byte) :
    ∀ c ∈ toHex false bytes, isSpace c = false ∧ c ∉ marks := by
  rw [toHex_false]
  intro c hc
  obtain ⟨b, -, hc⟩ := List.mem_flatMap.1 hc
  exact digits_plain (hexByte_digits b) c hc

/-- What a candump line says behind the `#`. -/
def candumpRest (f : FdFrame) : Text :=
  if f.isRemote then ch 'R' :: dec 1 f.dlc
  else
    (if f.isFd then ch '#' :: hex 1 (f.isBrs.toNat + 2 * f.isEsi.toNat) else []) ++
      toHex false f.bytes

theorem formatCandumpData_eq (f : FdFrame) : formatCandumpData f = ch '#' :: candumpRest f := by
  unfold formatCandumpData candumpRest
  split_ifs <;> rfl

/-- The flags the nibble of a CAN FD frame stands for. -/
theorem fdNibble (brs esi : Bool) (rest : Text) :
    parseFdFlags (ch '#' :: hex 1 (brs.toNat + 2 * esi.toNat) ++ rest) =
      .ok (FrameFlags.fd ||| (if brs then FrameFlags.brs else FrameFlags.none) |||
        (if esi then FrameFlags.esi else FrameFlags.none), rest) := by
  have hnibble : ∀ n : Fin 4, hex 1 n = [digitChar n] := by decide
  cases brs <;> cases esi
  · rw [show false.toNat + 2 * false.toNat = ((0 : Fin 4) : ℕ) from rfl, hnibble]
    rfl
  · rw [show false.toNat + 2 * true.toNat = ((2 : Fin 4) : ℕ) from rfl, hnibble]
    rfl
  · rw [show true.toNat + 2 * false.toNat = ((1 : Fin 4) : ℕ) from rfl, hnibble]
    rfl
  · rw [show true.toNat + 2 * true.toNat = ((3 : Fin 4) : ℕ) from rfl, hnibble]
    rfl

/-- Without a second `#` a frame is classic. -/
theorem parseFdFlags_classic {rest : Text} (h : rest.head? ≠ some (ch '#')) :
    parseFdFlags rest = .ok (FrameFlags.none, rest) := by
  cases rest with
  | nil => rfl
  | cons c rest =>
    have hc : c ≠ ch '#' := fun hc => h (by rw [hc]; rfl)
    exact if_neg hc

theorem head_toHex (bytes : List Byte) {c : Byte} (hc : c ∈ marks) :
    (toHex false bytes).head? ≠ some c := fun h =>
  (toHex_plain bytes c (List.mem_of_mem_head? h)).2 hc

theorem Wired.not_fd_of_remote (h : Wired f) (hr : f.isRemote = true) : f.isFd = false := by
  by_contra hfd
  have hrtr := (validateFlags_eq_ok_iff.1 h.validated).1 (Bool.eq_true_of_not_eq_false hfd)
  exact absurd hr (by rw [BasicFrame.isRemote, hrtr]; decide)

theorem parseFdFlags_candump (h : Wired f) : parseFdFlags (candumpRest f) =
    .ok (fdFlags f.flags, if f.isRemote then ch 'R' :: dec 1 f.dlc else toHex false f.bytes) := by
  rw [candumpRest]
  cases hr : f.isRemote with
  | true =>
    have hfd : hasFlag f.flags FrameFlags.fd = false := h.not_fd_of_remote hr
    have hhead : (ch 'R' :: dec 1 f.dlc).head? ≠ some (ch '#') := by
      rw [List.head?_cons]
      decide
    rw [if_pos rfl, if_pos rfl, parseFdFlags_classic hhead, fdFlags, hfd]
    rfl
  | false =>
    rw [if_neg Bool.false_ne_true, if_neg Bool.false_ne_true]
    cases hfd : f.isFd with
    | true =>
      have hfd' : hasFlag f.flags FrameFlags.fd = true := hfd
      rw [if_pos rfl, fdNibble, fdFlags, hfd']
      rfl
    | false =>
      have hfd' : hasFlag f.flags FrameFlags.fd = false := hfd
      rw [if_neg Bool.false_ne_true, List.nil_append,
        parseFdFlags_classic (head_toHex f.bytes (by decide)), fdFlags, hfd']
      rfl

/-- **The data of a candump line is read back.** -/
theorem parseCandumpData_format (h : Wired f) (id : CanId) (ts : ℕ) :
    parseCandumpData id (dataFlags f.flags)
        (if f.isRemote then ch 'R' :: dec 1 f.dlc else toHex false f.bytes) ts =
      if f.isRemote then BasicFrame.makeRemote 64 id (readAsHex f.dlc) ts
      else BasicFrame.make 64 id f.bytes f.flags ts := by
  cases hr : f.isRemote with
  | true =>
    have hne : dec 1 f.dlc ≠ [] := (word_dec 1 f.dlc).ne_nil
    rw [if_pos rfl, if_pos rfl, parseCandumpData, if_pos (.inl rfl), List.tail_cons, if_neg hne,
      parseHex_dec h.dlc]
    exact congrArg (BasicFrame.makeRemote 64 id · ts) (readAsHex_mod h.dlc)
  | false =>
    have hsize := h.size_le
    have hlen := h.bytes_length
    have hle : f.bytes.length ≤ 64 := by
      split_ifs at hsize <;> omega
    have hhead : ¬ ((toHex false f.bytes).head? = some (ch 'R') ∨
        (toHex false f.bytes).head? = some (ch 'r')) := by
      rintro (hc | hc)
      · exact head_toHex f.bytes (by decide) hc
      · exact head_toHex f.bytes (by decide) hc
    rw [if_neg Bool.false_ne_true, if_neg Bool.false_ne_true, parseCandumpData, if_neg hhead,
      parseHexBytes_toHex hle, dataFlags_eq h.validated h.valid hr]
    refine if_neg ?_
    rintro ⟨hfd, hlong⟩
    rw [BasicFrame.isFd, hfd, if_neg Bool.false_ne_true] at hsize
    omega

/-! ### The line -/

/-- What reading a candump line makes of a frame. -/
def candumpFrame (f : FdFrame) (ts : ℕ) : Result FdFrame :=
  if f.isRemote then BasicFrame.makeRemote 64 (candumpId f) (readAsHex f.dlc) ts
  else BasicFrame.make 64 (candumpId f) f.bytes f.flags ts

theorem errorFlag_candump (f : FdFrame) :
    (if (decide (3 < (formatCandumpId f).length) = true ∧ (candumpRaw f).testBit 29 = true ∧
        (formatCandumpId f).length = 8) then fdFlags f.flags ||| FrameFlags.error
      else fdFlags f.flags) = dataFlags f.flags := by
  have hv := value_lt f.id
  have hraw := candumpRaw_eq f
  have hbit : (candumpRaw f).testBit 29 = f.isErrorFrame := by
    rw [hraw]
    cases f.isErrorFrame with
    | true =>
      rw [if_pos rfl, Nat.add_comm, Nat.testBit_two_pow_add_eq, Nat.testBit_lt_two_pow hv]
      rfl
    | false => exact Nat.testBit_lt_two_pow hv
  rw [hbit, candumpRaw_length, dataFlags]
  cases herr : f.isErrorFrame with
  | true =>
    have herr' : hasFlag f.flags FrameFlags.error = true := herr
    simp [herr']
  | false =>
    have herr' : hasFlag f.flags FrameFlags.error = false := herr
    simp [herr', FrameFlags.none]

theorem parseCandumpFrame_format (h : Wired f) (ts : ℕ) :
    parseCandumpFrame (formatCandumpId f ++ formatCandumpData f) ts = candumpFrame f ts := by
  have hspan : (formatCandumpId f ++ formatCandumpData f).span (· != ch '#') =
      (formatCandumpId f, ch '#' :: candumpRest f) := by
    have hid : ∀ c ∈ formatCandumpId f, (c != ch '#') = true := by
      intro c hc
      have := (hex_plain _ _ c hc).2
      rw [bne_iff_ne]
      rintro rfl
      exact this (by decide)
    rw [List.span_eq_takeWhile_dropWhile, List.takeWhile_append_of_pos hid,
      List.dropWhile_append_of_pos hid, formatCandumpData_eq]
    simp
  unfold parseCandumpFrame
  rw [hspan]
  simp only [parseHex_candumpId, parseFdFlags_candump h, logId_candump, bind, Except.bind,
    errorFlag_candump, parseCandumpData_format h]
  rfl

theorem parseStamp_format {ns : ℕ} (h : ns < 2 ^ 64) :
    parseStamp ([ch '('] ++ formatSeconds ns ++ [ch ')']) = .ok (ns / 1000 * 1000) := by
  have hpos : 0 < (formatSeconds ns).length :=
    List.length_pos_of_ne_nil (word_formatSeconds ns).ne_nil
  rw [parseStamp, if_neg]
  · have hinner : ([ch '('] ++ formatSeconds ns ++ [ch ')']).tail.dropLast = formatSeconds ns := by
      simp
    rw [hinner, parseSecondsToNs_format h]
  · rintro (hlen | hhead | hlast)
    · rw [List.length_append, List.length_append, List.length_singleton, List.length_singleton]
        at hlen
      omega
    · exact hhead rfl
    · exact hlast (List.getLast?_concat)

theorem word_candumpBody (f : FdFrame) : Word (formatCandumpId f ++ formatCandumpData f) := by
  refine (word_hex _ _).append fun c hc => ?_
  rw [formatCandumpData_eq] at hc
  rcases List.mem_cons.1 hc with rfl | hc
  · decide
  · unfold candumpRest at hc
    split_ifs at hc with hr hfd
    · rcases List.mem_cons.1 hc with rfl | hc
      · decide
      · exact (dec_plain 1 f.dlc c hc).1
    · rcases List.mem_append.1 hc with hc | hc
      · rcases List.mem_cons.1 hc with rfl | hc
        · decide
        · exact (hex_plain _ _ c hc).1
      · exact (toHex_plain f.bytes c hc).1
    · exact (toHex_plain f.bytes c hc).1

theorem word_stamp (ns : ℕ) : Word ([ch '('] ++ formatSeconds ns ++ [ch ')']) := by
  refine ⟨by simp, fun c hc => ?_⟩
  rcases List.mem_append.1 hc with hc | hc
  · rcases List.mem_append.1 hc with hc | hc
    · rw [List.mem_singleton.1 hc]
      decide
    · exact (word_formatSeconds ns).plain c hc
  · rw [List.mem_singleton.1 hc]
    decide

theorem formatCandumpLine_eq (record : LogRecord) : formatCandumpLine record =
    ([ch '('] ++ formatSeconds record.frame.timestampNs ++ [ch ')']) ++ ([ch ' '] ++
      (record.channel ++ ([ch ' '] ++
        (formatCandumpId record.frame ++ formatCandumpData record.frame)))) := by
  have hparen : ascii ") " = [ch ')'] ++ [ch ' '] := rfl
  simp only [formatCandumpLine, hparen, List.append_assoc]

/-- A line has no white space but its blanks. -/
theorem not_mem_candumpLine {record : LogRecord} (hc : Word record.channel) {c : Byte}
    (hspace : isSpace c = true) (hne : c ≠ ch ' ') : c ∉ formatCandumpLine record := by
  rw [formatCandumpLine_eq]
  simp only [List.mem_append, List.mem_singleton, not_or]
  have hstamp := (word_stamp record.frame.timestampNs).not_mem hspace
  have hbody := (word_candumpBody record.frame).not_mem hspace
  simp only [List.mem_append, List.mem_singleton, not_or] at hstamp hbody
  exact ⟨hstamp, hne, hc.not_mem hspace, hne, hbody⟩

theorem trim_candumpLine (record : LogRecord) :
    ∃ rest, trim (formatCandumpLine record) = ch '(' :: rest := by
  rw [formatCandumpLine_eq, List.append_assoc, List.append_assoc, List.singleton_append]
  exact trim_cons (by decide) _

theorem split_candumpLine {record : LogRecord} (hc : Word record.channel) :
    splitWhitespace (formatCandumpLine record) =
      [[ch '('] ++ formatSeconds record.frame.timestampNs ++ [ch ')'], record.channel,
        formatCandumpId record.frame ++ formatCandumpData record.frame] := by
  rw [formatCandumpLine_eq, split_word (word_stamp _) (by simp) (by decide),
    split_word hc (by simp) (by decide), split_last (word_candumpBody _)]

/-- A line with these three words is read so. -/
theorem parse_candumpWords {record : LogRecord} {line rest : Text} (hc : Word record.channel)
    (h : Wired record.frame) (hts : record.frame.timestampNs < 2 ^ 64)
    (hfront : trim line = ch '(' :: rest)
    (hsplit : splitWhitespace (trim line) = splitWhitespace (formatCandumpLine record)) :
    parseCandumpLine line =
      (candumpFrame record.frame (record.frame.timestampNs / 1000 * 1000)).map
        fun frame => { frame, channel := record.channel } := by
  rw [split_candumpLine hc] at hsplit
  rw [parseCandumpLine, if_neg, hsplit]
  · simp only [parseStamp_format hts, parseCandumpFrame_format h, bind, Except.bind]
    cases candumpFrame record.frame (record.frame.timestampNs / 1000 * 1000) <;> rfl
  · rw [hfront]
    rintro (h | h)
    · cases h
    · exact absurd (Option.some.inj h) (by decide)

/-- **A candump line, read back.** -/
theorem parse_format_candump {record : LogRecord} (hc : Word record.channel)
    (h : Wired record.frame) (hts : record.frame.timestampNs < 2 ^ 64) :
    parseCandumpLine (formatCandumpLine record) =
      (candumpFrame record.frame (record.frame.timestampNs / 1000 * 1000)).map
        fun frame => { frame, channel := record.channel } := by
  obtain ⟨rest, htrim⟩ := trim_candumpLine record
  exact parse_candumpWords hc h hts htrim
    (split_trim (not_mem_candumpLine hc (by decide) (by decide)))

/-- **The next record of a candump log.** -/
theorem candump_next {record : LogRecord} (hc : Word record.channel) (h : Wired record.frame)
    (hts : record.frame.timestampNs < 2 ^ 64) (n : ℕ) (lines : List Text) :
    CandumpReader.nextFrom n (formatCandumpLine record :: lines) =
      (((candumpFrame record.frame (record.frame.timestampNs / 1000 * 1000)).map
        fun frame => { frame, channel := record.channel }).mapError (atLine · ((n + 1) % 2 ^ 32)),
        ⟨lines, (n + 1) % 2 ^ 32⟩) := by
  obtain ⟨rest, htrim⟩ := trim_candumpLine record
  obtain ⟨rest', htrim'⟩ := trim_cons (c := ch '(') (by decide) rest
  have hr := not_mem_candumpLine hc (c := ch '\r') (by decide) (by decide)
  have hparse := parse_candumpWords hc h hts (htrim ▸ htrim')
    ((split_trim fun hmem => hr (mem_of_mem_trim hmem)).trans (split_trim hr))
  have hfront : ¬ (trim (formatCandumpLine record) = [] ∨
      (trim (formatCandumpLine record)).head? = some (ch '#')) := by
    rw [htrim]
    rintro (h | h)
    · cases h
    · exact absurd (Option.some.inj h) (by decide)
  rw [CandumpReader.nextFrom]
  simp only [if_neg hfront, hparse]
  cases candumpFrame record.frame (record.frame.timestampNs / 1000 * 1000) <;> rfl

end Transport
end Canforge
