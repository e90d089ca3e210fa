/-
# What survives a text log

A log file of one record, written and read back, in both formats
(`TextFormat.readBack`).  The record of a frame of the checked constructors
comes back as it was (`text_log_roundtrip`).  A raw data length code survives
when it says the length of the payload, which a classic code above 8 does not
(`raw_dlc_survives_iff`).  The error flag survives only in a candump line with
an extended identifier and data (`error_survives_iff`).
-/

import Canforge.Transport.AscLine
import Canforge.Transport.SocketCanFrames

namespace Canforge
namespace Transport

open Canforge.Core

/-- The text formats of `LogFormat`. -/
inductive TextFormat
  | candump
  | asc
  deriving DecidableEq

namespace TextFormat

/-- What the writer of a format leaves in the file after one record and `finish`. -/
def file : TextFormat → LogRecord → Text
  | candump, record => candumpWrite record
  | asc, record => ascHeader ++ ascWrite record ++ ascFinish

/-- The first record the reader of a format returns. -/
def readFirst : TextFormat → Text → Result LogRecord
  | candump, content => (CandumpReader.next { lines := getLines content }).1
  | asc, content => (AscReader.next { lines := getLines content }).1

/-- A record, written and read back. -/
def readBack (format : TextFormat) (record : LogRecord) : Result LogRecord :=
  format.readFirst (format.file record)

/-- What a format makes of a frame. -/
def frame : TextFormat → FdFrame → ℕ → Result FdFrame
  | candump => candumpFrame
  | asc => ascFrame

/-- What a format makes of a record: candump says nothing of the direction. -/
def record : TextFormat → LogRecord → FdFrame → LogRecord
  | candump, r, frame => { frame, channel := r.channel }
  | asc, r, frame => { frame, channel := r.channel, isRx := r.isRx }

/-- The lines of the file before the one of the record. -/
def headerLines : TextFormat → ℕ
  | candump => 0
  | asc => 4

end TextFormat

variable {f : FdFrame} {r : LogRecord}

/-! ### The file -/

theorem mem_toHex_true {bytes : List Byte} {c : Byte} (h : c ∈ toHex true bytes) :
    c = ch ' ' ∨ ∃ b, c ∈ hexByte b := by
  induction bytes with
  | nil => cases h
  | cons b bytes ih =>
    cases bytes with
    | nil => exact .inr ⟨b, h⟩
    | cons b' bytes =>
      have htoHex : toHex true (b :: b' :: bytes) =
          hexByte b ++ ([ch ' '] ++ toHex true (b' :: bytes)) := rfl
      rw [htoHex] at h
      rcases List.mem_append.1 h with h | h
      · exact .inr ⟨b, h⟩
      · rcases List.mem_append.1 h with h | h
        · exact .inl (List.mem_singleton.1 h)
        · exact ih h

/-- What an ASC line says between its words. -/
def ascMarks : List Text :=
  [ascii "  ", ascii "             ", ascii "   r ", ascii "   d ", ascii "CANFD "]

/-- A line has no white space but its blanks. -/
theorem not_mem_ascLine (hc : Word r.channel) {c : Byte} (hspace : isSpace c = true)
    (hne : c ≠ ch ' ') : c ∉ formatAscLine r := by
  have hmarks : ∀ s ∈ ascMarks, c ∉ s := by
    have hall : ∀ s ∈ ascMarks, ∀ c ∈ s, isSpace c = false ∨ c = ch ' ' := by decide
    intro s hs hmem
    rcases hall s hs c hmem with h | h
    · rw [hspace] at h
      cases h
    · exact hne h
  have hhex : c ∉ toHex true r.frame.bytes := by
    intro hmem
    rcases mem_toHex_true hmem with h | ⟨b, h⟩
    · exact hne h
    · exact (word_hexByte b).not_mem hspace h
  have hdec := fun n => (word_dec 1 n).not_mem hspace
  have hid := (word_ascId r.frame).not_mem hspace
  have hsec := (word_formatSeconds r.frame.timestampNs).not_mem hspace
  have hdir := (word_ascDirection r.isRx).not_mem hspace
  have hchan := hc.not_mem hspace
  simp only [ascMarks, List.forall_mem_cons] at hmarks
  unfold formatAscLine
  simp only
  rw [← ascDirection]
  split_ifs
  · simp [hne, hsec, hmarks, hchan, hdir, hid, hdec, hhex]
  · simp [hne, hsec, hmarks, hchan, hdir, hid, hdec]
  · simp [hne, hsec, hmarks, hchan, hdir, hid, hdec, hhex]

/-! ### Reading back -/

theorem ascFrame_code {ts : ℕ} {e : Error} (h : ascFrame f ts = .error e) :
    e.code ≠ .logEndOfFile := by
  have hcode : e.code ∈ frameCodes := by
    unfold ascFrame at h
    split_ifs at h
    · exact make_code h
    · exact makeRemote_code h
    · exact make_code h
  intro hend
  rw [hend] at hcode
  exact absurd hcode (by decide)

theorem getLines_nil : getLines [] = [] := by decide

/-- **The next record of an ASC log.** -/
theorem asc_next_record (hc : ChannelName r.channel) (h : Wired r.frame)
    (hts : r.frame.timestampNs < 2 ^ 64) (n : ℕ) (lines : List Text) :
    AscReader.nextFrom n true (formatAscLine r :: lines) =
      (((ascFrame r.frame (r.frame.timestampNs / 1000 * 1000)).map
        (TextFormat.asc.record r)).mapError (atLine · ((n + 1) % 2 ^ 32)),
        ⟨lines, (n + 1) % 2 ^ 32, true⟩) := by
  obtain ⟨d, hd, rest, hline⟩ := ascLine_cons r
  have hr := not_mem_ascLine hc.word (c := ch '\r') (by decide) (by decide)
  have hsplit := (split_trim hr).trans (split_ascLine hc.word)
  refine asc_next hd hline n lines (parse_format_asc hc h hts hsplit) ?_
  intro e he
  cases hframe : ascFrame r.frame (r.frame.timestampNs / 1000 * 1000) with
  | error e' =>
    rw [hframe] at he
    cases he
    exact ascFrame_code hframe
  | ok frame =>
    rw [hframe] at he
    cases he

/-- A line the ASC reader passes over without leaving the hexadecimal base. -/
def ascSkips (line : Text) : Bool :=
  let trimmed := trim line
  trimmed == [] || (ascii "//").isPrefixOf trimmed ||
    if (ascii "base ").isPrefixOf trimmed then decide (ascii "hex" <:+: trimmed)
    else !(trimmed.head?.map isDigit).getD false

theorem asc_skip {line : Text} (h : ascSkips line = true) (n : ℕ) (lines : List Text) :
    AscReader.nextFrom n true (line :: lines) =
      AscReader.nextFrom ((n + 1) % 2 ^ 32) true lines := by
  unfold ascSkips at h
  rw [AscReader.nextFrom]
  split_ifs with hcomment hbase hdigit
  · rfl
  · rw [not_or] at hcomment
    simp only [hbase, if_true, Bool.or_eq_true, beq_iff_eq, hcomment, Bool.false_eq_true, false_or,
      or_self] at h
    rw [h]
  · rfl
  · rw [not_or] at hcomment
    simp [hbase, hcomment] at h
    simp [h] at hdigit

/-- The lines of `ascHeader`. -/
def ascHeaderLines : List Text :=
  [ascii "date Wed Jan 1 00:00:00 2025", ascii "base hex  timestamps absolute",
    ascii "internal events logged", ascii "// canforge"]

theorem getLines_header (rest : Text) : getLines (ascHeader ++ rest) =
    ascHeaderLines ++ getLines rest := by
  have hheader : ascHeader = ascHeaderLines.flatMap (· ++ [ch '\n']) := by decide
  have hnl : ∀ line ∈ ascHeaderLines, ch '\n' ∉ line := by decide
  rw [hheader]
  generalize ascHeaderLines = header at hnl ⊢
  induction header with
  | nil => rfl
  | cons line header ih =>
    rw [List.flatMap_cons, List.append_assoc, getLines_cons (hnl line List.mem_cons_self),
      ih fun line hline => hnl line (List.mem_cons_of_mem _ hline), List.cons_append]

/-- The lines of the ASC header change nothing. -/
theorem asc_header (lines : List Text) :
    AscReader.nextFrom 0 true (ascHeaderLines ++ lines) = AscReader.nextFrom 4 true lines := by
  have hskip : ∀ line ∈ ascHeaderLines, ascSkips line = true := by decide +kernel
  simp only [ascHeaderLines, List.forall_mem_cons] at hskip
  obtain ⟨hdate, hbase, hinternal, hcomment, -⟩ := hskip
  simp only [ascHeaderLines, List.cons_append, List.nil_append]
  rw [asc_skip hdate, asc_skip hbase, asc_skip hinternal, asc_skip hcomment]
  norm_num

/-- **A record, written and read back.** -/
theorem readBack_eq (format : TextFormat) (hc : ChannelName r.channel) (h : Wired r.frame)
    (hts : r.frame.timestampNs < 2 ^ 64) : format.readBack r =
      ((format.frame r.frame (r.frame.timestampNs / 1000 * 1000)).map (format.record r)).mapError
        (atLine · (format.headerLines + 1)) := by
  unfold TextFormat.readBack
  cases format with
  | candump =>
    have hnl := not_mem_candumpLine hc.word (c := ch '\n') (by decide) (by decide)
    have hlines : getLines (candumpWrite r) = [formatCandumpLine r] := by
      rw [candumpWrite, ← List.append_nil (_ ++ _), getLines_cons hnl, getLines_nil]
    simp only [TextFormat.file, TextFormat.readFirst, CandumpReader.next, hlines,
      candump_next hc.word h hts]
    rfl
  | asc =>
    have hnl := not_mem_ascLine hc.word (c := ch '\n') (by decide) (by decide)
    have hlines : getLines (ascHeader ++ ascWrite r ++ ascFinish) =
        ascHeaderLines ++ formatAscLine r :: getLines ascFinish := by
      rw [List.append_assoc, getLines_header, ascWrite, getLines_cons hnl]
    simp only [TextFormat.file, TextFormat.readFirst, AscReader.next, hlines, asc_header,
      asc_next_record hc h hts]
    rfl

theorem mapError_eq_ok {α : Type} {result : Result α} {g : Error → Error} {a : α} :
    result.mapError g = .ok a ↔ result = .ok a := by
  cases result with
  | error e => exact ⟨fun h => (by cases h), fun h => (by cases h)⟩
  | ok b => exact Iff.rfl

/-- **What comes back**: a record of what the format makes of the frame. -/
theorem readBack_eq_ok_iff {format : TextFormat} (hc : ChannelName r.channel) (h : Wired r.frame)
    (hts : r.frame.timestampNs < 2 ^ 64) {s : LogRecord} : format.readBack r = .ok s ↔
      ∃ g, format.frame r.frame (r.frame.timestampNs / 1000 * 1000) = .ok g ∧
        s = format.record r g := by
  rw [readBack_eq format hc h hts, mapError_eq_ok]
  cases format.frame r.frame (r.frame.timestampNs / 1000 * 1000) with
  | error e => simp [Except.map]
  | ok g => simp [Except.map, eq_comm]

/-! ### Frames without the error flag -/

theorem dlc_of_lengthToDlc {len dlc : ℕ} {fd : Bool}
    (h : lengthToDlc len fd = .ok ⟨dlc, len, 0⟩) : dlc ≤ 15 := by
  have hall : ∀ len : Fin 65, ∀ fd : Bool,
      (lengthToDlc len fd).toOption.all (fun fit => decide (fit.dlc ≤ 15)) = true := by decide
  have hle := le_of_lengthToDlc h
  have hlt : len < 65 := by
    split at hle <;> omega
  have hdlc := hall ⟨len, hlt⟩ fd
  rw [h, Except.toOption, Option.all_some] at hdlc
  exact of_decide_eq_true hdlc

theorem wired_of_make {id : CanId} {bytes : List Byte} {flags : FrameFlags} {ts : ℕ}
    (h : BasicFrame.make 64 id bytes flags ts = .ok f) (hvalid : flags.Valid) : Wired f := by
  obtain ⟨hflags, -, dlc, hfit, rfl⟩ := make_eq_ok_iff.1 h
  exact ⟨hflags, dlc_of_lengthToDlc hfit, hvalid⟩

theorem wired_of_makeRemote {id : CanId} {requested ts : ℕ}
    (h : BasicFrame.makeRemote 64 id requested ts = .ok f) : Wired f := by
  obtain ⟨hle, rfl⟩ := makeRemote_eq_ok_iff.1 h
  have hflags : BasicFrame.validateFlags 64 FrameFlags.rtr = .ok () := by decide
  have hvalid : FrameFlags.rtr.Valid := by decide
  exact ⟨hflags, hle.trans (by decide), hvalid⟩

theorem wired_of_fromWire {id : CanId} {dlc : ℕ} {bytes : List Byte} {flags : FrameFlags} {ts : ℕ}
    (h : BasicFrame.fromWire 64 id dlc bytes flags ts = .ok f) (hvalid : flags.Valid) :
    Wired f := by
  obtain ⟨hflags, hdlc, rfl⟩ := fromWire_eq_ok_iff.1 h
  exact ⟨hflags, hdlc, hvalid⟩

/-- What a text log makes of a frame without the error flag. -/
def plainFrame (f : FdFrame) (ts : ℕ) : Result FdFrame :=
  if f.isRemote then BasicFrame.makeRemote 64 f.id (readAsHex f.dlc) ts
  else BasicFrame.make 64 f.id f.bytes f.flags ts

/-- **Without the error flag both formats say the same.** -/
theorem frame_eq_plainFrame (format : TextFormat) (h : Wired f) (herr : f.isErrorFrame = false)
    (ts : ℕ) : format.frame f ts = plainFrame f ts := by
  have hbit : hasFlag f.flags FrameFlags.error = false := herr
  have hflags : f.isRemote = false → fdFlags f.flags = f.flags := by
    intro hr
    have hdata := dataFlags_eq h.validated h.valid hr
    rw [dataFlags, hbit] at hdata
    simpa [FrameFlags.none] using hdata
  cases format with
  | candump =>
    change candumpFrame f ts = _
    rw [candumpFrame, plainFrame, candumpId, herr, if_neg Bool.false_ne_true]
  | asc =>
    change ascFrame f ts = _
    rw [ascFrame, plainFrame]
    cases hr : f.isRemote with
    | true => rw [h.not_fd_of_remote hr, if_neg Bool.false_ne_true, if_pos rfl, if_pos rfl]
    | false =>
      have hflags := hflags hr
      cases hfd : f.isFd with
      | true => rw [if_pos rfl, if_neg Bool.false_ne_true, hflags]
      | false =>
        have hfd : hasFlag f.flags FrameFlags.fd = false := hfd
        rw [fdFlags, hfd, if_neg Bool.false_ne_true] at hflags
        simp only [Bool.false_eq_true, if_false]
        rw [hflags]

theorem remoteFlags_eq {flags : FrameFlags} (h : BasicFrame.validateFlags 64 flags = .ok ())
    (hvalid : flags.Valid) (herr : hasFlag flags FrameFlags.error = false)
    (hrtr : hasFlag flags FrameFlags.rtr = true) : flags = FrameFlags.rtr := by
  have hall : ∀ flags : FrameFlags, flags.Valid → BasicFrame.validateFlags 64 flags = .ok () →
      hasFlag flags FrameFlags.error = false → hasFlag flags FrameFlags.rtr = true →
      flags = FrameFlags.rtr := by
    decide +kernel
  exact hall flags hvalid h herr hrtr

theorem readAsHex_of_le {n : ℕ} (h : n ≤ 9) : readAsHex n = n := if_pos h

/-- **A frame of the checked constructors is rebuilt.** -/
theorem plainFrame_built (h : Built f) (ts : ℕ) :
    plainFrame f ts = .ok { f with timestampNs := ts } := by
  rw [plainFrame]
  rcases h with ⟨id, bytes, flags, ts₀, hvalid, herr, h⟩ | ⟨id, requested, ts₀, h⟩
  · cases hr : f.isRemote with
    | true =>
      have hdlc := make_dlc_of_isRemote h hr
      obtain ⟨hflags, hrtr, dlc, hfit, rfl⟩ := make_eq_ok_iff.1 h
      obtain rfl : dlc = 0 := hdlc
      obtain rfl : flags = FrameFlags.rtr := remoteFlags_eq hflags hvalid herr hr
      obtain rfl : bytes = [] := hrtr hr
      rfl
    | false => exact make_again h ts
  · obtain ⟨hr, -⟩ := makeRemote_isRemote h
    obtain ⟨hle, rfl⟩ := makeRemote_eq_ok_iff.1 h
    have hread : readAsHex requested = requested := readAsHex_of_le (by omega)
    rw [hr, if_pos rfl]
    dsimp only
    rw [hread]
    exact makeRemote_eq_ok_iff.2 ⟨hle, rfl⟩

theorem wired_of_built (h : Built f) : Wired f ∧ f.isErrorFrame = false := by
  rcases h with ⟨id, bytes, flags, ts, hvalid, herr, h⟩ | ⟨id, requested, ts, h⟩
  · obtain ⟨-, hflags, -⟩ := make_id h
    refine ⟨wired_of_make h hvalid, ?_⟩
    rw [BasicFrame.isErrorFrame, hflags, herr]
  · obtain ⟨-, -, -, hflags⟩ := makeRemote_isRemote h
    refine ⟨wired_of_makeRemote h, ?_⟩
    rw [BasicFrame.isErrorFrame, hflags]
    decide

/-! ### The round trip -/

/-- **A record of a checked frame survives both text formats.** -/
theorem text_log_roundtrip (hbuilt : Built r.frame) (hc : ChannelName r.channel)
    (hus : 1000 ∣ r.frame.timestampNs) (hts : r.frame.timestampNs < 2 ^ 64) :
    (r.isRx = true → parseCandumpLine (formatCandumpLine r) = .ok r) ∧
      (∀ n lines, AscReader.nextFrom n true (formatAscLine r :: lines) =
        (.ok r, ⟨lines, (n + 1) % 2 ^ 32, true⟩)) ∧
      ∀ format : TextFormat, (format = .candump → r.isRx = true) →
        format.readBack r = .ok r := by
  obtain ⟨hwired, herr⟩ := wired_of_built hbuilt
  have hstamp : r.frame.timestampNs / 1000 * 1000 = r.frame.timestampNs := Nat.div_mul_cancel hus
  have hframe : ∀ format : TextFormat,
      format.frame r.frame (r.frame.timestampNs / 1000 * 1000) = .ok r.frame := by
    intro format
    rw [frame_eq_plainFrame format hwired herr, plainFrame_built hbuilt, hstamp]
  have hcandump : candumpFrame r.frame (r.frame.timestampNs / 1000 * 1000) = .ok r.frame :=
    hframe .candump
  have hasc : ascFrame r.frame (r.frame.timestampNs / 1000 * 1000) = .ok r.frame := hframe .asc
  refine ⟨fun hrx => ?_, fun n lines => ?_, fun format hrx => ?_⟩
  · rw [parse_format_candump hc.word hwired hts, hcandump, Except.map, ← hrx]
  · rw [asc_next_record hc hwired hts, hasc]
    rfl
  · refine (readBack_eq_ok_iff hc hwired hts).2 ⟨r.frame, hframe format, ?_⟩
    cases format with
    | candump => rw [TextFormat.record, ← hrx rfl]
    | asc => rfl

theorem text_log_roundtrip_one :
    let r : LogRecord := { frame := ⟨1000, ⟨0x123, CanId.inRange_standard⟩, 2, FrameFlags.none,
      BasicFrame.store 64 [0xDE, 0xAD], BasicFrame.store_length _ _⟩ }
    Built r.frame ∧ ChannelName r.channel ∧ 1000 ∣ r.frame.timestampNs ∧
      TextFormat.asc.readBack r = .ok r := by
  intro r
  have hbuilt : Built r.frame :=
    .inl ⟨⟨0x123, CanId.inRange_standard⟩, [0xDE, 0xAD], FrameFlags.none, 1000, by decide, by decide, rfl⟩
  have hname : ChannelName r.channel := ⟨⟨by decide, by decide⟩, by decide⟩
  have hread := (text_log_roundtrip hbuilt hname ⟨1, rfl⟩ (by decide)).2.2
  exact ⟨hbuilt, hname, ⟨1, rfl⟩, hread .asc nofun⟩

/-! ### The raw data length code -/

/-- The payload of a data frame makes a frame again, with the code of its length. -/
theorem make_of_wired (h : Wired f) (hr : f.isRemote = false) (id : CanId) (ts : ℕ) :
    ∃ dlc, (dlc = f.dlc ↔ f.isFd = true ∨ f.dlc ≤ 8) ∧
      BasicFrame.make 64 id f.bytes f.flags ts =
        .ok ⟨ts, id, dlc, f.flags, BasicFrame.store 64 f.bytes, BasicFrame.store_length _ _⟩ := by
  have hrtr : hasFlag f.flags FrameFlags.rtr = false := hr
  have hempty : hasFlag f.flags FrameFlags.rtr = true → f.bytes = [] := by
    rw [hrtr]
    exact nofun
  have hsize : f.bytes.length = dlcToLength f.dlc f.isFd := by
    rw [h.bytes_length, BasicFrame.size, hr, if_neg Bool.false_ne_true]
  have hdlc := h.dlc
  by_cases hcode : f.isFd = true ∨ f.dlc ≤ 8
  · have hfit := lengthToDlc_dlcToLength hdlc hcode
    rw [← hsize] at hfit
    exact ⟨f.dlc, ⟨fun _ => hcode, fun _ => rfl⟩,
      make_eq_ok_iff.2 ⟨h.validated, hempty, f.dlc, hfit, rfl⟩⟩
  · rw [not_or, Bool.not_eq_true] at hcode
    obtain ⟨hfd, hlong⟩ := hcode
    have hfit : lengthToDlc f.bytes.length f.isFd = .ok ⟨8, f.bytes.length, 0⟩ := by
      have height : f.bytes.length = 8 := by
        rw [hsize, hfd, dlcToLength, if_neg (by omega), if_neg Bool.false_ne_true,
          if_pos (by omega)]
      rw [height, hfd]
      decide
    refine ⟨8, ⟨fun heq => .inr (by omega), ?_⟩,
      make_eq_ok_iff.2 ⟨h.validated, hempty, 8, hfit, rfl⟩⟩
    rintro (hfd' | hle)
    · rw [hfd] at hfd'
      cases hfd'
    · exact absurd hle hlong

/-- **The code survives when it is the one of the payload's length.** -/
theorem plainFrame_dlc (h : Wired f) (ts : ℕ) :
    (∃ g, plainFrame f ts = .ok g ∧ g.id = f.id ∧ g.bytes = f.bytes ∧ g.dlc = f.dlc) ↔
      f.isFd = true ∨ f.dlc ≤ 8 := by
  rw [plainFrame]
  cases hr : f.isRemote with
  | true =>
    have hfd := h.not_fd_of_remote hr
    rw [if_pos rfl, hfd]
    simp only [Bool.false_eq_true, false_or]
    constructor
    · rintro ⟨g, hg, -, -, hdlc⟩
      obtain ⟨hle, rfl⟩ := makeRemote_eq_ok_iff.1 hg
      exact hdlc ▸ hle
    · intro hle
      have hread : readAsHex f.dlc = f.dlc := readAsHex_of_le (by omega)
      rw [hread]
      refine ⟨_, makeRemote_eq_ok_iff.2 ⟨hle, rfl⟩, rfl, ?_, rfl⟩
      rw [bytes_of_isRemote hr]
      have hrtr : hasFlag FrameFlags.rtr FrameFlags.rtr = true := by decide
      exact bytes_of_isRemote hrtr
  | false =>
    obtain ⟨dlc, hcode, hmake⟩ := make_of_wired h hr f.id ts
    rw [if_neg Bool.false_ne_true, ← hcode]
    constructor
    · rintro ⟨g, hg, -, -, hdlc⟩
      rw [hmake] at hg
      cases hg
      exact hdlc
    · intro hdlc
      exact ⟨_, hmake, rfl, make_bytes hmake, hdlc⟩

/-- **The raw data length code survives a text log** if and only if the frame is CAN FD or its
code is at most 8. -/
theorem raw_dlc_survives_iff {id : CanId} {dlc : ℕ} {bytes : List Byte} {flags : FrameFlags}
    {ts : ℕ} (hwire : BasicFrame.fromWire 64 id dlc bytes flags ts = .ok r.frame)
    (hvalid : flags.Valid) (herr : hasFlag flags FrameFlags.error = false)
    (hc : ChannelName r.channel) (hts : ts < 2 ^ 64) (format : TextFormat) :
    (∃ s, format.readBack r = .ok s ∧ s.frame.id = r.frame.id ∧ s.frame.bytes = r.frame.bytes ∧
      s.frame.dlc = r.frame.dlc) ↔ hasFlag flags FrameFlags.fd = true ∨ dlc ≤ 8 := by
  have hwired := wired_of_fromWire hwire hvalid
  obtain ⟨-, -, hframe⟩ := fromWire_eq_ok_iff.1 hwire
  have hts' : r.frame.timestampNs < 2 ^ 64 := by
    rw [hframe]
    exact hts
  have herr' : r.frame.isErrorFrame = false := by
    rw [hframe]
    exact herr
  have hcond : (r.frame.isFd = true ∨ r.frame.dlc ≤ 8) ↔
      (hasFlag flags FrameFlags.fd = true ∨ dlc ≤ 8) := by
    rw [hframe]
    exact Iff.rfl
  rw [← hcond, ← plainFrame_dlc hwired (r.frame.timestampNs / 1000 * 1000)]
  constructor
  · rintro ⟨s, hs, hsame⟩
    obtain ⟨g, hg, rfl⟩ := (readBack_eq_ok_iff hc hwired hts').1 hs
    rw [frame_eq_plainFrame format hwired herr'] at hg
    cases format <;> exact ⟨g, hg, hsame⟩
  · rintro ⟨g, hg, hsame⟩
    rw [← frame_eq_plainFrame format hwired herr'] at hg
    refine ⟨_, (readBack_eq_ok_iff hc hwired hts').2 ⟨g, hg, rfl⟩, ?_⟩
    cases format <;> exact hsame

/-- A record of the frame with identifier `0x123`, eight zero bytes and the raw code `dlc`. -/
def eightBytes (dlc : ℕ) (flags : FrameFlags) : LogRecord where
  frame := ⟨0, ⟨0x123, CanId.inRange_standard⟩, dlc, flags, BasicFrame.store 64 (List.replicate 8 0),
    BasicFrame.store_length _ _⟩

theorem raw_dlc_survives_eight :
    ∃ s, TextFormat.candump.readBack (eightBytes 8 FrameFlags.none) = .ok s ∧
      s.frame.id = (eightBytes 8 FrameFlags.none).frame.id ∧
      s.frame.bytes = (eightBytes 8 FrameFlags.none).frame.bytes ∧
      s.frame.dlc = (eightBytes 8 FrameFlags.none).frame.dlc := by
  have hwire : BasicFrame.fromWire 64 ⟨0x123, CanId.inRange_standard⟩ 8 (List.replicate 8 0)
      FrameFlags.none 0 = .ok (eightBytes 8 FrameFlags.none).frame := rfl
  exact (raw_dlc_survives_iff hwire (by decide) (by decide) ⟨⟨by decide, by decide⟩, by decide⟩
    (by decide) .candump).2 (.inr (by decide))

/-- **A raw code of 15 with eight bytes comes back as 8**, in both formats. -/
theorem raw_dlc_lost :
    BasicFrame.fromWire 64 ⟨0x123, CanId.inRange_standard⟩ 15 (List.replicate 8 0) FrameFlags.none 0 =
        .ok (eightBytes 15 FrameFlags.none).frame ∧
      (eightBytes 15 FrameFlags.none).frame.dlc = 15 ∧
      ∀ format : TextFormat,
        (format.readBack (eightBytes 15 FrameFlags.none)).map (·.frame.dlc) = .ok 8 := by
  refine ⟨rfl, rfl, fun format => ?_⟩
  cases format
  · decide +kernel
  · decide +kernel

/-! ### Error frames -/

/-- An error frame of an ASC file is read back without its flag. -/
theorem ascFrame_error {ts : ℕ} {g : FdFrame} (h : ascFrame f ts = .ok g) :
    g.isErrorFrame = false := by
  have hfdFlags : ∀ flags : FrameFlags, hasFlag (fdFlags flags) FrameFlags.error = false := by
    decide +kernel
  unfold BasicFrame.isErrorFrame
  unfold ascFrame at h
  split_ifs at h
  · rw [(make_id h).2.1]
    exact hfdFlags f.flags
  · rw [(makeRemote_isRemote h).2.2.2]
    decide
  · rw [(make_id h).2.1]
    decide

theorem candumpId_error (herr : f.isErrorFrame = true) :
    (candumpId f).isExtended = true ∧ (candumpId f).value = f.id.value := by
  have hle : f.id.value ≤ kExtendedIdMax := by
    have hv := value_lt f.id
    rw [BitVec.le_def]
    change f.id.value.toNat ≤ 2 ^ 29 - 1
    omega
  have hpacked : (candumpId f).packed = f.id.value ||| kEffFlag := by
    rw [candumpId, if_pos herr]
  have hnat := CanId.or_kEffFlag_toNat hle
  have hv := value_lt f.id
  refine ⟨(CanId.isExtended_iff _).2 ?_, BitVec.eq_of_toNat_eq ?_⟩
  · rw [hpacked, hnat]
    omega
  · rw [CanId.value_toNat, hpacked, hnat]
    omega

/-- **What a candump line keeps of an error frame.** -/
theorem candumpFrame_error (h : Wired f) (herr : f.isErrorFrame = true) (ts : ℕ) :
    (∃ g, candumpFrame f ts = .ok g ∧ g.isErrorFrame = true ∧ g.id.value = f.id.value ∧
      g.id.isExtended = f.id.isExtended ∧ g.bytes = f.bytes) ↔
      f.id.isExtended = true ∧ f.isRemote = false := by
  obtain ⟨hext, hvalue⟩ := candumpId_error herr
  rw [candumpFrame]
  cases hr : f.isRemote with
  | true =>
    rw [if_pos rfl]
    simp only [Bool.true_eq_false, and_false, iff_false]
    rintro ⟨g, hg, hflag, -⟩
    rw [BasicFrame.isErrorFrame, (makeRemote_isRemote hg).2.2.2] at hflag
    exact absurd hflag (by decide)
  | false =>
    obtain ⟨dlc, -, hmake⟩ := make_of_wired h hr (candumpId f) ts
    rw [if_neg Bool.false_ne_true, and_iff_left rfl]
    constructor
    · rintro ⟨g, hg, -, -, hformat, -⟩
      rw [← hformat, (make_id hg).1, hext]
    · intro hid
      exact ⟨_, hmake, herr, hvalue, hext.trans hid.symm, make_bytes hmake⟩

/-- **The error flag survives** if and only if the format is candump, the identifier extended and
the frame a data frame. -/
theorem error_survives_iff (h : Wired r.frame) (herr : r.frame.isErrorFrame = true)
    (hc : ChannelName r.channel) (hts : r.frame.timestampNs < 2 ^ 64) (format : TextFormat) :
    (∃ s, format.readBack r = .ok s ∧ s.frame.isErrorFrame = true ∧
      s.frame.id.value = r.frame.id.value ∧ s.frame.id.isExtended = r.frame.id.isExtended ∧
      s.frame.bytes = r.frame.bytes) ↔
      format = .candump ∧ r.frame.id.isExtended = true ∧ r.frame.isRemote = false := by
  cases format with
  | candump =>
    rw [and_iff_right rfl, ← candumpFrame_error h herr (r.frame.timestampNs / 1000 * 1000)]
    constructor
    · rintro ⟨s, hs, hsame⟩
      obtain ⟨g, hg, rfl⟩ := (readBack_eq_ok_iff hc h hts).1 hs
      exact ⟨g, hg, hsame⟩
    · rintro ⟨g, hg, hsame⟩
      exact ⟨_, (readBack_eq_ok_iff hc h hts).2 ⟨g, hg, rfl⟩, hsame⟩
  | asc =>
    constructor
    · rintro ⟨s, hs, hflag, -⟩
      obtain ⟨g, hg, rfl⟩ := (readBack_eq_ok_iff hc h hts).1 hs
      have hlost : g.isErrorFrame = false := ascFrame_error hg
      exact absurd hflag (by rw [TextFormat.record, hlost]; exact Bool.false_ne_true)
    · rintro ⟨hformat, -⟩
      cases hformat

/-- A record of an error frame of the driver, with an extended identifier. -/
def driverError : LogRecord where
  frame := ⟨0, ⟨0x80000004, CanId.inRange_extended⟩, 8, FrameFlags.error,
    BasicFrame.store 64 (List.replicate 8 0), BasicFrame.store_length _ _⟩

theorem error_survives_extended :
    ∃ s, TextFormat.candump.readBack driverError = .ok s ∧ s.frame.isErrorFrame = true ∧
      s.frame.id.value = driverError.frame.id.value ∧
      s.frame.id.isExtended = driverError.frame.id.isExtended ∧
      s.frame.bytes = driverError.frame.bytes :=
  (error_survives_iff ⟨by decide, by decide, by decide⟩ (by decide)
    ⟨⟨by decide, by decide⟩, by decide⟩ (by decide) .candump).2 ⟨rfl, by decide, by decide⟩

/-- **The flag is lost in an ASC file, and a standard identifier in a candump line.** -/
theorem error_lost :
    driverError.frame.isErrorFrame = true ∧
      (TextFormat.asc.readBack driverError).map (·.frame.isErrorFrame) = .ok false ∧
      (eightBytes 8 FrameFlags.error).frame.id.isExtended = false ∧
      (TextFormat.candump.readBack (eightBytes 8 FrameFlags.error)).map
        (·.frame.id.isExtended) = .ok true := by
  refine ⟨by decide, ?_, by decide, ?_⟩
  · decide +kernel
  · decide +kernel

end Transport
end Canforge
