/-
# Frames across a SocketCAN socket

The structure `send` fills in is read back by `receive` as the frame that was
sent (`decode_toNative`), except for the length of a remote frame: `send` writes
the number of payload bytes, which is zero, and `receive` gives the length to
`make`, which refuses a remote frame with bytes.
-/

import Canforge.Core.FrameBuild
import Canforge.Transport.KernelFilters

namespace Canforge
namespace Transport

open Canforge.Core

variable {f : FdFrame} {ts : ℕ}

/-! ### The identifier word -/

/-- The identifier word `send` fills in. -/
def sentId (f : FdFrame) : BitVec 32 :=
  f.id.packed ||| (if f.isRemote then kRtrFlag else 0) ||| (if f.isErrorFrame then kErrFlag else 0)

/-- The flag byte `send` fills in for CAN FD. -/
def sentFlags (f : FdFrame) : Byte :=
  canfdFdf ||| (if f.isBrs then canfdBrs else 0) ||| (if f.isEsi then canfdEsi else 0)

theorem toNative_eq (f : FdFrame) : toNative f =
    if f.isFd then
      .canfd (sentId f) (BitVec.ofNat 8 f.size) (sentFlags f) (BasicFrame.store 64 f.bytes)
    else .can (sentId f) (BitVec.ofNat 8 f.size) (BasicFrame.store 8 f.bytes) := by
  unfold toNative sentId sentFlags
  cases f.isFd <;> cases f.isRemote <;> cases f.isErrorFrame <;> simp

theorem sentId_getLsbD (i : ℕ) : (sentId f).getLsbD i =
    (f.id.packed.getLsbD i || (f.isRemote && decide (30 = i)) ||
      (f.isErrorFrame && decide (29 = i))) := by
  have hrtr : kRtrFlag = BitVec.twoPow 32 30 := rfl
  have herr : kErrFlag = BitVec.twoPow 32 29 := rfl
  unfold sentId
  rw [BitVec.getLsbD_or, BitVec.getLsbD_or]
  cases f.isRemote <;> cases f.isErrorFrame <;> simp [hrtr, herr, BitVec.getLsbD_twoPow]

/-- Without the two marks of the socket the word is the packed identifier. -/
theorem sentId_and : sentId f &&& (kExtendedIdMax ||| kEffFlag) = f.id.packed := by
  obtain ⟨h29, h30⟩ := CanId.packed_getLsbD_flags f.id
  have heff : kEffFlag = BitVec.twoPow 32 31 := rfl
  refine BitVec.eq_of_getLsbD_eq fun i hi => ?_
  rw [BitVec.getLsbD_and, sentId_getLsbD, BitVec.getLsbD_or, kExtendedIdMax_getLsbD, heff,
    BitVec.getLsbD_twoPow]
  rcases Nat.lt_or_ge i 29 with h | h
  · grind
  · obtain rfl | rfl | rfl : i = 29 ∨ i = 30 ∨ i = 31 := by omega
    all_goals grind

theorem sentId_rtr : sentId f &&& kRtrFlag ≠ 0 ↔ f.isRemote = true := by
  obtain ⟨h29, h30⟩ := CanId.packed_getLsbD_flags f.id
  have hbit : kRtrFlag = BitVec.twoPow 32 30 := rfl
  rw [hbit, BitVec.and_twoPow, sentId_getLsbD, h30]
  cases f.isRemote <;> cases f.isErrorFrame <;> decide

theorem sentId_err : sentId f &&& kErrFlag ≠ 0 ↔ f.isErrorFrame = true := by
  obtain ⟨h29, h30⟩ := CanId.packed_getLsbD_flags f.id
  have hbit : kErrFlag = BitVec.twoPow 32 29 := rfl
  rw [hbit, BitVec.and_twoPow, sentId_getLsbD, h29]
  cases f.isRemote <;> cases f.isErrorFrame <;> decide

/-! ### The flags -/

/-- A union of the enumerators is the union of those it contains. -/
theorem FrameFlags.eq_union : ∀ flags : FrameFlags, flags.Valid → flags =
    (if hasFlag flags FrameFlags.error then FrameFlags.error else FrameFlags.none) |||
      (if hasFlag flags FrameFlags.rtr then FrameFlags.rtr else FrameFlags.none) |||
      (if hasFlag flags FrameFlags.fd then FrameFlags.fd else FrameFlags.none) |||
      (if hasFlag flags FrameFlags.brs then FrameFlags.brs else FrameFlags.none) |||
      (if hasFlag flags FrameFlags.esi then FrameFlags.esi else FrameFlags.none) := by
  decide +kernel

theorem sentFlags_brs : sentFlags f &&& canfdBrs ≠ 0 ↔ f.isBrs = true := by
  unfold sentFlags
  cases f.isBrs <;> cases f.isEsi <;> decide

theorem sentFlags_esi : sentFlags f &&& canfdEsi ≠ 0 ↔ f.isEsi = true := by
  unfold sentFlags
  cases f.isBrs <;> cases f.isEsi <;> decide

/-- **`receive` reads the flags `send` wrote.** -/
theorem toNative_frameFlags (hvalid : f.flags.Valid)
    (hok : BasicFrame.validateFlags 64 f.flags = .ok ()) :
    (toNative f).frameFlags = f.flags := by
  obtain ⟨hfd, hclassic⟩ := validateFlags_eq_ok_iff.1 hok
  have hunion := FrameFlags.eq_union f.flags hvalid
  rw [toNative_eq]
  cases h : f.isFd with
  | true =>
    have hrtr := hfd h
    rw [if_pos rfl, Native.frameFlags]
    simp only [sentId_err, sentFlags_brs, sentFlags_esi]
    unfold BasicFrame.isErrorFrame BasicFrame.isBrs BasicFrame.isEsi
    rw [hrtr, if_neg Bool.false_ne_true, show hasFlag f.flags FrameFlags.fd = true from h,
      if_pos rfl] at hunion
    conv_rhs => rw [hunion]
    congr 3
    exact (BitVec.or_zero).symm
  | false =>
    obtain ⟨hbrs, hesi⟩ := hclassic h
    rw [if_neg Bool.false_ne_true, Native.frameFlags]
    simp only [sentId_err, sentId_rtr]
    unfold BasicFrame.isErrorFrame BasicFrame.isRemote
    rw [hbrs, hesi, show hasFlag f.flags FrameFlags.fd = false from h] at hunion
    simp only [if_neg Bool.false_ne_true] at hunion
    have hnone : ∀ x : FrameFlags, x ||| FrameFlags.none = x := fun x => BitVec.or_zero
    rw [hnone, hnone, hnone] at hunion
    exact hunion.symm

/-! ### The round trip -/

theorem toNative_canId (f : FdFrame) : (toNative f).canId = sentId f := by
  rw [toNative_eq]
  cases f.isFd <;> rfl

theorem toNative_length (hsize : f.size ≤ 64) : (toNative f).length = f.size := by
  have hmod : (BitVec.ofNat 8 f.size).toNat = f.size := by
    rw [BitVec.toNat_ofNat, Nat.mod_eq_of_lt (by omega)]
  rw [toNative_eq]
  cases f.isFd <;> exact hmod

/-- The payload as `receive` cuts it out of the structure. -/
theorem toNative_data (hlen : f.bytes.length = f.size) (hsize : f.size ≤ 64)
    (hclassic : f.isFd = false → f.size ≤ 8) :
    ((toNative f).data ++ List.replicate 256 0).take f.size = f.bytes := by
  have hcut : ∀ capacity, f.size ≤ capacity →
      (BasicFrame.store capacity f.bytes ++ List.replicate 256 0).take f.size = f.bytes := by
    intro capacity hle
    rw [BasicFrame.store, List.take_append_of_le_length (by simp; omega), List.take_take,
      min_eq_left hle, ← hlen, List.take_left]
  rw [toNative_eq]
  cases h : f.isFd with
  | true => exact hcut 64 hsize
  | false => exact hcut 8 (hclassic h)

/-- What `receive` does with the structure `send` fills in: it makes the frame of the
identifier, the flags and the payload bytes. -/
theorem decode_toNative (hvalid : f.flags.Valid)
    (hok : BasicFrame.validateFlags 64 f.flags = .ok ()) (hlen : f.bytes.length = f.size)
    (hsize : f.size ≤ 64) (hclassic : f.isFd = false → f.size ≤ 8) :
    (toNative f).decode ts = BasicFrame.make 64 f.id f.bytes f.flags ts := by
  unfold Native.decode
  rw [toNative_canId, sentId_and, CanId.fromPacked_packed, toNative_length hsize,
    toNative_data hlen hsize hclassic, toNative_frameFlags hvalid hok]
  rfl

/-- The data and remote frames of the checked constructors. -/
def Built (f : FdFrame) : Prop :=
  (∃ id bytes flags ts, flags.Valid ∧ hasFlag flags FrameFlags.error = false ∧
    BasicFrame.make 64 id bytes flags ts = .ok f) ∨
  ∃ id requested ts, BasicFrame.makeRemote 64 id requested ts = .ok f

/-- A frame of `make` comes back as it was. -/
theorem decode_toNative_make {id : CanId} {bytes : List Byte} {flags : FrameFlags} {ts₀ : ℕ}
    (hvalid : flags.Valid) (h : BasicFrame.make 64 id bytes flags ts₀ = .ok f) (ts : ℕ) :
    (toNative f).decode ts = .ok { f with timestampNs := ts } := by
  obtain ⟨hid, hflags, -⟩ := make_id h
  obtain ⟨hok, -, dlc, hfit, -⟩ := make_eq_ok_iff.1 h
  have hbytes := make_bytes h
  have hsize := make_size h
  have hle := le_of_lengthToDlc hfit
  rw [decode_toNative (hflags ▸ hvalid) (hflags ▸ hok) (by rw [hbytes, hsize])
    (hsize ▸ make_length_le h) fun hfd => ?_]
  · exact make_again h ts
  · have hclassic : hasFlag flags FrameFlags.fd = false := hflags ▸ hfd
    rw [hclassic, if_neg Bool.false_ne_true] at hle
    omega

/-- A remote frame comes back without the length it requests. -/
theorem decode_toNative_makeRemote {id : CanId} {requested ts₀ : ℕ}
    (h : BasicFrame.makeRemote 64 id requested ts₀ = .ok f) (ts : ℕ) :
    (toNative f).decode ts = .ok { f with dlc := 0, timestampNs := ts } := by
  obtain ⟨hremote, -, -, hflags⟩ := makeRemote_isRemote h
  have hvalid : FrameFlags.rtr.Valid := by decide
  have hok : BasicFrame.validateFlags 64 FrameFlags.rtr = .ok () := by decide
  have hzero := size_of_isRemote hremote
  have hnil := bytes_of_isRemote hremote
  rw [decode_toNative (hflags ▸ hvalid) (hflags ▸ hok) (by rw [hnil, hzero, List.length_nil])
    (by omega) fun _ => by omega, hnil]
  obtain ⟨-, rfl⟩ := makeRemote_eq_ok_iff.1 h
  have hdlc : lengthToDlc 0 (hasFlag FrameFlags.rtr FrameFlags.fd) = .ok ⟨0, 0, 0⟩ := by decide
  exact make_eq_ok_iff.2 ⟨hok, fun _ => rfl, 0, hdlc, rfl⟩

/-- The kernel's identifier words have an identifier. -/
theorem fromPacked_isOk {canId : BitVec 32}
    (hid : canId &&& kEffFlag = 0 → canId &&& kExtendedIdMax ≤ kStandardIdMax) :
    ∃ id, CanId.fromPacked (canId &&& (kExtendedIdMax ||| kEffFlag)) = .ok id := by
  have hext : canId &&& (kExtendedIdMax ||| kEffFlag) &&& kExtendedIdMax
      = canId &&& kExtendedIdMax := by
    rw [BitVec.and_assoc]
    rfl
  have heff : canId &&& (kExtendedIdMax ||| kEffFlag) &&& kEffFlag = canId &&& kEffFlag := by
    rw [BitVec.and_assoc]
    rfl
  have hle : canId &&& kExtendedIdMax ≤ kExtendedIdMax := by
    rw [BitVec.le_def, BitVec.toNat_and]
    exact Nat.and_le_right
  unfold CanId.fromPacked
  rw [hext, heff]
  by_cases h : canId &&& kEffFlag = 0
  · rw [if_neg (not_not.2 h), CanId.standard, dif_pos (hid h)]
    exact ⟨_, rfl⟩
  · rw [if_pos h, CanId.extended, dif_pos hle]
    exact ⟨_, rfl⟩

theorem decode_remote_iff {canId : BitVec 32} {canDlc : Byte} {data : List Byte}
    (hrtr : canId &&& kRtrFlag ≠ 0)
    (hid : canId &&& kEffFlag = 0 → canId &&& kExtendedIdMax ≤ kStandardIdMax) :
    (∃ g, (Native.can canId canDlc data).decode ts = .ok g) ↔ canDlc = 0 := by
  obtain ⟨id, hpacked⟩ := fromPacked_isOk hid
  have hflags : hasFlag (Native.can canId canDlc data).frameFlags FrameFlags.rtr = true ∧
      BasicFrame.validateFlags 64 (Native.can canId canDlc data).frameFlags = .ok () ∧
        hasFlag (Native.can canId canDlc data).frameFlags FrameFlags.fd = false := by
    rw [Native.frameFlags, if_pos hrtr]
    split_ifs <;> decide
  obtain ⟨hremote, hvalid, hfd⟩ := hflags
  unfold Native.decode
  rw [show (Native.can canId canDlc data).canId = canId from rfl, hpacked]
  constructor
  · rintro ⟨g, hg⟩
    obtain ⟨-, hnil, -⟩ := make_eq_ok_iff.1 hg
    have hlen := congrArg List.length (hnil hremote)
    have hlt := canDlc.isLt
    rw [List.length_take, List.length_append, List.length_replicate, List.length_nil] at hlen
    have hdlc : (Native.can canId canDlc data).length = canDlc.toNat := rfl
    have hzero : canDlc.toNat = (0 : Byte).toNat := by
      rw [show (0 : Byte).toNat = 0 from rfl]
      omega
    exact BitVec.eq_of_toNat_eq hzero
  · rintro rfl
    exact ⟨_, make_eq_ok_iff.2 ⟨hvalid, fun _ => rfl, 0, hfd ▸ rfl, rfl⟩⟩

/-- **A frame survives the socket unless it requests a length,** and a remote frame is received
only when it requests none. -/
theorem native_roundtrip_iff (f : FdFrame) (canId : BitVec 32) (canDlc : Byte) (data : List Byte)
    (ts : ℕ) :
    (Built f → ((∃ g, (toNative f).decode ts = .ok g ∧ g.Same f) ↔
      (f.isRemote = true → f.dlc = 0))) ∧
    (canId &&& kRtrFlag ≠ 0 → (canId &&& kEffFlag = 0 → canId &&& kExtendedIdMax ≤ kStandardIdMax) →
      data.length = 8 → canDlc ≤ 8 →
        ((∃ g, (Native.can canId canDlc data).decode ts = .ok g) ↔ canDlc = 0)) := by
  refine ⟨fun hf => ?_, fun hrtr hid _ _ => decode_remote_iff hrtr hid⟩
  rcases hf with ⟨id, bytes, flags, ts₀, hvalid, -, h⟩ | ⟨id, requested, ts₀, h⟩
  · refine ⟨fun _ hr => make_dlc_of_isRemote h hr, fun _ => ?_⟩
    exact ⟨_, decode_toNative_make hvalid h ts, rfl, rfl, rfl, rfl⟩
  · obtain ⟨hremote, -⟩ := makeRemote_isRemote h
    rw [decode_toNative_makeRemote h ts]
    constructor
    · rintro ⟨g, hg, -, hdlc, -⟩ -
      rw [← hdlc, ← Except.ok.inj hg]
    · intro hdlc
      exact ⟨_, rfl, rfl, (hdlc hremote).symm, rfl, rfl⟩

theorem native_roundtrip_data :
    let f : FdFrame := ⟨0, ⟨0x123, by decide⟩, 1, FrameFlags.none, BasicFrame.store 64 [0xAB],
      BasicFrame.store_length 64 _⟩
    (∃ g, (toNative f).decode 5 = .ok g ∧ g.Same f) ∧
      ∃ g, (Native.can 0x40000123 0 (List.replicate 8 0)).decode 5 = .ok g := by
  intro f
  have hbuilt : Built f :=
    .inl ⟨⟨0x123, by decide⟩, [0xAB], FrameFlags.none, 0, by decide, by decide,
      make_eq_ok_iff.2 ⟨by decide, fun _ => by contradiction, 1, by decide, rfl⟩⟩
  have hexact := native_roundtrip_iff f 0x40000123 0 (List.replicate 8 0) 5
  exact ⟨(hexact.1 hbuilt).2 (by decide),
    (hexact.2 (by decide) (by decide) (by decide) (by decide)).2 rfl⟩

/-- A remote frame that requests four bytes comes back requesting none, and the kernel's remote
frame with length four is refused. -/
theorem remote_length_lost :
    (match BasicFrame.makeRemote 64 ⟨0x123, by decide⟩ 4 with
      | .error _ => false
      | .ok f =>
        match (toNative f).decode 0 with
        | .error _ => false
        | .ok g => decide (¬g.Same f ∧ g.dlc = 0)) = true ∧
      (match (Native.can 0x40000123 4 (List.replicate 8 0)).decode 0 with
      | .error e => decide (e.code = .frameBadFlags)
      | .ok _ => false) = true := by
  decide +kernel

end Transport
end Canforge
