/-
# What the constructors of a frame build

`make_eq_ok_iff` says which arguments `BasicFrame::make` accepts and what it
builds from them, `fromWire_eq_ok_iff` the same for `from_wire`, for the
capacity of CAN FD.  A frame that was made holds the bytes it was made of, and
making it again from them gives it back (`make_bytes`).
-/

import Canforge.Core.Frame

namespace Canforge
namespace Core

variable {id : CanId} {bytes : List Byte} {flags : FrameFlags} {ts dlc : ℕ} {f : FdFrame}

theorem unpadded_fit :
    ∀ len : Fin 65, ∀ fd : Bool, (lengthToDlc len fd).toOption.all
      (fun fit => decide (fit.padding = 0 →
        fit.length = (len : ℕ) ∧ dlcToLength fit.dlc fd = (len : ℕ))) =
        true := by
  decide

theorem le_of_lengthToDlc {len : ℕ} {fd : Bool} {fit : DlcFit} (h : lengthToDlc len fd = .ok fit) :
    len ≤ if fd then 64 else 8 := by
  by_contra! hlt
  unfold lengthToDlc at h
  dsimp only at h
  rw [if_pos hlt] at h
  cases h

/-- A code without padding stands for the length it was chosen for. -/
theorem fit_of_lengthToDlc {len : ℕ} {fd : Bool} {fit : DlcFit}
    (h : lengthToDlc len fd = .ok fit) (hpad : fit.padding = 0) :
    fit = ⟨fit.dlc, len, 0⟩ ∧ dlcToLength fit.dlc fd = len := by
  have hle := le_of_lengthToDlc h
  have hlt : len < 65 := by
    split at hle <;> omega
  have hfit := unpadded_fit ⟨len, hlt⟩ fd
  rw [h, Except.toOption, Option.all_some, decide_eq_true_iff] at hfit
  obtain ⟨dlc, length, padding⟩ := fit
  obtain ⟨rfl, hdlc⟩ := hfit hpad
  obtain rfl : padding = 0 := hpad
  exact ⟨rfl, hdlc⟩

/-- Every code is the one of its length. -/
theorem lengthToDlc_dlcToLength (hdlc : dlc ≤ 15) {fd : Bool} (h : fd = true ∨ dlc ≤ 8) :
    lengthToDlc (dlcToLength dlc fd) fd = .ok ⟨dlc, dlcToLength dlc fd, 0⟩ := by
  cases fd with
  | true => interval_cases dlc <;> decide
  | false =>
    have hdlc : dlc ≤ 8 := h.resolve_left Bool.false_ne_true
    interval_cases dlc <;> decide

theorem validateFlags_eq_ok_iff :
    BasicFrame.validateFlags 64 flags = .ok () ↔
      (hasFlag flags FrameFlags.fd = true → hasFlag flags FrameFlags.rtr = false) ∧
        (hasFlag flags FrameFlags.fd = false →
          hasFlag flags FrameFlags.brs = false ∧ hasFlag flags FrameFlags.esi = false) := by
  unfold BasicFrame.validateFlags
  cases hasFlag flags FrameFlags.fd <;> cases hasFlag flags FrameFlags.rtr <;>
    cases hasFlag flags FrameFlags.brs <;> cases hasFlag flags FrameFlags.esi <;> simp

/-- **What `make` builds.** -/
theorem make_eq_ok_iff :
    BasicFrame.make 64 id bytes flags ts = .ok f ↔
      BasicFrame.validateFlags 64 flags = .ok () ∧
        (hasFlag flags FrameFlags.rtr = true → bytes = []) ∧
          ∃ dlc, lengthToDlc bytes.length (hasFlag flags FrameFlags.fd)
              = .ok ⟨dlc, bytes.length, 0⟩ ∧
            f = ⟨ts, id, dlc, flags, BasicFrame.store 64 bytes, BasicFrame.store_length 64 bytes⟩ := by
  unfold BasicFrame.make
  simp only [bind, Except.bind, pure, Except.pure, throw, throwThe, MonadExceptOf.throw]
  cases BasicFrame.validateFlags 64 flags with
  | error e => simp
  | ok u =>
    dsimp only
    constructor
    · intro h
      split at h
      · cases h
      rename_i hrtr
      split at h
      · cases h
      split at h
      · cases h
      rename_i fit hfit
      split at h
      · cases h
      rename_i hpad
      obtain ⟨heq, -⟩ := fit_of_lengthToDlc hfit (by simpa using hpad)
      refine ⟨rfl, fun hr => ?_, fit.dlc, heq ▸ hfit, (Except.ok.inj h).symm⟩
      simpa [hr] using hrtr
    · rintro ⟨-, hrtr, dlc, hfit, rfl⟩
      have hle := le_of_lengthToDlc hfit
      have hlen : ¬64 < bytes.length := by
        split at hle <;> omega
      rw [if_neg (by simpa using hrtr), if_neg hlen, hfit]
      rfl

section Made

variable (h : BasicFrame.make 64 id bytes flags ts = .ok f)
include h

theorem make_id : f.id = id ∧ f.flags = flags ∧ f.timestampNs = ts := by
  obtain ⟨-, -, dlc, -, rfl⟩ := make_eq_ok_iff.1 h
  exact ⟨rfl, rfl, rfl⟩

/-- A frame holds as many bytes as it was made of. -/
theorem make_size : f.size = bytes.length := by
  obtain ⟨-, hrtr, dlc, hfit, rfl⟩ := make_eq_ok_iff.1 h
  unfold BasicFrame.size BasicFrame.isRemote BasicFrame.isFd
  dsimp only
  split_ifs with hr
  · rw [hrtr hr, List.length_nil]
  · exact (fit_of_lengthToDlc hfit rfl).2

theorem make_length_le : bytes.length ≤ 64 := by
  obtain ⟨-, -, dlc, hfit, rfl⟩ := make_eq_ok_iff.1 h
  have hle := le_of_lengthToDlc hfit
  split at hle <;> omega

/-- **A frame holds the bytes it was made of.** -/
theorem make_bytes : f.bytes = bytes := by
  have hle := make_length_le h
  have hsize := make_size h
  obtain ⟨-, -, dlc, -, rfl⟩ := make_eq_ok_iff.1 h
  rw [BasicFrame.bytes, hsize]
  simp only [BasicFrame.store, List.take_take, min_eq_left hle, List.take_left]

/-- **Made again of its bytes, at any time, it is the same frame.** -/
theorem make_again (ts' : ℕ) :
    BasicFrame.make 64 f.id f.bytes f.flags ts' = .ok { f with timestampNs := ts' } := by
  rw [make_bytes h]
  obtain ⟨hflags, hrtr, dlc, hfit, rfl⟩ := make_eq_ok_iff.1 h
  exact make_eq_ok_iff.2 ⟨hflags, hrtr, dlc, hfit, rfl⟩

end Made

/-! ### Remote frames -/

theorem size_of_isRemote (h : f.isRemote = true) : f.size = 0 := if_pos h

theorem bytes_of_isRemote (h : f.isRemote = true) : f.bytes = [] := by
  rw [BasicFrame.bytes, size_of_isRemote h, List.take_zero]

/-- **What `make_remote` builds.** -/
theorem makeRemote_eq_ok_iff {requested : ℕ} :
    BasicFrame.makeRemote 64 id requested ts = .ok f ↔
      requested ≤ 8 ∧ f = ⟨ts, id, requested, FrameFlags.rtr, BasicFrame.store 64 [],
        BasicFrame.store_length 64 []⟩ := by
  unfold BasicFrame.makeRemote
  split_ifs with h
  · simp [h]
  · simp [Nat.le_of_not_lt h, eq_comm]

theorem makeRemote_isRemote {requested : ℕ}
    (h : BasicFrame.makeRemote 64 id requested ts = .ok f) :
    f.isRemote = true ∧ f.dlc = requested ∧ f.id = id ∧ f.flags = FrameFlags.rtr := by
  obtain ⟨-, rfl⟩ := makeRemote_eq_ok_iff.1 h
  have hrtr : hasFlag FrameFlags.rtr FrameFlags.rtr = true := by decide
  exact ⟨hrtr, rfl, rfl, rfl⟩

/-- A remote frame of `make` requests nothing. -/
theorem make_dlc_of_isRemote (h : BasicFrame.make 64 id bytes flags ts = .ok f)
    (hr : f.isRemote = true) : f.dlc = 0 := by
  obtain ⟨hflags, hrtr, dlc, hfit, rfl⟩ := make_eq_ok_iff.1 h
  have hr : hasFlag flags FrameFlags.rtr = true := hr
  have hfd : hasFlag flags FrameFlags.fd = false := by
    cases hfd : hasFlag flags FrameFlags.fd with
    | false => rfl
    | true =>
      rw [(validateFlags_eq_ok_iff.1 hflags).1 hfd] at hr
      cases hr
  rw [hrtr hr, hfd] at hfit
  have : (⟨0, 0, 0⟩ : DlcFit) = ⟨dlc, 0, 0⟩ := Except.ok.inj hfit
  exact (DlcFit.mk.inj this).1.symm

/-! ### Errors -/

/-- The codes of what the constructors refuse. -/
def frameCodes : List ErrorCode := [.frameBadDlc, .frameBadFlags, .framePayloadTooLarge]

theorem validateFlags_code {e : Error} (h : BasicFrame.validateFlags 64 flags = .error e) :
    e.code ∈ frameCodes := by
  unfold BasicFrame.validateFlags at h
  dsimp only at h
  split_ifs at h <;> cases h <;> simp [frameCodes]

theorem lengthToDlc_code {len : ℕ} {fd : Bool} {e : Error} (h : lengthToDlc len fd = .error e) :
    e.code ∈ frameCodes := by
  unfold lengthToDlc at h
  dsimp only at h
  by_cases hlong : (if fd = true then 64 else 8) < len
  · rw [if_pos hlong] at h
    cases h
    simp [frameCodes]
  · rw [if_neg hlong] at h
    split at h
    · cases h
    · split at h
      · cases h
      · cases h
        simp [frameCodes]

theorem make_code {e : Error} (h : BasicFrame.make 64 id bytes flags ts = .error e) :
    e.code ∈ frameCodes := by
  unfold BasicFrame.make at h
  simp only [bind, Except.bind, pure, Except.pure, throw, throwThe, MonadExceptOf.throw] at h
  split at h
  · rename_i e' hflags
    cases h
    exact validateFlags_code hflags
  split at h
  · cases h
    simp [frameCodes]
  split at h
  · cases h
    simp [frameCodes]
  split at h
  · rename_i e' hfit
    cases h
    exact lengthToDlc_code hfit
  split at h
  · cases h
    simp [frameCodes]
  · cases h

theorem makeRemote_code {requested : ℕ} {e : Error}
    (h : BasicFrame.makeRemote 64 id requested ts = .error e) : e.code ∈ frameCodes := by
  unfold BasicFrame.makeRemote at h
  split_ifs at h
  cases h
  simp [frameCodes]

/-! ### Frames from the wire -/

/-- **What `from_wire` builds.** -/
theorem fromWire_eq_ok_iff :
    BasicFrame.fromWire 64 id dlc bytes flags ts = .ok f ↔
      BasicFrame.validateFlags 64 flags = .ok () ∧ dlc ≤ 15 ∧
        f = ⟨ts, id, dlc, flags,
          BasicFrame.store 64 (bytes.take (dlcToLength dlc (hasFlag flags FrameFlags.fd))),
          BasicFrame.store_length _ _⟩ := by
  have hall : ∀ dlc : Fin 16, ∀ fd : Bool, dlcToLength dlc fd ≤ 64 := by decide
  unfold BasicFrame.fromWire
  simp only [bind, Except.bind, pure, Except.pure, throw, throwThe, MonadExceptOf.throw]
  cases BasicFrame.validateFlags 64 flags with
  | error e => simp
  | ok u =>
    dsimp only
    by_cases hdlc : 15 < dlc
    · rw [if_pos hdlc]
      constructor
      · intro h
        cases h
      · rintro ⟨-, hle, -⟩
        omega
    · have hlen := hall ⟨dlc, by omega⟩ (hasFlag flags FrameFlags.fd)
      rw [if_neg hdlc, if_neg (by simpa using hlen)]
      simp [Nat.le_of_not_lt hdlc, eq_comm]

end Core
end Canforge
