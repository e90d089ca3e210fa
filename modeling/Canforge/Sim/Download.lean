/-
# The download window and the bounds of the flash

`InBounds` is what keeps the indices of a download inside the flash: the bytes
written so far end where the flash does or before, counted with natural numbers, so
that the 32-bit sum of TransferData does not wrap.  Every outcome keeps it
(`Handled.inBounds`) but one: a RequestDownload that fails at its range while a download
is active moves the address and leaves the download active (`MovesDownload`).
`flash_in_bounds` is the result for the runs without such a request.

`Watched` adds to the server the range of the RequestDownload it last accepted, as
natural numbers, and `download_window` says when the transfers stay in it: the address
is not moved, and no block is longer than what is left, which TransferData does not
check.
-/

import Canforge.Sim.Runs

namespace Canforge

namespace Uds

open Canforge.Core

/-- The number a big-endian field stands for. -/
def beValue (bytes : List Byte) : ℕ := bytes.foldl (fun value b => 2 ^ 8 * value + b.toNat) 0

theorem readBe_step (x : ℕ) (b : Byte) :
    (BitVec.ofNat 32 x) <<< 8 ||| b.setWidth 32 = BitVec.ofNat 32 (2 ^ 8 * x + b.toNat) := by
  have hb := b.isLt
  apply BitVec.eq_of_toNat_eq
  have hhigh : (x % 2 ^ 32) <<< 8 % 2 ^ 32 = (x % 2 ^ 24) <<< 8 := by
    rw [Nat.shiftLeft_eq, Nat.shiftLeft_eq]
    omega
  rw [BitVec.toNat_or, BitVec.toNat_shiftLeft, BitVec.toNat_ofNat, BitVec.toNat_setWidth,
    BitVec.toNat_ofNat, hhigh, Nat.mod_eq_of_lt (by omega : b.toNat < 2 ^ 32),
    ← Nat.shiftLeft_add_eq_or_of_lt hb, Nat.shiftLeft_eq]
  omega

/-- `read_be` keeps the last four bytes. -/
theorem readBe_eq (data : List Byte) (pos bytes : ℕ) :
    readBe data pos bytes = BitVec.ofNat 32 (beValue ((data.drop pos).take bytes)) := by
  have hfold : ∀ (field : List Byte) (x : ℕ),
      field.foldl (fun (value : BitVec 32) (b : Byte) => value <<< 8 ||| b.setWidth 32)
        (BitVec.ofNat 32 x) =
        BitVec.ofNat 32 (field.foldl (fun value b => 2 ^ 8 * value + b.toNat) x) := by
    intro field
    induction field with
    | nil => exact fun _ => rfl
    | cons b bs ih =>
      intro x
      rw [List.foldl_cons, List.foldl_cons, readBe_step, ih]
  exact hfold _ 0

end Uds

namespace Sim

open Canforge.Core IsoTp Lib Uds

namespace Diagnostics

/-- A RequestDownload that fails at its range and moves an active download. -/
structure MovesDownload (d : Diagnostics) (request : List Byte) : Prop where
  active : d.downloadActive = true
  asks : d.AsksDownload request
  range : d.OutOfRange request
  moved : requestedAddress request ≠ d.downloadAddress

/-- The download of a server lies inside its flash. -/
structure InBounds (config : UdsServerConfig) (d : Diagnostics) : Prop where
  flashBase : d.config.flashBase = config.flashBase
  flashSize : d.config.flashSize = config.flashSize
  size : d.flash.length = config.flashSize.toNat
  written : d.downloadWritten.toNat ≤ config.flashSize.toNat
  active : d.downloadActive = true → config.flashBase ≤ d.downloadAddress ∧
    (d.downloadWritten.toNat = 0 ∨ d.downloadAddress.toNat - config.flashBase.toNat +
      d.downloadWritten.toNat ≤ config.flashSize.toNat)

variable {config : UdsServerConfig} {d d' : Diagnostics} {request response : List Byte} {now : ℕ}

/-- **A block in bounds is in bounds with natural numbers.** -/
theorem InBounds.block (hi : InBounds config d) (hw : d.WritesBlock request) :
    config.flashBase ≤ d.downloadAddress ∧
      d.blockOffset = d.downloadAddress.toNat - config.flashBase.toNat + d.downloadWritten.toNat ∧
      d.blockOffset + (request.length - 2) ≤ config.flashSize.toNat := by
  obtain ⟨hbase, hin⟩ := hi.active hw.active
  have hsize := config.flashSize.isLt
  have haddress := d.downloadAddress.isLt
  have hsub : (d.downloadAddress - config.flashBase).toNat =
      d.downloadAddress.toNat - config.flashBase.toNat := by
    rw [BitVec.toNat_sub_of_le hbase]
  have hoffset : d.blockOffset =
      d.downloadAddress.toNat - config.flashBase.toNat + d.downloadWritten.toNat := by
    rw [blockOffset, hi.flashBase, BitVec.toNat_add, hsub]
    rcases hin with hzero | hle <;> omega
  exact ⟨hbase, hoffset, hi.size ▸ hw.fits⟩

theorem writeFlash_length {offset : ℕ} {data : List Byte}
    (h : offset + data.length ≤ d.flash.length) :
    (d.writeFlash offset data).length = d.flash.length := by
  simp only [writeFlash, List.length_append, List.length_take, List.length_drop]
  omega

/-- **No outcome but a moved download leaves the bounds.** -/
theorem Handled.inBounds (h : Handled d request response d') (hi : InBounds config d)
    (hstay : ¬ d.MovesDownload request) : InBounds config d' := by
  obtain ⟨hbase, hfsize, hsize, hwritten, hactive⟩ := id hi
  cases h with
  | reset positive => exact ⟨hbase, hfsize, hsize, hwritten, fun h => nomatch h⟩
  | exited positive => exact ⟨hbase, hfsize, hsize, hwritten, fun h => nomatch h⟩
  | erased service unlocked =>
    exact ⟨hbase, hfsize, List.length_replicate.trans hsize, hwritten, hactive⟩
  | refusedDownload asks range =>
    refine ⟨hbase, hfsize, hsize, hwritten, fun h => ?_⟩
    have hsame : requestedAddress request = d.downloadAddress := by
      by_cases heq : requestedAddress request = d.downloadAddress
      · exact heq
      · exact absurd ⟨h, asks, range, heq⟩ hstay
    simp only [hsame]
    exact hactive h
  | acceptedDownload positive asks range =>
    refine ⟨hbase, hfsize, hsize, Nat.zero_le _, fun _ => ⟨?_, .inl rfl⟩⟩
    rw [← hbase]
    exact BitVec.not_lt.1 fun h => range (.inl h)
  | wroteBlock writes =>
    obtain ⟨hle, hoffset, hfits⟩ := hi.block writes
    have hlen : (request.drop 2).length = request.length - 2 := List.length_drop
    have hlt := config.flashSize.isLt
    have hsum : (d.downloadWritten + BitVec.ofNat 32 (request.length - 2)).toNat =
        d.downloadWritten.toNat + (request.length - 2) := by
      rw [BitVec.toNat_add, BitVec.toNat_ofNat]
      omega
    refine ⟨hbase, hfsize, (writeFlash_length (hlen ▸ writes.fits)).trans hsize, ?_,
      fun _ => ⟨hle, .inr ?_⟩⟩
    · simp only [hsum]
      omega
    · simp only [hsum]
      omega
  | _ => exact ⟨hbase, hfsize, hsize, hwritten, hactive⟩

/-- The verify routine reads inside the flash. -/
theorem checksum_isSome {flash : List Byte} {written : ℕ} (h : written ≤ flash.length) :
    (checksum flash written).isSome := by
  have hfold : ∀ (is : List ℕ) (sum : BitVec 32), (∀ i ∈ is, i < flash.length) →
      (is.foldlM (fun sum i => flash[i]?.map fun b => sum + b.setWidth 32) sum).isSome := by
    intro is
    induction is with
    | nil => exact fun _ _ => rfl
    | cons i is ih =>
      intro sum hlt
      rw [List.foldlM_cons, List.getElem?_eq_getElem (hlt i List.mem_cons_self)]
      exact ih _ fun j hj => hlt j (List.mem_cons_of_mem i hj)
  exact hfold _ _ fun i hi => Nat.lt_of_lt_of_le (List.mem_range.1 hi) h

/-- A request reads behind the flash only if more was written than there is. -/
theorem handle_isSome (h : d.downloadWritten.toNat ≤ d.flash.length) :
    (d.handle request now).isSome := by
  cases request with
  | nil => rfl
  | cons b bs =>
    rw [handle]
    cases hs : Service.ofByte b with
    | none => rfl
    | some service =>
      cases service with
      | routineControl =>
        simp only [routineControl]
        split_ifs <;> simp [checksum_isSome h]
      | _ => rfl

/-- Decidable from its fields. -/
instance (d : Diagnostics) (request : List Byte) : Decidable (d.AsksDownload request) :=
  decidable_of_iff (request.getD 0 0 = Service.requestDownload.toByte ∧ 4 ≤ request.length ∧
      d.session = .programming ∧ d.unlocked = true ∧ addressBytes request ≠ 0 ∧
      sizeBytes request ≠ 0 ∧ 3 + addressBytes request + sizeBytes request ≤ request.length)
    ⟨fun ⟨h₁, h₂, h₃, h₄, h₅, h₆, h₇⟩ => ⟨h₁, h₂, h₃, h₄, h₅, h₆, h₇⟩,
      fun ⟨h₁, h₂, h₃, h₄, h₅, h₆, h₇⟩ => ⟨h₁, h₂, h₃, h₄, h₅, h₆, h₇⟩⟩

instance (d : Diagnostics) (request : List Byte) : Decidable (d.MovesDownload request) :=
  decidable_of_iff (d.downloadActive = true ∧ d.AsksDownload request ∧ d.OutOfRange request ∧
      requestedAddress request ≠ d.downloadAddress)
    ⟨fun ⟨h₁, h₂, h₃, h₄⟩ => ⟨h₁, h₂, h₃, h₄⟩, fun ⟨h₁, h₂, h₃, h₄⟩ => ⟨h₁, h₂, h₃, h₄⟩⟩

instance (d : Diagnostics) (request : List Byte) : Decidable (d.WritesBlock request) :=
  decidable_of_iff (request.getD 0 0 = Service.transferData.toByte ∧ d.downloadActive = true ∧
      2 ≤ request.length ∧ request.getD 1 0 = d.expectedBlock ∧
      d.blockOffset + (request.length - 2) ≤ d.flash.length)
    ⟨fun ⟨h₁, h₂, h₃, h₄, h₅⟩ => ⟨h₁, h₂, h₃, h₄, h₅⟩,
      fun ⟨h₁, h₂, h₃, h₄, h₅⟩ => ⟨h₁, h₂, h₃, h₄, h₅⟩⟩

end Diagnostics

namespace UdsServer

open Diagnostics

variable {config : UdsServerConfig} {s t : UdsServer} {e : ServerEvent}

/-- No RequestDownload that fails at its range moves an active download. -/
def StaysPut (s : UdsServer) (e : ServerEvent) : Prop :=
  s.Asked e fun request => ¬ s.MovesDownload request

instance (s : UdsServer) (e : ServerEvent) : Decidable (StaysPut s e) :=
  inferInstanceAs (Decidable (Asked _ _ _))

theorem create_inBounds : InBounds config (create config).toDiagnostics :=
  ⟨rfl, rfl, List.length_replicate, Nat.zero_le _, fun h => nomatch h⟩

theorem step_inBounds (hi : InBounds config s.toDiagnostics) (hok : StaysPut s e)
    (hstep : s.step e = some t) : InBounds config t.toDiagnostics := by
  rcases step_cases hstep with ⟨request, now, response, hin, hd⟩ | ⟨_, _, _, _, ht⟩
  · exact (handle_handled hd).inBounds hi (hok request now hin)
  · rw [ht]
    exact ⟨hi.flashBase, hi.flashSize, hi.size, hi.written, hi.active⟩

/-- **Flash indices.**  In every state of a run in which no refused RequestDownload
moves an active download, the bytes written are at most those of the flash, the block
of every accepted TransferData ends within it, counted with natural numbers, and no
request reads behind it. -/
theorem flash_in_bounds (h : Reach step StaysPut (create config) s) :
    s.downloadWritten.toNat ≤ config.flashSize.toNat ∧ s.flash.length = config.flashSize.toNat ∧
      (∀ request, s.WritesBlock request → config.flashBase ≤ s.downloadAddress ∧
        s.downloadAddress.toNat - config.flashBase.toNat + s.downloadWritten.toNat +
          (request.length - 2) ≤ config.flashSize.toNat) ∧
      ∀ request now, (s.handle request now).isSome := by
  have hi : InBounds config s.toDiagnostics := by
    induction h with
    | refl => exact create_inBounds
    | tail _ hok hstep ih => exact step_inBounds ih hok hstep
  refine ⟨hi.written, hi.size, fun request hw => ?_, fun request now => ?_⟩
  · obtain ⟨hbase, hoffset, hfits⟩ := hi.block hw
    exact ⟨hbase, hoffset ▸ hfits⟩
  · exact handle_isSome (Nat.le_trans hi.written (Nat.le_of_eq hi.size.symm))

/-- After a full transfer the verify routine reads all four bytes. -/
theorem flash_in_bounds_four : ∃ s, Reach step StaysPut (create fourBytes) s ∧
    s.downloadWritten = 4 ∧ ∀ request now, (s.handle request now).isSome := by
  obtain ⟨s, hreach, hw⟩ : ∃ s, Reach step StaysPut (create fourBytes) s ∧ s.downloadWritten = 4 :=
    Reach.exists_of_run (startDownload ++ [.request [0x36, 0x01, 1, 2, 3, 4] 0]) (by decide +kernel)
  exact ⟨s, hreach, hw, (flash_in_bounds hreach).2.2.2⟩

/-- **The defect.**  A refused RequestDownload below the flash moves the address back,
the next block passes the check, eight bytes count as written to a flash of four, and the
verify routine reads behind it. -/
theorem verify_reads_behind_flash : ∃ s, Reachable fourBytes s ∧ s.flash.length = 4 ∧
    s.downloadWritten = 8 ∧ s.handle [0x31, 0x01, 0xFF, 0x01] 0 = none := by
  obtain ⟨s, hreach, hlength, hwritten, hverify⟩ : ∃ s, Reachable fourBytes s ∧
      s.flash.length = 4 ∧ s.downloadWritten = 8 ∧
      (s.handle [0x31, 0x01, 0xFF, 0x01] 0).isNone = true :=
    Reach.exists_of_run (startDownload ++ [.request [0x36, 0x01, 1, 2, 3, 4] 0,
      .request [0x34, 0x00, 0x44, 0x07, 0xFF, 0xFF, 0xFC, 0, 0, 0, 4] 0,
      .request [0x36, 0x02, 5, 6, 7, 8] 0]) (by decide +kernel)
  exact ⟨s, hreach, hlength, hwritten, Option.isNone_iff_eq_none.1 hverify⟩

end UdsServer

/-! ### The accepted window -/

/-- The range a RequestDownload names, as natural numbers. -/
def requestedWindow (request : List Byte) : ℕ × ℕ :=
  (beValue ((request.drop 3).take (addressBytes request)),
    beValue ((request.drop (3 + addressBytes request)).take (sizeBytes request)))

/-- A RequestDownload and a positive answer to it. -/
def Accepts (request response : List Byte) : Prop :=
  request.getD 0 0 = Service.requestDownload.toByte ∧
    response.getD 0 0 = Service.requestDownload.toByte + kPositiveResponseOffset

instance (request response : List Byte) : Decidable (Accepts request response) :=
  inferInstanceAs (Decidable (_ ∧ _))

namespace Diagnostics

variable {d d' : Diagnostics} {request response : List Byte}

theorem Positive.not_accepts {service : Service} (h : Positive service request response)
    (hs : service ≠ .requestDownload) : ¬ Accepts request response := fun ha => by
  have heq := h.service.symm.trans ha.1
  cases service <;> first | exact hs rfl | cases heq

theorem negative_not_accepts {service : Byte} {nrc : Nrc} :
    ¬ Accepts request (negative service nrc) := fun ha => nomatch ha.2

/-- **What a request does to the download:** a new one is accepted, or the one that is
active, if there is one, is kept, moved or written to. -/
theorem Handled.download_cases (h : Handled d request response d') :
    (Accepts request response ∧ d.AsksDownload request ∧ ¬ d.OutOfRange request ∧
      d'.downloadAddress = requestedAddress request ∧ d'.downloadWritten = 0) ∨
    (¬ Accepts request response ∧ (d'.downloadActive = true → d.downloadActive = true ∧
      (d'.downloadAddress = d.downloadAddress ∨ (d.AsksDownload request ∧
        d.OutOfRange request ∧ d'.downloadAddress = requestedAddress request)) ∧
      (d'.downloadWritten = d.downloadWritten ∨ (d.WritesBlock request ∧
        d'.downloadWritten = d.downloadWritten + BitVec.ofNat 32 (request.length - 2))))) := by
  cases h with
  | empty => exact .inr ⟨fun ha => absurd ha.2 (by decide), fun h => ⟨h, .inl rfl, .inl rfl⟩⟩
  | rejected nrc final testerPresent =>
    exact .inr ⟨negative_not_accepts, fun h => ⟨h, .inl rfl, .inl rfl⟩⟩
  | answered other positive =>
    exact .inr ⟨positive.not_accepts other, fun h => ⟨h, .inl rfl, .inl rfl⟩⟩
  | enteredSession positive =>
    exact .inr ⟨positive.not_accepts (by decide), fun h => ⟨h, .inl rfl, .inl rfl⟩⟩
  | reset positive =>
    exact .inr ⟨positive.not_accepts (by decide), fun h => absurd h Bool.false_ne_true⟩
  | wroteData positive =>
    exact .inr ⟨positive.not_accepts (by decide), fun h => ⟨h, .inl rfl, .inl rfl⟩⟩
  | sentSeed positive =>
    exact .inr ⟨positive.not_accepts (by decide), fun h => ⟨h, .inl rfl, .inl rfl⟩⟩
  | acceptedKey positive =>
    exact .inr ⟨positive.not_accepts (by decide), fun h => ⟨h, .inl rfl, .inl rfl⟩⟩
  | clearedDtcs positive =>
    exact .inr ⟨positive.not_accepts (by decide), fun h => ⟨h, .inl rfl, .inl rfl⟩⟩
  | erased service unlocked deferredResponse deferredService deferral =>
    refine .inr ⟨?_, fun h => ⟨h, .inl rfl, .inl rfl⟩⟩
    rcases deferral with ⟨positive, _⟩ | ⟨rfl, _⟩
    · exact positive.not_accepts (by decide)
    · exact negative_not_accepts
  | refusedDownload asks range =>
    exact .inr ⟨negative_not_accepts, fun h => ⟨h, .inr ⟨asks, range, rfl⟩, .inl rfl⟩⟩
  | acceptedDownload positive asks range =>
    obtain ⟨body, rfl⟩ := positive.response
    have hno : suppresses request = false := by
      rw [suppresses, asks.service]
      rfl
    refine .inl ⟨⟨asks.service, ?_⟩, asks, range, rfl, rfl⟩
    rw [Sim.positive, if_neg (by rw [hno]; decide), asks.service]
    rfl
  | wroteBlock writes expectedBlock deferredResponse deferredService deferral =>
    refine .inr ⟨?_, fun h => ⟨h, .inl rfl, .inr ⟨writes, rfl⟩⟩⟩
    rcases deferral with ⟨positive, _⟩ | ⟨rfl, _⟩
    · exact positive.not_accepts (by decide)
    · exact negative_not_accepts
  | exited positive =>
    exact .inr ⟨positive.not_accepts (by decide), fun h => absurd h Bool.false_ne_true⟩

/-- A write leaves the bytes outside it alone. -/
theorem writeFlash_outside {offset i : ℕ} {data : List Byte}
    (h : offset + data.length ≤ d.flash.length) (hi : i < offset ∨ offset + data.length ≤ i) :
    (d.writeFlash offset data)[i]? = d.flash[i]? := by
  have hlen : (d.flash.take offset).length = offset := by rw [List.length_take]; omega
  rw [writeFlash, List.append_assoc]
  rcases hi with hi | hi
  · rw [List.getElem?_append_left (by omega), List.getElem?_take_of_lt hi]
  · rw [List.getElem?_append_right (by omega), List.getElem?_append_right (by omega),
      List.getElem?_drop]
    congr 1
    omega

end Diagnostics

/-- A server and the range of the RequestDownload it accepted last. -/
structure Watched where
  server : UdsServer
  window : Option (ℕ × ℕ) := none

namespace Watched

open Diagnostics UdsServer

/-- The request an event makes the server handle, and the answer to it. -/
def exchange (w : Watched) (e : ServerEvent) : Option (List Byte × List Byte) :=
  (w.server.incoming e).bind fun (request, now) =>
    (w.server.handle request now).map fun (response, _) => (request, response)

/-- The range accepted last after an event. -/
def nextWindow (w : Watched) (e : ServerEvent) : Option (ℕ × ℕ) :=
  match w.exchange e with
  | some (request, response) =>
    if Accepts request response then some (requestedWindow request) else w.window
  | none => w.window

/-- One event. -/
def step (w : Watched) (e : ServerEvent) : Option Watched :=
  (w.server.step e).map fun server => ⟨server, w.nextWindow e⟩

/-- The three things that keep the transfers in the window: no refused RequestDownload
moves an active download, every block that is written fits in what is left of the
window, and an accepted address fits in the 32 bits it is read as. -/
def InWindow (w : Watched) (e : ServerEvent) : Prop :=
  w.server.Asked e fun request => ¬ w.server.MovesDownload request ∧
    (w.server.WritesBlock request → ∀ window ∈ w.window,
      w.server.downloadWritten.toNat + (request.length - 2) ≤ window.2) ∧
    (w.server.AsksDownload request → ¬ w.server.OutOfRange request →
      (requestedWindow request).1 < 2 ^ 32)

instance (w : Watched) (e : ServerEvent) : Decidable (InWindow w e) :=
  inferInstanceAs (Decidable (Asked _ _ _))

/-- The state of an active download and the window it was accepted for. -/
structure Inside (config : UdsServerConfig) (w : Watched) : Prop where
  bounds : InBounds config w.server.toDiagnostics
  active : w.server.downloadActive = true → ∃ a z, w.window = some (a, z) ∧
    w.server.downloadAddress.toNat = a ∧ w.server.downloadWritten.toNat ≤ z

variable {config : UdsServerConfig} {w w' : Watched} {e : ServerEvent}

/-- **A step in the window keeps the download inside.** -/
theorem Inside.step (h : Inside config w) (hok : InWindow w e) (hstep : w.step e = some w') :
    Inside config w' := by
  obtain ⟨t, ht, rfl⟩ := Option.map_eq_some_iff.1 hstep
  have hbounds := step_inBounds h.bounds (fun request now hin => (hok request now hin).1) ht
  rcases step_cases ht with ⟨request, now, response, hin, hd⟩ | ⟨hin, _, _, _, hdiag⟩
  · have hexchange : w.exchange e = some (request, response) := by
      rw [exchange, hin]
      exact congrArg (Option.map _) hd
    obtain ⟨hmove, hblock, haddress⟩ := hok request now hin
    rw [nextWindow, hexchange]
    rcases (handle_handled hd).download_cases with
      ⟨ha, asks, range, hnew, hzero⟩ | ⟨ha, hkeep⟩
    · simp only [if_pos ha]
      refine ⟨hbounds, fun _ => ⟨_, _, rfl, ?_, ?_⟩⟩
      · rw [hnew, requestedAddress, readBe_eq, BitVec.toNat_ofNat]
        exact Nat.mod_eq_of_lt (haddress asks range)
      · rw [hzero]
        exact Nat.zero_le _
    · simp only [if_neg ha]
      refine ⟨hbounds, fun hactive => ?_⟩
      obtain ⟨hactive', haddr, hwritten⟩ := hkeep hactive
      obtain ⟨a, z, hwin, ha', hz⟩ := h.active hactive'
      refine ⟨a, z, hwin, ?_, ?_⟩
      · rcases haddr with heq | ⟨asks, range, heq⟩
        · rw [heq, ha']
        · by_cases hsame : requestedAddress request = w.server.downloadAddress
          · rw [heq, hsame, ha']
          · exact absurd ⟨hactive', asks, range, hsame⟩ hmove
      · rcases hwritten with heq | ⟨hw, heq⟩
        · rw [heq]
          exact hz
        · have hle := hblock hw (a, z) hwin
          rw [heq, BitVec.toNat_add, BitVec.toNat_ofNat]
          have := Nat.mod_le (w.server.downloadWritten.toNat + (request.length - 2)) (2 ^ 32)
          simp only at hle
          omega
  · have hexchange : w.exchange e = none := by
      rw [exchange, hin]
      rfl
    rw [nextWindow, hexchange]
    refine ⟨hbounds, ?_⟩
    simp only [hdiag]
    exact h.active

/-- A TransferData that changes the flash writes its block. -/
theorem transfer_of_change {request : List Byte} {now : ℕ} (hstep : w.step e = some w')
    (hin : w.server.incoming e = some (request, now))
    (hs : request.getD 0 0 = Service.transferData.toByte)
    (hne : w'.server.flash ≠ w.server.flash) : w.server.WritesBlock request ∧
      w'.server.flash = w.server.writeFlash w.server.blockOffset (request.drop 2) := by
  obtain ⟨t, ht, rfl⟩ := Option.map_eq_some_iff.1 hstep
  rcases step_cases ht with ⟨request', now', response, hin', hd⟩ | ⟨hin', _⟩
  · cases hin.symm.trans hin'
    rcases (handle_handled hd).flash_cases with hsame | ⟨hroutine, _⟩ | hw
    · exact absurd hsame hne
    · exact nomatch hs.symm.trans hroutine
    · exact hw
  · exact nomatch hin.symm.trans hin'

/-- **The download window.**  In every state of a run in the window, an active download
has not written more than the accepted size, and a TransferData of the next step changes
no byte outside the accepted range. -/
theorem download_window (h : Reach step InWindow ⟨create config, none⟩ w) :
    (w.server.downloadActive = true → ∃ a z, w.window = some (a, z) ∧
      w.server.downloadWritten.toNat ≤ z) ∧
    ∀ e w' request now, InWindow w e → w.step e = some w' →
      w.server.incoming e = some (request, now) →
      request.getD 0 0 = Service.transferData.toByte → ∀ i,
      w'.server.flash[i]? ≠ w.server.flash[i]? → ∃ a z, w.window = some (a, z) ∧
        a ≤ config.flashBase.toNat + i ∧ config.flashBase.toNat + i < a + z := by
  have hin : Inside config w := by
    induction h with
    | refl => exact ⟨create_inBounds, fun h => nomatch h⟩
    | tail _ hok hstep ih => exact ih.step hok hstep
  refine ⟨fun hactive => ?_, fun e w' request now hok hstep hreq hservice i hi => ?_⟩
  · obtain ⟨a, z, hwin, _, hz⟩ := hin.active hactive
    exact ⟨a, z, hwin, hz⟩
  · obtain ⟨hw, hflash⟩ := transfer_of_change hstep hreq hservice fun heq => hi (by rw [heq])
    obtain ⟨a, z, hwin, ha, _⟩ := hin.active hw.active
    obtain ⟨hbase, hoffset, _⟩ := hin.bounds.block hw
    have hfits := (hok request now hreq).2.1 hw (a, z) hwin
    have hlen : (request.drop 2).length = request.length - 2 := List.length_drop
    have hbase : config.flashBase.toNat ≤ w.server.downloadAddress.toNat := hbase
    refine ⟨a, z, hwin, ?_⟩
    by_cases hout : i < w.server.blockOffset ∨ w.server.blockOffset + (request.length - 2) ≤ i
    · rw [hflash, writeFlash_outside (hlen ▸ hw.fits) (hlen ▸ hout)] at hi
      exact absurd rfl hi
    · simp only at hfits
      omega

/-- A transfer of the whole window in two blocks. -/
theorem download_window_two_blocks : ∃ w, Reach step InWindow ⟨create fourBytes, none⟩ w ∧
    w.server.downloadActive = true ∧ w.server.flash = [1, 2, 3, 4] ∧
    ∃ a z, w.window = some (a, z) ∧ w.server.downloadWritten.toNat ≤ z := by
  obtain ⟨w, hreach, hactive, hflash⟩ : ∃ w, Reach step InWindow ⟨create fourBytes, none⟩ w ∧
      w.server.downloadActive = true ∧ w.server.flash = [1, 2, 3, 4] :=
    Reach.exists_of_run (startDownload ++
      [.request [0x36, 0x01, 1, 2, 3] 0, .request [0x36, 0x02, 4] 0]) (by decide +kernel)
  exact ⟨w, hreach, hactive, hflash, (download_window hreach).1 hactive⟩

/-- **The defect.**  A window of two bytes is accepted, and a block of four is written. -/
theorem block_overruns_window : ∃ w, Reach step (fun _ _ => True) ⟨create fourBytes, none⟩ w ∧
    w.server.downloadActive = true ∧ w.window = some (0x08000000, 2) ∧
    w.server.downloadWritten = 4 ∧ w.server.flash = [1, 2, 3, 4] := by
  exact Reach.exists_of_run (startDownload ++ [.request [0x34, 0x00, 0x14, 0x08, 0, 0, 0, 2] 0,
    .request [0x36, 0x01, 1, 2, 3, 4] 0]) (by decide +kernel)

end Watched

end Sim
end Canforge
