/-
# A firmware download from end to end

The requests of a download as the client and the command line send them
(`requestDownloadPayload`, `transferRequests`, `requestTransferExitPayload`), served by an unlocked
server in the programming session.  `Downloading` is the state between two blocks: the
flash is the one before with the blocks so far written at the address, and the two
sides agree on the next counter (`nextBlock`).  Each request is one triple, and
`download_script` chains them; the server may be polled and may set trouble codes in
between.
-/

import Canforge.Lib.Script
import Canforge.Sim.Download
import Canforge.Sim.Exchange

namespace Canforge

namespace Uds

open Canforge.Core

/-- The block counter behind `block`: `0xFF` wraps to `0x01`. -/
def nextBlock (block : Byte) : Byte := if block + 1 = 0 then 1 else block + 1

namespace Client

/-- The payload of `request_download`; `none` is `InvalidArgument`. -/
def requestDownloadPayload (address size : BitVec 32) (addressBytes sizeBytes : Byte) :
    Option (List Byte) :=
  if addressBytes = 0 ∨ 4#8 < addressBytes ∨ sizeBytes = 0 ∨ 4#8 < sizeBytes then none
  else
    some ([Service.requestDownload.toByte, 0x00, sizeBytes <<< 4 ||| addressBytes] ++
      pushBe address addressBytes.toNat ++ pushBe size sizeBytes.toNat)

/-- The payload of `transfer_data`. -/
def transferDataPayload (block : Byte) (data : List Byte) : List Byte :=
  Service.transferData.toByte :: block :: data

/-- The payload of `request_transfer_exit`. -/
def requestTransferExitPayload : List Byte := [Service.requestTransferExit.toByte]

/-- The TransferData requests of the flash loop of the command line, from `block`. -/
def transferRequests : Byte → List (List Byte) → List (List Byte)
  | _, [] => []
  | block, data :: blocks =>
    transferDataPayload block data :: transferRequests (nextBlock block) blocks

end Client

theorem pushBe_succ (value : BitVec 32) (n : ℕ) :
    pushBe value (n + 1) = (value >>> (n * 8)).setWidth 8 :: pushBe value n := by
  rw [pushBe, List.range_succ, List.reverse_append]
  rfl

theorem pushBe_length (value : BitVec 32) (n : ℕ) : (pushBe value n).length = n := by
  rw [pushBe, List.length_map, List.length_reverse, List.length_range]

theorem beValue_append (bytes : List Byte) (b : Byte) :
    beValue (bytes ++ [b]) = 2 ^ 8 * beValue bytes + b.toNat := by
  rw [beValue, List.foldl_append]
  rfl

theorem beValue_cons (b : Byte) (bytes : List Byte) :
    beValue (b :: bytes) = b.toNat * 2 ^ (8 * bytes.length) + beValue bytes := by
  induction bytes using List.reverseRecOn with
  | nil => simp [beValue]
  | append_singleton bytes c ih =>
    rw [← List.cons_append, beValue_append, ih, beValue_append, List.length_append,
      List.length_singleton, Nat.mul_add 8, pow_add]
    ring

/-- What `push_be` writes reads back, modulo the width of the field. -/
theorem beValue_pushBe (value : BitVec 32) (n : ℕ) :
    beValue (pushBe value n) = value.toNat % 2 ^ (8 * n) := by
  induction n with
  | zero => simp [pushBe, beValue, Nat.mod_one]
  | succ n ih =>
    rw [pushBe_succ, beValue_cons, ih, pushBe_length, BitVec.toNat_setWidth,
      BitVec.toNat_ushiftRight, Nat.shiftRight_eq_div_pow, Nat.mul_comm n 8, Nat.mul_succ, pow_add,
      Nat.mod_mul]
    ring

end Uds

namespace Sim

open Canforge.Core IsoTp Lib Uds

/-- A RequestDownload for `size` bytes at `address`. -/
structure AsksFor (request : List Byte) (address size : BitVec 32) : Prop where
  service : request.getD 0 0 = Service.requestDownload.toByte
  addressBytes : addressBytes request ≠ 0
  sizeBytes : sizeBytes request ≠ 0
  fields : 3 + Sim.addressBytes request + Sim.sizeBytes request ≤ request.length
  address : requestedAddress request = address
  size : requestedSize request = size

/-- The two widths in a format byte. -/
theorem format_nibbles {a z : Byte} (h : ¬ (a = 0 ∨ 4#8 < a ∨ z = 0 ∨ 4#8 < z)) :
    (z <<< 4 ||| a) &&& 0x0F = a ∧ (z <<< 4 ||| a) >>> 4 &&& 0x0F = z ∧
      a.toNat ≠ 0 ∧ z.toNat ≠ 0 := by
  have hwidth : ∀ b : Byte, ¬ (b = 0 ∨ 4#8 < b) → b = 1 ∨ b = 2 ∨ b = 3 ∨ b = 4 := by
    decide +kernel
  obtain ⟨ha, hz⟩ : ¬ (a = 0 ∨ 4#8 < a) ∧ ¬ (z = 0 ∨ 4#8 < z) := by tauto
  rcases hwidth a ha with rfl | rfl | rfl | rfl <;>
    rcases hwidth z hz with rfl | rfl | rfl | rfl <;> decide

/-- **What the client sends is read as the low bytes of the numbers**, as many as the fields
hold. -/
theorem requestDownloadPayload_low {address size : BitVec 32} {addressBytes sizeBytes : Byte}
    {request : List Byte}
    (h : Client.requestDownloadPayload address size addressBytes sizeBytes = some request) :
    AsksFor request (BitVec.ofNat 32 (address.toNat % 2 ^ (8 * addressBytes.toNat)))
      (BitVec.ofNat 32 (size.toNat % 2 ^ (8 * sizeBytes.toNat))) := by
  unfold Client.requestDownloadPayload at h
  split_ifs at h with hwidths
  cases h
  obtain ⟨ha, hz, ha0, hz0⟩ := format_nibbles hwidths
  set request := [Service.requestDownload.toByte, 0x00, sizeBytes <<< 4 ||| addressBytes] ++
    pushBe address addressBytes.toNat ++ pushBe size sizeBytes.toNat with hrequest
  have hlenA := pushBe_length address addressBytes.toNat
  have hlenZ := pushBe_length size sizeBytes.toNat
  have hA : Sim.addressBytes request = addressBytes.toNat := congrArg BitVec.toNat ha
  have hZ : Sim.sizeBytes request = sizeBytes.toNat := congrArg BitVec.toNat hz
  have hdropA : (request.drop 3).take addressBytes.toNat = pushBe address addressBytes.toNat := by
    rw [hrequest, List.append_assoc]
    exact List.take_left' hlenA
  have hdropZ : (request.drop (3 + addressBytes.toNat)).take sizeBytes.toNat =
      pushBe size sizeBytes.toNat := by
    rw [hrequest, List.drop_left' (by rw [List.length_append, hlenA]; rfl),
      List.take_of_length_le (Nat.le_of_eq hlenZ)]
  refine ⟨rfl, hA ▸ ha0, hZ ▸ hz0, ?_, ?_, ?_⟩
  · rw [hA, hZ, hrequest, List.length_append, List.length_append, hlenA, hlenZ]
    exact le_rfl
  · rw [requestedAddress, hA, readBe_eq, hdropA, beValue_pushBe]
  · rw [requestedSize, hA, hZ, readBe_eq, hdropZ, beValue_pushBe]

/-- **What the client sends is read as it was meant**, if the fields hold the numbers. -/
theorem requestDownloadPayload_asksFor {address size : BitVec 32} {addressBytes sizeBytes : Byte}
    {request : List Byte}
    (h : Client.requestDownloadPayload address size addressBytes sizeBytes = some request)
    (haddress : address.toNat < 2 ^ (8 * addressBytes.toNat))
    (hsize : size.toNat < 2 ^ (8 * sizeBytes.toNat)) : AsksFor request address size := by
  have hlow := requestDownloadPayload_low h
  rwa [Nat.mod_eq_of_lt haddress, Nat.mod_eq_of_lt hsize, BitVec.ofNat_toNat, BitVec.setWidth_eq,
    BitVec.ofNat_toNat, BitVec.setWidth_eq] at hlow

namespace Diagnostics

variable {config : UdsServerConfig} {d d' : Diagnostics} {request response : List Byte} {now : ℕ}

/-! ### The triples of a download, on the diagnostic state -/

/-- An unlocked server in the programming session, with the flash of its configuration. -/
structure Programmable (config : UdsServerConfig) (d : Diagnostics) : Prop where
  flashBase : d.config.flashBase = config.flashBase
  flashSize : d.config.flashSize = config.flashSize
  length : d.flash.length = config.flashSize.toNat
  unlocked : d.unlocked = true
  session : d.session = .programming

/-- No request moves or resizes the flash. -/
theorem Handled.geometry (h : Handled d request response d') :
    d'.config.flashBase = d.config.flashBase ∧ d'.config.flashSize = d.config.flashSize ∧
      d'.flash.length = d.flash.length := by
  cases h with
  | erased service unlocked => exact ⟨rfl, rfl, List.length_replicate⟩
  | wroteBlock writes =>
    have hlen : (request.drop 2).length = request.length - 2 := List.length_drop
    exact ⟨rfl, rfl, writeFlash_length (hlen ▸ writes.fits)⟩
  | _ => exact ⟨rfl, rfl, rfl⟩

/-- A RequestDownload that passes every check is accepted. -/
theorem AsksDownload.accepted (asks : d.AsksDownload request) (range : ¬ d.OutOfRange request) :
    d.handle request now = some ([0x74, 0x20, 0x02, 0x00],
      { d with downloadAddress := requestedAddress request,
               downloadSize := requestedSize request, downloadActive := true,
               downloadComplete := false, downloadWritten := 0, expectedBlock := 1 }) := by
  obtain ⟨b, bs, rfl, hb⟩ := handle_eq (by have := asks.length; omega) asks.service
  have hformat : ¬ (addressBytes (b :: bs) = 0 ∨ sizeBytes (b :: bs) = 0 ∨
      (b :: bs).length < 3 + addressBytes (b :: bs) + sizeBytes (b :: bs)) := by
    rintro (h | h | h)
    · exact asks.address h
    · exact asks.size h
    · have := asks.fields
      omega
  have hno : suppresses (b :: bs) = false := by
    rw [suppresses, asks.service]
    rfl
  rw [handle, hb]
  simp only [requestDownload]
  rw [if_neg (Nat.not_lt.2 asks.length), if_neg (not_not.2 asks.session),
    if_neg (by rw [asks.unlocked]; decide)]
  refine congrArg some (((if_neg hformat).trans (if_neg range)).trans ?_)
  rw [positive, if_neg (by rw [hno]; decide), asks.service]
  rfl

/-- **What a written block does**, at once or behind `0x78`. -/
theorem WritesBlock.answered (now : ℕ) (writes : d.WritesBlock request) :
    ∃ response deferredResponse deferredService deferredUntilNs pendingLeft,
      d.handle request now = some (response,
        { d with flash := d.writeFlash d.blockOffset (request.drop 2),
                 downloadWritten := d.downloadWritten + BitVec.ofNat 32 (request.length - 2),
                 expectedBlock := nextBlock d.expectedBlock, deferredResponse, deferredService,
                 deferredUntilNs, pendingLeft }) ∧
      (if IsPending response then deferredResponse else response) = [0x76, d.expectedBlock] := by
  obtain ⟨b, bs, rfl, hb⟩ := handle_eq (by have := writes.length; omega) writes.service
  have hno : suppresses (b :: bs) = false := by
    rw [suppresses, writes.service]
    rfl
  have hservice : b = 0x36 := writes.service
  have hfits := Nat.not_lt.2 writes.fits
  rw [handle, hb]
  simp only [transferData]
  rw [if_neg (by rw [writes.active]; decide), if_neg (Nat.not_lt.2 writes.length),
    if_neg (not_not.2 writes.block)]
  by_cases hpending : d.config.pendingResponsesPerBlock ≠ 0
  · refine ⟨_, _, _, _, _, congrArg some ((if_neg hfits).trans (if_pos hpending)), ?_⟩
    rw [if_pos ⟨rfl, rfl⟩, writes.block, hservice]
    rfl
  · refine ⟨_, _, _, _, _, congrArg some ((if_neg hfits).trans (if_neg hpending)), ?_⟩
    have hpositive : positive (b :: bs) [(b :: bs).getD 1 0] = [0x76, d.expectedBlock] := by
      rw [positive, if_neg (by rw [hno]; decide), writes.block, hservice]
      rfl
    rw [hpositive]
    exact if_neg fun h => absurd h.1 (by decide : ¬ (0x76 : Byte) = kNegativeResponse)

/-- The exit of a download that is as long as it was announced. -/
theorem handle_exit (active : d.downloadActive = true) (full : d.downloadWritten = d.downloadSize) :
    d.handle Client.requestTransferExitPayload now =
      some ([0x77], { d with downloadActive := false, downloadComplete := true }) := by
  rw [Client.requestTransferExitPayload, handle, Service.ofByte_toByte]
  simp only [requestTransferExit]
  rw [if_neg (by rw [active]; decide), if_neg (not_not.2 full)]
  rfl

theorem writeFlash_nil (offset : ℕ) : d.writeFlash offset [] = d.flash := by
  rw [writeFlash, List.append_nil, List.length_nil, Nat.add_zero, List.take_append_drop]

/-- **Two writes, one behind the other, are one.** -/
theorem writeFlash_writeFlash {offset : ℕ} {data more : List Byte}
    (hflash : d'.flash = d.writeFlash offset data)
    (h : offset + data.length ≤ d.flash.length) :
    d'.writeFlash (offset + data.length) more = d.writeFlash offset (data ++ more) := by
  have hlen : (d.flash.take offset ++ data).length = offset + data.length := by
    rw [List.length_append, List.length_take]
    omega
  simp only [writeFlash] at hflash ⊢
  rw [hflash, List.take_left' hlen, List.drop_append, hlen, List.drop_eq_nil_of_le (by omega),
    List.nil_append, List.drop_drop, List.length_append, List.append_assoc (d.flash.take offset)]
  congr 2
  omega

/-- The bytes of a write. -/
theorem writeFlash_inside {offset : ℕ} {data : List Byte}
    (h : offset + data.length ≤ d.flash.length) :
    ((d.writeFlash offset data).drop offset).take data.length = data := by
  have hlen : (d.flash.take offset).length = offset := by
    rw [List.length_take]
    omega
  rw [writeFlash, List.append_assoc, List.drop_left' hlen, List.take_left]

/-- A download: the server before it, the address and the image, which fits. -/
structure Firmware (config : UdsServerConfig) where
  start : Diagnostics
  address : BitVec 32
  image : List Byte
  base : config.flashBase ≤ address
  length : start.flash.length = config.flashSize.toNat
  fits : address.toNat - config.flashBase.toNat + image.length ≤ config.flashSize.toNat

namespace Firmware

/-- Where the image goes in the flash. -/
def offset (fw : Firmware config) : ℕ := fw.address.toNat - config.flashBase.toNat

/-- Before the download. -/
structure Ready (fw : Firmware config) (d : Diagnostics) : Prop where
  programmable : Programmable config d
  flash : d.flash = fw.start.flash

/-- Between two requests of the download: `data` is written, and `block` is next. -/
structure Downloading (fw : Firmware config) (data : List Byte) (block : Byte) (d : Diagnostics) :
    Prop where
  flashBase : d.config.flashBase = config.flashBase
  active : d.downloadActive = true
  address : d.downloadAddress = fw.address
  size : d.downloadSize = BitVec.ofNat 32 fw.image.length
  written : d.downloadWritten = BitVec.ofNat 32 data.length
  block : d.expectedBlock = block
  flash : d.flash = fw.start.writeFlash fw.offset data

/-- After the download. -/
structure Downloaded (fw : Firmware config) (d : Diagnostics) : Prop where
  complete : d.downloadComplete = true
  written : d.downloadWritten = BitVec.ofNat 32 fw.image.length
  flash : d.flash = fw.start.writeFlash fw.offset fw.image

variable {fw : Firmware config} {data more : List Byte} {block : Byte}

theorem fits_flash (fw : Firmware config) :
    fw.offset + fw.image.length ≤ fw.start.flash.length := by
  rw [fw.length]
  exact fw.fits

theorem Ready.handle_download (h : fw.Ready d)
    (asks : AsksFor request fw.address (BitVec.ofNat 32 fw.image.length)) (now : ℕ) : ∃ d',
    d.handle request now = some ([0x74, 0x20, 0x02, 0x00], d') ∧ fw.Downloading [] 1 d' := by
  have hfits := fw.fits
  have hlt := config.flashSize.isLt
  have hdownload : d.AsksDownload request :=
    { service := asks.service
      length := by have := asks.fields; have := asks.addressBytes; omega
      session := h.programmable.session
      unlocked := h.programmable.unlocked
      address := asks.addressBytes
      size := asks.sizeBytes
      fields := asks.fields }
  have hrange : ¬ d.OutOfRange request := by
    rw [OutOfRange, asks.address, asks.size, h.programmable.flashBase, h.programmable.flashSize]
    rintro (hlow | hhigh)
    · exact absurd fw.base (BitVec.not_le.2 hlow)
    · rw [BitVec.lt_def, BitVec.toNat_add, BitVec.toNat_sub_of_le fw.base,
        BitVec.toNat_ofNat] at hhigh
      omega
  refine ⟨_, hdownload.accepted hrange, ?_⟩
  exact ⟨h.programmable.flashBase, rfl, asks.address, asks.size, rfl, rfl,
    h.flash.trans (writeFlash_nil _).symm⟩

/-- **One block:** both sides count on alike. -/
theorem Downloading.handle_block (h : fw.Downloading data block d)
    (hmore : data.length + more.length ≤ fw.image.length) (now : ℕ) : ∃ response d',
    d.handle (Client.transferDataPayload block more) now = some (response, d') ∧
      UdsServer.finalAnswer response d' = [0x76, block] ∧
      fw.Downloading (data ++ more) (nextBlock block) d' := by
  have hfits := fw.fits
  have hlt := config.flashSize.isLt
  have hflash := fw.fits_flash
  have hoffset : d.blockOffset = fw.offset + data.length := by
    rw [blockOffset, h.flashBase, h.address, h.written, BitVec.toNat_add,
      BitVec.toNat_sub_of_le fw.base, BitVec.toNat_ofNat, offset]
    omega
  have hlength : d.flash.length = fw.start.flash.length := by
    rw [h.flash, writeFlash_length (by omega)]
  have writes : d.WritesBlock (Client.transferDataPayload block more) :=
    { service := rfl
      active := h.active
      length := Nat.le_add_left 2 more.length
      block := h.block.symm
      fits := by
        have hcount : (Client.transferDataPayload block more).length - 2 = more.length := rfl
        rw [hoffset, hlength, hcount]
        omega }
  obtain ⟨response, deferred, service, untilNs, left, hd, hfinal⟩ := writes.answered now
  refine ⟨response, _, hd, h.block ▸ hfinal, h.flashBase, h.active, h.address, h.size, ?_, ?_, ?_⟩
  · simp only [h.written, List.length_append]
    exact (BitVec.ofNat_add _ _).symm
  · simp only [h.block]
  · simp only [hoffset]
    exact writeFlash_writeFlash h.flash (by omega)

theorem Downloading.handle_exit (h : fw.Downloading fw.image block d) (now : ℕ) : ∃ d',
    d.handle Client.requestTransferExitPayload now = some ([0x77], d') ∧ fw.Downloaded d' :=
  ⟨_, Diagnostics.handle_exit h.active (h.written.trans h.size.symm), rfl, h.written, h.flash⟩

end Firmware

end Diagnostics

/-- An answer is the positive one to its request. -/
def PositiveTo (request answer : List Byte) : Prop :=
  answer.head? = some (request.getD 0 0 + kPositiveResponseOffset)

instance (request answer : List Byte) : Decidable (PositiveTo request answer) :=
  inferInstanceAs (Decidable (_ = _))

namespace UdsServer

open Diagnostics

/-- What a server does between two requests. -/
inductive IdleStep
  | poll (now : ℕ)
  | addDtc (dtc : Dtc)

/-- The server with the final answers to its requests. -/
def server : Server UdsServer (List Byte) ℕ IdleStep (List Byte) where
  handle s request now := (s.toDiagnostics.handle request now).bind fun (response, d) =>
    (s.respond request now).map fun t => (finalAnswer response d, t)
  idle s
    | .poll now => (s.poll now).1
    | .addDtc dtc => s.addDtc dtc

variable {config : UdsServerConfig} {s t : UdsServer} {P Q : Diagnostics → Prop}
  {request : List Byte} {A : List Byte → Prop}

/-- What does not depend on the deferred answer and the trouble codes is stable. -/
theorem stable_of (h : ∀ d deferredResponse pendingLeft dtcs, P d →
    P { d with deferredResponse, pendingLeft, dtcs }) :
    server.Stable fun s => P s.toDiagnostics := by
  intro s i hs
  cases i with
  | poll now =>
    obtain ⟨deferredResponse, pendingLeft, hd⟩ := s.poll_toDiagnostics now
    have ht := h _ deferredResponse pendingLeft s.dtcs hs
    rw [← hd] at ht
    exact ht
  | addDtc dtc => exact h _ s.deferredResponse s.pendingLeft (s.dtcs ++ [dtc]) hs

/-- A triple of the server is one of its diagnostic state. -/
theorem triple_of (h : ∀ d now, P d → ∃ response d', d.handle request now = some (response, d') ∧
    A (finalAnswer response d') ∧ Q d') :
    server.Triple (fun s => P s.toDiagnostics) request A fun s => Q s.toDiagnostics := by
  intro s now hs
  obtain ⟨response, d', hd, ha, hq⟩ := h _ now hs
  have hserver : server.handle s request now = (s.respond request now).map
      fun t => (finalAnswer response d', t) := by
    rw [server]
    simp only [hd]
    rfl
  have hsome : (s.respond request now).isSome := by
    rw [respond, Option.isSome_map]
    exact Option.isSome_of_eq_some hd
  obtain ⟨t, ht⟩ := Option.isSome_iff_exists.1 hsome
  obtain ⟨response', hd'⟩ := respond_handle ht
  cases hd.symm.trans hd'
  exact ⟨_, t, by rw [hserver, ht]; rfl, ha, hq⟩

/-- The rows of a script whose requests are answered positively. -/
def positiveRows (requests : List (List Byte)) : List (List Byte × (List Byte → Prop)) :=
  requests.map fun request => (request, PositiveTo request)

variable {fw : Firmware config}

theorem Ready.stable : server.Stable fun s => fw.Ready s.toDiagnostics :=
  stable_of fun _ _ _ _ h =>
    ⟨⟨h.programmable.flashBase, h.programmable.flashSize, h.programmable.length,
      h.programmable.unlocked, h.programmable.session⟩, h.flash⟩

theorem Downloading.stable {data : List Byte} {block : Byte} :
    server.Stable fun s => fw.Downloading data block s.toDiagnostics :=
  stable_of fun _ _ _ _ h => ⟨h.flashBase, h.active, h.address, h.size, h.written, h.block, h.flash⟩

theorem Downloaded.stable : server.Stable fun s => fw.Downloaded s.toDiagnostics :=
  stable_of fun _ _ _ _ h => ⟨h.complete, h.written, h.flash⟩

/-- **The block loop**, by induction on the blocks that are left. -/
theorem transfer_script (blocks : List (List Byte)) {data : List Byte} {block : Byte}
    (himage : data ++ blocks.flatten = fw.image) :
    server.Script (fun s => fw.Downloading data block s.toDiagnostics)
      (positiveRows (Client.transferRequests block blocks))
      fun s => fw.Downloading fw.image (nextBlock^[blocks.length] block) s.toDiagnostics := by
  induction blocks generalizing data block with
  | nil =>
    rw [List.flatten_nil, List.append_nil] at himage
    rw [← himage]
    exact .done Downloading.stable
  | cons more blocks ih =>
    rw [List.flatten_cons, ← List.append_assoc] at himage
    have hmore : data.length + more.length ≤ fw.image.length := by
      rw [← himage, List.length_append, List.length_append]
      omega
    refine .ask Downloading.stable (triple_of fun d now hd => ?_) (ih himage)
    obtain ⟨response, d', hhandle, hfinal, hd'⟩ := hd.handle_block hmore now
    exact ⟨response, d', hhandle, by rw [hfinal]; rfl, hd'⟩

/-- The requests of a download. -/
def downloadRequests (request : List Byte) (blocks : List (List Byte)) : List (List Byte) :=
  request :: (Client.transferRequests 1 blocks ++ [Client.requestTransferExitPayload])

/-- **The whole download as a script.** -/
theorem download_script {blocks : List (List Byte)} (himage : blocks.flatten = fw.image)
    (asks : AsksFor request fw.address (BitVec.ofNat 32 fw.image.length)) :
    server.Script (fun s => fw.Ready s.toDiagnostics)
      (positiveRows (downloadRequests request blocks)) fun s => fw.Downloaded s.toDiagnostics := by
  have hdownload : server.Triple (fun s => fw.Ready s.toDiagnostics) request (PositiveTo request)
      fun s => fw.Downloading [] 1 s.toDiagnostics := by
    refine triple_of fun d now hd => ?_
    obtain ⟨d', hhandle, hd'⟩ := hd.handle_download asks now
    exact ⟨_, d', hhandle, by rw [PositiveTo, asks.service]; rfl, hd'⟩
  have hexit : server.Script
      (fun s => fw.Downloading fw.image (nextBlock^[blocks.length] 1) s.toDiagnostics)
      (positiveRows [Client.requestTransferExitPayload])
      fun s => fw.Downloaded s.toDiagnostics := by
    refine .ask Downloading.stable (triple_of fun d now hd => ?_) (.done Downloaded.stable)
    obtain ⟨d', hhandle, hd'⟩ := hd.handle_exit now
    exact ⟨_, d', hhandle, rfl, hd'⟩
  rw [downloadRequests, positiveRows, List.map_cons, List.map_append]
  exact .ask Ready.stable hdownload ((transfer_script blocks himage).append hexit)

/-- The flash of a reachable server is as long as its configuration says, and where. -/
theorem Reachable.geometry (h : Reachable config s) :
    s.config.flashBase = config.flashBase ∧ s.config.flashSize = config.flashSize ∧
      s.flash.length = config.flashSize.toNat := by
  induction h with
  | refl => exact ⟨rfl, rfl, List.length_replicate⟩
  | tail _ _ hstep ih =>
    rcases step_cases hstep with ⟨request, now, response, _, hd⟩ | ⟨_, _, _, _, ht⟩
    · obtain ⟨hbase, hsize, hlength⟩ := (handle_handled hd).geometry
      exact ⟨hbase.trans ih.1, hsize.trans ih.2.1, hlength.trans ih.2.2⟩
    · rw [ht]
      exact ih

/-- A reachable server that is ready for a download that fits its flash. -/
theorem Reachable.ready (h : Reachable config s) (hunlocked : s.unlocked = true)
    (hsession : s.session = .programming) {address : BitVec 32} {image : List Byte}
    (hbase : config.flashBase ≤ address)
    (hfits : address.toNat - config.flashBase.toNat + image.length ≤ config.flashSize.toNat) :
    ∃ fw : Firmware config, fw.start = s.toDiagnostics ∧ fw.address = address ∧
      fw.image = image ∧ fw.Ready s.toDiagnostics := by
  obtain ⟨hflashBase, hflashSize, hlength⟩ := h.geometry
  exact ⟨⟨s.toDiagnostics, address, image, hbase, hlength, hfits⟩, rfl, rfl, rfl,
    ⟨hflashBase, hflashSize, hlength, hunlocked, hsession⟩, rfl⟩

/-- **A firmware download, end to end.**  From every reachable server that is unlocked and in
the programming session, for every address and every image in blocks that lies in the
flash, and whatever polls come in between: every answer is positive, the download is
complete, the image is in the flash at its address, and no other byte has changed. -/
theorem download_end_to_end (h : Reachable config s) (hunlocked : s.unlocked = true)
    (hsession : s.session = .programming) {address : BitVec 32} {blocks : List (List Byte)}
    (hbase : config.flashBase ≤ address)
    (hfits : address.toNat - config.flashBase.toNat + blocks.flatten.length ≤
      config.flashSize.toNat)
    (asks : AsksFor request address (BitVec.ofNat 32 blocks.flatten.length))
    {turns : List (Turn (List Byte) ℕ IdleStep)}
    (hturns : asked turns = downloadRequests request blocks) : ∃ answers t,
      server.serve s turns = some (answers, t) ∧
      (downloadRequests request blocks).Forall₂ PositiveTo answers ∧
      t.downloadComplete = true ∧
      (t.flash.drop (address.toNat - config.flashBase.toNat)).take blocks.flatten.length =
        blocks.flatten ∧
      ∀ i, i < address.toNat - config.flashBase.toNat ∨
        address.toNat - config.flashBase.toNat + blocks.flatten.length ≤ i →
        t.flash[i]? = s.flash[i]? := by
  obtain ⟨fw, hstart, rfl, himage, hready⟩ := h.ready hunlocked hsession hbase hfits
  rw [← himage] at asks
  have hrows : asked turns = (positiveRows (downloadRequests request blocks)).map Prod.fst := by
    rw [hturns, positiveRows, List.map_map]
    exact (List.map_id _).symm
  obtain ⟨answers, t, hserve, hanswers, hdone⟩ :=
    (download_script himage.symm asks).serve turns hready hrows
  have hflash := fw.fits_flash
  refine ⟨answers, t, hserve, ?_, hdone.complete, ?_, fun i hi => ?_⟩
  · rw [positiveRows, List.forall₂_map_left_iff] at hanswers
    exact hanswers
  · rw [← himage, hdone.flash]
    exact writeFlash_inside hflash
  · rw [hdone.flash, ← himage] at *
    rw [← hstart]
    exact writeFlash_outside hflash hi

/-- The requests that leave a server unlocked in the programming session. -/
def unlockForProgramming : List ServerEvent := startDownload.take 3

theorem exists_unlocked : ∃ s, Reachable fourBytes s ∧ s.unlocked = true ∧
    s.session = .programming ∧ s.flash = [0xFF, 0xFF, 0xFF, 0xFF] :=
  Reach.exists_of_run unlockForProgramming (by decide +kernel)

/-- The RequestDownload for `size` bytes behind the first byte of the flash. -/
def requestBehindBase (size : Byte) : List Byte := [0x34, 0x00, 0x14, 0x08, 0x00, 0x00, 0x01, size]

/-- Three bytes in two blocks behind the first byte, with a poll between them. -/
def twoBlocks : List (Turn (List Byte) ℕ IdleStep) :=
  [.ask (requestBehindBase 3) 0, .ask [0x36, 0x01, 1, 2] 1, .idle (.poll 2),
    .ask [0x36, 0x02, 3] 3, .ask [0x37] 4]

theorem download_end_to_end_two_blocks : ∃ s answers t, Reachable fourBytes s ∧
    server.serve s twoBlocks = some (answers, t) ∧ t.downloadComplete = true ∧
    (t.flash.drop 1).take 3 = [1, 2, 3] := by
  obtain ⟨s, hs, hunlocked, hsession, _⟩ := exists_unlocked
  have asks : AsksFor (requestBehindBase 3) 0x08000001
      (BitVec.ofNat 32 ([[1, 2], [3]] : List (List Byte)).flatten.length) :=
    ⟨rfl, by decide, by decide, by decide, by decide, by decide⟩
  have hturns : asked twoBlocks = downloadRequests (requestBehindBase 3) [[1, 2], [3]] := rfl
  obtain ⟨answers, t, hserve, _, hcomplete, hflash, _⟩ :=
    download_end_to_end hs hunlocked hsession (by decide) (by decide) asks hturns
  exact ⟨s, answers, t, hs, hserve, hcomplete, hflash⟩

end UdsServer

end Sim
end Canforge
