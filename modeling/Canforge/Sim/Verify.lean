/-
# What the verify routine checks

Routine `0xFF01` sums as many bytes as the download has written, but from the start of
the flash and not from the address of the download.  `verify_iff` says exactly when the
sum it reports behind a download is that of the image: with `k` the smaller of the
offset and the size, the first `k` bytes of the flash have to sum to what the last `k`
bytes of the image do.  At the start of the flash `k` is zero (`verify_at_base`); behind it
the routine reads bytes that were not downloaded (`verify_reads_other_bytes`).
-/

import Canforge.Sim.Firmware

namespace Canforge

namespace Uds

open Canforge.Core

/-- The payload of `routine_control`. -/
def Client.routineControlPayload (type : Byte) (routine : BitVec 16) (parameters : List Byte) :
    List Byte :=
  [Service.routineControl.toByte, type] ++ pushBe (routine.setWidth 32) 2 ++ parameters

theorem pushBe_injective {a b : BitVec 32} (h : pushBe a 4 = pushBe b 4) : a = b := by
  have hvalue := congrArg beValue h
  rw [beValue_pushBe, beValue_pushBe, Nat.mod_eq_of_lt a.isLt, Nat.mod_eq_of_lt b.isLt] at hvalue
  exact BitVec.eq_of_toNat_eq hvalue

end Uds

namespace Sim

open Canforge.Core IsoTp Lib Uds

/-- The sum of some bytes modulo `2 ^ 32`. -/
def byteSum (bytes : List Byte) : BitVec 32 := (bytes.map (·.setWidth 32)).sum

theorem byteSum_append (xs ys : List Byte) : byteSum (xs ++ ys) = byteSum xs + byteSum ys := by
  rw [byteSum, List.map_append, List.sum_append]
  rfl

theorem checksum_eq {flash : List Byte} {written : ℕ} (h : written ≤ flash.length) :
    checksum flash written = some (byteSum (flash.take written)) := by
  induction written with
  | zero => rfl
  | succ n ih =>
    have hbyte : flash[n]? = some flash[n] := List.getElem?_eq_getElem h
    rw [checksum, List.range_succ, List.foldlM_append, ← checksum, ih (Nat.le_of_succ_le h),
      List.take_add_one, byteSum_append, hbyte]
    simp [byteSum, hbyte]

/-- The start of the verify routine. -/
def verifyRequest (parameters : List Byte) : List Byte :=
  Client.routineControlPayload 0x01 0xFF01 parameters

/-- Its answer with a sum. -/
def verifyAnswer (sum : BitVec 32) : List Byte := [0x71, 0x01, 0xFF, 0x01] ++ pushBe sum 4

namespace Diagnostics

variable {config : UdsServerConfig} {d : Diagnostics} {parameters : List Byte} {now : ℕ}

theorem handle_verify (h : d.downloadWritten.toNat ≤ d.flash.length) :
    d.handle (verifyRequest parameters) now =
      some (verifyAnswer (byteSum (d.flash.take d.downloadWritten.toNat)), d) := by
  have hrequest : verifyRequest parameters = 0x31 :: 0x01 :: 0xFF :: 0x01 :: parameters := rfl
  have hroutine : readBe (0x31 :: 0x01 :: 0xFF :: 0x01 :: parameters) 2 2 = 0xFF01 := rfl
  have hlen : ¬ (0x31 :: 0x01 :: 0xFF :: 0x01 :: parameters : List Byte).length < 4 :=
    Nat.not_lt.2 (Nat.le_add_left 4 parameters.length)
  have hservice : Service.ofByte 0x31 = some .routineControl := rfl
  have hanswered : suppresses (0x31 :: 0x01 :: 0xFF :: 0x01 :: parameters) = false := by
    simp [suppresses, kSuppressPositiveResponse]
  have hsub : subFunction (0x31 :: 0x01 :: 0xFF :: 0x01 :: parameters) = 0x01 := by
    simp [subFunction]
  rw [hrequest, handle, hservice]
  simp only [routineControl]
  rw [if_neg hlen, hroutine, if_neg (by decide), if_pos (by decide), checksum_eq h]
  simp only [Option.map_some, positive, hanswered, hsub]
  rfl

open UdsServer

theorem Firmware.Downloaded.handle_verify {fw : Firmware config} (h : fw.Downloaded d) (now : ℕ) :
    d.handle (verifyRequest parameters) now = some (verifyAnswer
      (byteSum ((fw.start.writeFlash fw.offset fw.image).take fw.image.length)), d) := by
  have hflash := fw.fits_flash
  have hlt := config.flashSize.isLt
  have hfits := fw.fits
  have hwritten : d.downloadWritten.toNat = fw.image.length := by
    rw [h.written, BitVec.toNat_ofNat]
    exact Nat.mod_eq_of_lt (by omega)
  have hlength : d.flash.length = fw.start.flash.length := by
    rw [h.flash, writeFlash_length hflash]
  rw [Diagnostics.handle_verify (by omega), hwritten, h.flash]

/-- **The window of the routine**: up to the offset the flash as it was, then the image. -/
theorem take_writeFlash {offset : ℕ} {image : List Byte}
    (h : offset + image.length ≤ d.flash.length) :
    (d.writeFlash offset image).take image.length =
      d.flash.take (min offset image.length) ++ image.take (image.length - offset) := by
  have hlen : (d.flash.take offset).length = offset := by
    rw [List.length_take]
    omega
  rw [writeFlash, List.append_assoc, List.take_append, hlen, List.take_take, Nat.min_comm,
    List.take_append_of_le_length (by omega)]

/-- The two sums agree if and only if those of the parts that are not shared do. -/
theorem byteSum_window_iff {offset : ℕ} {image : List Byte}
    (h : offset + image.length ≤ d.flash.length) :
    byteSum ((d.writeFlash offset image).take image.length) = byteSum image ↔
      byteSum (d.flash.take (min offset image.length)) =
        byteSum (image.drop (image.length - min offset image.length)) := by
  have hsame : image.length - min offset image.length = image.length - offset := by omega
  have hsplit : byteSum image = byteSum (image.drop (image.length - offset)) +
      byteSum (image.take (image.length - offset)) := by
    rw [BitVec.add_comm, ← byteSum_append, List.take_append_drop]
  rw [take_writeFlash h, byteSum_append, hsame, hsplit]
  exact BitVec.add_left_inj _

end Diagnostics

namespace UdsServer

open Diagnostics

variable {config : UdsServerConfig} {s : UdsServer} {request parameters : List Byte}

/-- The verify routine, asked behind the completed download, reports the sum of `image`. -/
def Verifies (s : UdsServer) (turns : List (Turn (List Byte) ℕ IdleStep)) (image : List Byte) :
    Prop :=
  ∃ answers t, server.serve s turns = some (answers, t) ∧ t.downloadComplete = true ∧
    answers.getLast? = some (verifyAnswer (byteSum image))

/-- **The verify routine, exactly.**  Behind a completed download the routine reports the sum of
the image if and only if the bytes it reads too early sum to those it leaves out. -/
theorem verify_iff (h : Reachable config s) (hunlocked : s.unlocked = true)
    (hsession : s.session = .programming) {address : BitVec 32} {blocks : List (List Byte)}
    (hbase : config.flashBase ≤ address)
    (hfits : address.toNat - config.flashBase.toNat + blocks.flatten.length ≤
      config.flashSize.toNat)
    (asks : AsksFor request address (BitVec.ofNat 32 blocks.flatten.length))
    {turns : List (Turn (List Byte) ℕ IdleStep)}
    (hturns : asked turns = downloadRequests request blocks ++ [verifyRequest parameters]) :
    Verifies s turns blocks.flatten ↔
      byteSum (s.flash.take
          (min (address.toNat - config.flashBase.toNat) blocks.flatten.length)) =
        byteSum (blocks.flatten.drop (blocks.flatten.length -
          min (address.toNat - config.flashBase.toNat) blocks.flatten.length)) := by
  obtain ⟨fw, hstart, rfl, himage, hready⟩ := h.ready hunlocked hsession hbase hfits
  have hflash := fw.fits_flash
  rw [← himage] at asks
  set sum := byteSum ((fw.start.writeFlash fw.offset fw.image).take fw.image.length) with hsum
  have hverify : server.Script (fun s => fw.Downloaded s.toDiagnostics)
      [(verifyRequest parameters, (· = verifyAnswer sum))] fun s => fw.Downloaded s.toDiagnostics :=
    .ask Downloaded.stable (triple_of fun d now hd => ⟨_, d, hd.handle_verify now,
      if_neg fun h => absurd h.1 (by decide : ¬ (0x71 : Byte) = kNegativeResponse), hd⟩)
      (.done Downloaded.stable)
  have hrows : asked turns = (positiveRows (downloadRequests request blocks) ++
      [(verifyRequest parameters, (· = verifyAnswer sum))]).map Prod.fst := by
    rw [hturns, List.map_append, positiveRows, List.map_map]
    exact congrArg (· ++ _) (List.map_id _).symm
  obtain ⟨answers, t, hserve, hanswers, hdone⟩ :=
    ((download_script himage.symm asks).append hverify).serve turns hready hrows
  have hlast : answers.getLast? = some (verifyAnswer sum) := by
    rw [← List.forall₂_reverse_iff, List.reverse_append, List.reverse_singleton,
      List.singleton_append, List.forall₂_cons_left_iff] at hanswers
    obtain ⟨last, _, rfl, _, hreverse⟩ := hanswers
    rw [← List.head?_reverse, hreverse]
    rfl
  have hiff : Verifies s turns blocks.flatten ↔ sum = byteSum blocks.flatten := by
    constructor
    · rintro ⟨answers', t', hserve', _, hlast'⟩
      cases hserve.symm.trans hserve'
      have heq := Option.some.inj (hlast.symm.trans hlast')
      exact pushBe_injective (List.append_cancel_left heq)
    · intro heq
      exact ⟨answers, t, hserve, hdone.complete, heq ▸ hlast⟩
  rw [hiff, hsum, ← himage, byteSum_window_iff hflash, hstart]
  rfl

/-- **A download to the start of the flash is verified.** -/
theorem verify_at_base (h : Reachable config s) (hunlocked : s.unlocked = true)
    (hsession : s.session = .programming) {blocks : List (List Byte)}
    (hfits : blocks.flatten.length ≤ config.flashSize.toNat)
    (asks : AsksFor request config.flashBase (BitVec.ofNat 32 blocks.flatten.length))
    {turns : List (Turn (List Byte) ℕ IdleStep)}
    (hturns : asked turns = downloadRequests request blocks ++ [verifyRequest parameters]) :
    Verifies s turns blocks.flatten := by
  have hzero : config.flashBase.toNat - config.flashBase.toNat = 0 := Nat.sub_self _
  refine (verify_iff h hunlocked hsession (BitVec.le_refl _) (by omega) asks hturns).2 ?_
  rw [hzero, Nat.zero_min, Nat.sub_zero, List.drop_length]
  rfl

/-- Two bytes behind the first one, which the routine reads in place of the second. -/
def verifyBehindBase (image : List Byte) : List (Turn (List Byte) ℕ IdleStep) :=
  [.ask (requestBehindBase 2) 0, .ask (0x36 :: 0x01 :: image) 1, .ask [0x37] 2,
    .ask [0x31, 0x01, 0xFF, 0x01] 3]

/-- It reports the sum if that byte is `0xFF`, as the erased one. -/
theorem verify_iff_behind_base : ∃ s, Reachable fourBytes s ∧
    (Verifies s (verifyBehindBase [1, 0xFF]) [1, 0xFF] ↔ byteSum [0xFF] = byteSum [0xFF]) := by
  obtain ⟨s, hs, hunlocked, hsession, hflash⟩ := exists_unlocked
  have asks : AsksFor (requestBehindBase 2) 0x08000001
      (BitVec.ofNat 32 ([[1, 0xFF]] : List (List Byte)).flatten.length) :=
    ⟨rfl, by decide, by decide, by decide, by decide, by decide⟩
  have hturns : asked (verifyBehindBase [1, 0xFF]) =
      downloadRequests (requestBehindBase 2) [[1, 0xFF]] ++ [verifyRequest []] := rfl
  have hiff := verify_iff hs hunlocked hsession (by decide) (by decide) asks hturns
  rw [hflash] at hiff
  exact ⟨s, hs, hiff⟩

/-- **The defect.**  The image `[1, 2]` behind the first byte is in the flash, and the routine
reports the sum of `[0xFF, 1]`. -/
theorem verify_reads_other_bytes : ∃ s answers t, Reachable fourBytes s ∧
    server.serve s (verifyBehindBase [1, 2]) = some (answers, t) ∧ t.downloadComplete = true ∧
    t.flash = [0xFF, 1, 2, 0xFF] ∧
    answers.getLast? = some [0x71, 0x01, 0xFF, 0x01, 0x00, 0x00, 0x01, 0x00] ∧
    verifyAnswer (byteSum [1, 2]) = [0x71, 0x01, 0xFF, 0x01, 0x00, 0x00, 0x00, 0x03] := by
  have hrun : ((run step (fun _ _ => True) (create fourBytes) unlockForProgramming).bind fun s =>
      (server.serve s (verifyBehindBase [1, 2])).map fun (answers, t) =>
        (t.downloadComplete, t.flash, answers.getLast?)) =
      some (true, [0xFF, 1, 2, 0xFF],
        some [0x71, 0x01, 0xFF, 0x01, 0x00, 0x00, 0x01, 0x00]) := by decide +kernel
  obtain ⟨s, hs, hst⟩ := Option.bind_eq_some_iff.1 hrun
  obtain ⟨⟨answers, t⟩, hserve, heq⟩ := Option.map_eq_some_iff.1 hst
  simp only [Prod.mk.injEq] at heq
  exact ⟨s, answers, t, .of_run .refl hs, hserve, heq.1, heq.2.1, heq.2.2, by decide⟩

end UdsServer

end Sim
end Canforge
