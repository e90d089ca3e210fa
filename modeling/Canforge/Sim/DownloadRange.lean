/-
# The range of a RequestDownload

The address and the size of a RequestDownload are fields of up to 15 bytes, of which
`read_be` keeps the last four, and the server compares them with its flash in 32-bit
arithmetic.  `range_exact_iff` says when that is the comparison of the numbers that
were sent: neither does the flash itself reach past `2 ^ 32` (`PastTheTop`), nor does a
range that ends past it come back into the flash (`WrapsInto`).

The client has the opposite problem: its numbers are 32 bits wide and its fields may be
shorter, and `push_be` drops what does not fit (`understood_iff`).
-/

import Canforge.Sim.Firmware

namespace Canforge

namespace Uds
namespace Client

open Canforge.Core

/-- `request_download`. -/
def requestDownload (c : Client) (address size : BitVec 32) (addressBytes sizeBytes : Byte)
    (now : ℕ) : Result Client :=
  match requestDownloadPayload address size addressBytes sizeBytes with
  | none =>
    .error { code := .invalidArgument,
             message := "address and size must each be one to four bytes" }
  | some payload => c.request payload now

/-- A request that is accepted is the pending one. -/
theorem request_pending {c c' : Client} {payload : List Byte} {now : ℕ}
    (h : c.request payload now = .ok c') : c'.pendingRequest = payload := by
  unfold request at h
  split_ifs at h
  cases payload with
  | nil => cases h
  | cons service rest =>
    cases h
    simp only [beginTransfer]
    split
    · rfl
    · rfl

end Client
end Uds

namespace Sim

open Canforge.Core IsoTp Lib Uds

/-! ### The numbers that were sent -/

/-- The address field as a number, all of its bytes. -/
def sentAddress (request : List Byte) : ℕ :=
  beValue ((request.drop 3).take (addressBytes request))

/-- The size field as a number. -/
def sentSize (request : List Byte) : ℕ :=
  beValue ((request.drop (3 + addressBytes request)).take (sizeBytes request))

theorem requestedAddress_toNat (request : List Byte) :
    (requestedAddress request).toNat = sentAddress request % 2 ^ 32 := by
  rw [requestedAddress, readBe_eq, BitVec.toNat_ofNat]
  rfl

theorem requestedSize_toNat (request : List Byte) :
    (requestedSize request).toNat = sentSize request % 2 ^ 32 := by
  rw [requestedSize, readBe_eq, BitVec.toNat_ofNat]
  rfl

/-- The range that was sent lies in the flash. -/
def InFlash (config : UdsServerConfig) (request : List Byte) : Prop :=
  config.flashBase.toNat ≤ sentAddress request ∧
    sentAddress request + sentSize request ≤ config.flashBase.toNat + config.flashSize.toNat

/-- The range is in the flash, behind the last address of 32 bits. -/
def PastTheTop (config : UdsServerConfig) (request : List Byte) : Prop :=
  2 ^ 32 ≤ sentAddress request ∧
    sentAddress request + sentSize request ≤ config.flashBase.toNat + config.flashSize.toNat

/-- The range ends `2 ^ 32` bytes or more behind the base of the flash, and its 32-bit image is in
the flash. -/
def WrapsInto (config : UdsServerConfig) (request : List Byte) : Prop :=
  config.flashBase.toNat + 2 ^ 32 ≤ sentAddress request + sentSize request ∧
    config.flashBase.toNat ≤ sentAddress request % 2 ^ 32 ∧
    (sentAddress request % 2 ^ 32 - config.flashBase.toNat + sentSize request % 2 ^ 32) % 2 ^ 32 ≤
      config.flashSize.toNat

instance (config : UdsServerConfig) (request : List Byte) : Decidable (InFlash config request) :=
  inferInstanceAs (Decidable (_ ∧ _))

namespace Diagnostics

variable {d : Diagnostics} {request : List Byte}

/-- **The check, with natural numbers.** -/
theorem outOfRange_iff : d.OutOfRange request ↔
    sentAddress request % 2 ^ 32 < d.config.flashBase.toNat ∨
      d.config.flashSize.toNat < (sentAddress request % 2 ^ 32 - d.config.flashBase.toNat +
        sentSize request % 2 ^ 32) % 2 ^ 32 := by
  rw [OutOfRange, BitVec.lt_def, BitVec.lt_def, BitVec.toNat_add, requestedAddress_toNat,
    requestedSize_toNat]
  by_cases hlow : sentAddress request % 2 ^ 32 < d.config.flashBase.toNat
  · simp only [hlow, true_or]
  · rw [BitVec.toNat_sub_of_le (BitVec.le_def.2 _), requestedAddress_toNat]
    rw [requestedAddress_toNat]
    exact Nat.not_lt.1 hlow

/-- A RequestDownload is answered positively if its range passes the check. -/
theorem AsksDownload.positive_iff (asks : d.AsksDownload request) (now : ℕ) :
    (∃ body d', d.handle request now = some (0x74 :: body, d')) ↔ ¬ d.OutOfRange request := by
  constructor
  · rintro ⟨body, d', hd⟩ range
    rw [asks.refused range] at hd
    cases hd
  · intro range
    exact ⟨_, _, asks.accepted range⟩

/-- **The range check, exactly.**  To a RequestDownload with fields of any width the server gives
the answer that the numbers deserve if and only if neither is the range in the flash behind
the last address of 32 bits, nor does it wrap into the flash. -/
theorem range_exact_iff (asks : d.AsksDownload request) (now : ℕ) :
    ((∃ body d', d.handle request now = some (0x74 :: body, d')) ↔ InFlash d.config request) ↔
      ¬ PastTheTop d.config request ∧ ¬ WrapsInto d.config request := by
  have hbase := d.config.flashBase.isLt
  have hsize := d.config.flashSize.isLt
  rw [asks.positive_iff now, outOfRange_iff, InFlash, PastTheTop, WrapsInto]
  omega

/-- An unlocked server in the programming session, with four bytes of flash. -/
def programming : Diagnostics where
  config := UdsServer.fourBytes
  session := .programming
  unlocked := true
  flash := [0xFF, 0xFF, 0xFF, 0xFF]
  dtcs := []

/-- All of the flash, with an address of five bytes. -/
theorem range_exact_five : ∃ body d', programming.handle
    [0x34, 0x00, 0x15, 0x00, 0x08, 0x00, 0x00, 0x00, 0x04] 0 = some (0x74 :: body, d') := by
  have asks : programming.AsksDownload [0x34, 0x00, 0x15, 0x00, 0x08, 0x00, 0x00, 0x00, 0x04] := by
    decide
  refine ((range_exact_iff asks 0).2 ⟨fun h => ?_, fun h => ?_⟩).2 (by decide)
  · exact absurd h.1 (by decide)
  · exact absurd h.1 (by decide)

/-- **The defect.**  The address `0x108000000` is taken for `0x08000000`. -/
theorem wide_address_accepted : ∃ s, UdsServer.Reachable UdsServer.fourBytes s ∧
    s.AsksDownload [0x34, 0x00, 0x15, 0x01, 0x08, 0x00, 0x00, 0x00, 0x04] ∧
    (∃ body d', s.handle [0x34, 0x00, 0x15, 0x01, 0x08, 0x00, 0x00, 0x00, 0x04] 0 =
      some (0x74 :: body, d')) ∧
    ¬ InFlash s.config [0x34, 0x00, 0x15, 0x01, 0x08, 0x00, 0x00, 0x00, 0x04] := by
  obtain ⟨s, hs, asks, hrange, hout⟩ : ∃ s, UdsServer.Reachable UdsServer.fourBytes s ∧
      s.AsksDownload [0x34, 0x00, 0x15, 0x01, 0x08, 0x00, 0x00, 0x00, 0x04] ∧
      ¬ s.OutOfRange [0x34, 0x00, 0x15, 0x01, 0x08, 0x00, 0x00, 0x00, 0x04] ∧
      ¬ InFlash s.config [0x34, 0x00, 0x15, 0x01, 0x08, 0x00, 0x00, 0x00, 0x04] :=
    Reach.exists_of_run (UdsServer.startDownload.take 3) (by decide +kernel)
  exact ⟨s, hs, asks, (asks.positive_iff 0).2 hrange, hout⟩

/-! ### The client -/

/-- The server stores what it reads, in range or not. -/
theorem AsksDownload.stored (asks : d.AsksDownload request) (now : ℕ) : ∃ response d',
    d.handle request now = some (response, d') ∧
      d'.downloadAddress = requestedAddress request ∧
      d'.downloadSize = requestedSize request := by
  by_cases range : d.OutOfRange request
  · exact ⟨_, _, asks.refused range, rfl, rfl⟩
  · exact ⟨_, _, asks.accepted range, rfl, rfl⟩

/-- A field of `n` bytes holds the number. -/
theorem ofNat_low_eq_iff (value : BitVec 32) (n : ℕ) :
    BitVec.ofNat 32 (value.toNat % 2 ^ n) = value ↔ value.toNat < 2 ^ n := by
  have hlt := value.isLt
  have hle := Nat.mod_le value.toNat (2 ^ n)
  constructor
  · intro h
    have hmod := congrArg BitVec.toNat h
    rw [BitVec.toNat_ofNat, Nat.mod_eq_of_lt (Nat.lt_of_le_of_lt hle hlt)] at hmod
    exact hmod ▸ Nat.mod_lt _ (Nat.two_pow_pos n)
  · intro h
    rw [Nat.mod_eq_of_lt h, BitVec.ofNat_toNat, BitVec.setWidth_eq]

/-- **The client is understood, exactly.**  What an unlocked server in the programming session
reads out of the request of an accepted `request_download` is the address and the size of
the call if and only if each fits in its field. -/
theorem understood_iff {c c' : Client} {address size : BitVec 32} {addressBytes sizeBytes : Byte}
    {now : ℕ} (h : c.requestDownload address size addressBytes sizeBytes now = .ok c')
    (hsession : d.session = .programming) (hunlocked : d.unlocked = true) (later : ℕ) :
    (∃ response d', d.handle c'.pendingRequest later = some (response, d') ∧
      d'.downloadAddress = address ∧ d'.downloadSize = size) ↔
      address.toNat < 2 ^ (8 * addressBytes.toNat) ∧ size.toNat < 2 ^ (8 * sizeBytes.toNat) := by
  unfold Client.requestDownload at h
  cases hpayload : Client.requestDownloadPayload address size addressBytes sizeBytes with
  | none =>
    rw [hpayload] at h
    cases h
  | some payload =>
    rw [hpayload] at h
    have hlow := requestDownloadPayload_low hpayload
    have asks : d.AsksDownload payload :=
      { service := hlow.service
        length := by have := hlow.fields; have := hlow.addressBytes; omega
        session := hsession
        unlocked := hunlocked
        address := hlow.addressBytes
        size := hlow.sizeBytes
        fields := hlow.fields }
    obtain ⟨response, d', hd, haddress, hsize⟩ := asks.stored later
    rw [hlow.address] at haddress
    rw [hlow.size] at hsize
    rw [Client.request_pending h, ← ofNat_low_eq_iff, ← ofNat_low_eq_iff]
    constructor
    · rintro ⟨response', d'', hd', haddress', hsize'⟩
      rw [hd] at hd'
      cases hd'
      exact ⟨haddress.symm.trans haddress', hsize.symm.trans hsize'⟩
    · rintro ⟨ha, hs⟩
      exact ⟨response, d', hd, haddress.trans ha, hsize.trans hs⟩

/-- A client of the server. -/
def freshClient : Client := Client.create { transport := testerConfig }

/-- Three bytes of address and two of size. -/
theorem understood_three_two : ∃ c', freshClient.requestDownload 0x08FFFF 0x0400 3 2 0 = .ok c' ∧
    ∃ response d', programming.handle c'.pendingRequest 0 = some (response, d') ∧
      d'.downloadAddress = 0x08FFFF ∧ d'.downloadSize = 0x0400 := by
  obtain ⟨c', hc⟩ : ∃ c', freshClient.requestDownload 0x08FFFF 0x0400 3 2 0 = .ok c' := ⟨_, rfl⟩
  have hsession : programming.session = .programming := rfl
  have hunlocked : programming.unlocked = true := rfl
  exact ⟨c', hc, (understood_iff hc hsession hunlocked 0).2 ⟨by decide, by decide⟩⟩

/-- **The defect.**  With two bytes of address, `0x08000000` is sent as `0x0000`. -/
theorem short_field_truncated :
    ∃ c', freshClient.requestDownload 0x08000000 4 2 4 0 = .ok c' ∧
      ¬ ∃ response d', programming.handle c'.pendingRequest 0 = some (response, d') ∧
        d'.downloadAddress = 0x08000000 ∧ d'.downloadSize = 4 := by
  have hread : (programming.handle [0x34, 0x00, 0x42, 0x00, 0x00, 0x00, 0x00, 0x00, 0x04] 0).map
      (·.2.downloadAddress) = some 0 := by
    decide +kernel
  refine ⟨_, rfl, ?_⟩
  rintro ⟨response, d', hd, haddress, -⟩
  have hmap := congrArg (Option.map (·.2.downloadAddress)) hd
  rw [Option.map_some, haddress] at hmap
  exact absurd (hread.symm.trans hmap) (by decide)

end Diagnostics

end Sim
end Canforge
