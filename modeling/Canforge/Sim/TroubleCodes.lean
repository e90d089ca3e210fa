/-
# Trouble codes from the store to the client

The server answers ReadDTCInformation with records of four bytes behind a header, and
`parse_dtc_list` is a loop of its own over the same records.  One record is read back
(`dtcRecords_append`), so the list is; `dtc_list_round_trip` puts both sides together, with
the count of the other sub-function.
-/

import Canforge.Sim.Firmware

namespace Canforge

namespace Uds

open Canforge.Core

/-- The report types that the client asks with; the value of the enumerator. -/
def DtcReportType.toByte : DtcReportType → Byte
  | reportNumberOfDtcByStatusMask => 0x01
  | reportDtcByStatusMask => 0x02
  | reportSupportedDtc => 0x0A

namespace Client

/-- The payload of `read_dtc_information`. -/
def readDtcInformationPayload (type : DtcReportType) (statusMask : Byte) : List Byte :=
  [Service.readDtcInformation.toByte, type.toByte, statusMask]

/-- The loop of `parse_dtc_list`; up to three bytes at the end are no record. -/
def dtcRecords : List Byte → List Dtc
  | a :: b :: c :: status :: rest =>
    { code := a.setWidth 32 <<< 16 ||| b.setWidth 32 <<< 8 ||| c.setWidth 32, status } ::
      dtcRecords rest
  | _ => []

/-- `parse_dtc_list`. -/
def parseDtcList (data : List Byte) : List Dtc :=
  if data.length < 2 then [] else dtcRecords (data.drop 2)

end Client

/-- A trouble code as the server writes it. -/
def Dtc.record (dtc : Dtc) : List Byte := pushBe dtc.code 3 ++ [dtc.status]

/-- The codes of a store are three bytes wide. -/
def Narrow (dtcs : List Dtc) : Prop := ∀ dtc ∈ dtcs, dtc.code.toNat < 2 ^ 24

instance (dtcs : List Dtc) : Decidable (Narrow dtcs) := inferInstanceAs (Decidable (∀ _ ∈ _, _))

variable {dtc : Dtc} {dtcs : List Dtc}

/-- Three bytes are put together again. -/
theorem code_of_bytes {code : BitVec 32} (h : code.toNat < 2 ^ 24) :
    ((code >>> 16).setWidth 8).setWidth 32 <<< 16 ||| ((code >>> 8).setWidth 8).setWidth 32 <<< 8 |||
      (code.setWidth 8).setWidth 32 = code := by
  have hhigh : ∀ i, 24 ≤ i → code.getLsbD i = false := by
    intro i hi
    exact Nat.testBit_lt_two_pow (Nat.lt_of_lt_of_le h (Nat.pow_le_pow_right (by decide) hi))
  ext i hi
  simp only [← BitVec.getLsbD_eq_getElem, BitVec.getLsbD_or, BitVec.getLsbD_shiftLeft,
    BitVec.getLsbD_setWidth, BitVec.getLsbD_ushiftRight]
  rcases Nat.lt_or_ge i 8 with h₈ | h₈
  · simp [hi, h₈, show i < 16 by omega]
  rcases Nat.lt_or_ge i 16 with h₁₆ | h₁₆
  · simp [hi, h₁₆, show ¬ i < 8 by omega, show i - 8 < 8 by omega, show 8 + (i - 8) = i by omega,
      show i - 8 < 32 by omega]
  rcases Nat.lt_or_ge i 24 with h₂₄ | h₂₄
  · simp [hi, show ¬ i < 8 by omega, show ¬ i < 16 by omega, show ¬ i - 8 < 8 by omega,
      show i - 16 < 8 by omega, show 16 + (i - 16) = i by omega, show i - 16 < 32 by omega]
  · rw [hhigh i h₂₄]
    simp [show ¬ i < 8 by omega, show ¬ i - 8 < 8 by omega, show ¬ i - 16 < 8 by omega]

namespace Client

/-- **One record is read back.** -/
theorem dtcRecords_append (h : dtc.code.toNat < 2 ^ 24) (rest : List Byte) :
    dtcRecords (dtc.record ++ rest) = dtc :: dtcRecords rest := by
  have hbytes : pushBe dtc.code 3 = [(dtc.code >>> 16).setWidth 8, (dtc.code >>> 8).setWidth 8,
      dtc.code.setWidth 8] := by
    rw [pushBe_succ, pushBe_succ, pushBe_succ]
    rfl
  rw [Dtc.record, hbytes]
  simp only [List.cons_append, List.nil_append, dtcRecords, code_of_bytes h]

/-- **So is a list of them**, in its order. -/
theorem dtcRecords_flatMap (h : Narrow dtcs) : dtcRecords (dtcs.flatMap Dtc.record) = dtcs := by
  induction dtcs with
  | nil => rfl
  | cons dtc dtcs ih =>
    rw [List.flatMap_cons, dtcRecords_append (h dtc List.mem_cons_self),
      ih fun dtc hmem => h dtc (List.mem_cons_of_mem _ hmem)]

/-- The data of a positive answer to ReadDTCInformation is what is behind its first byte. -/
theorem handleMessage_dtcs {c : Client} (hc : c.requestedService = 0x19) (data : List Byte)
    (now : ℕ) : (c.handleMessage (0x59 :: data) now).response.data = data := by
  have hhead : ¬ (0x59 : Byte) = kNegativeResponse := by decide
  have hservice : ¬ (0x59 : Byte).toNat ≠
      c.requestedService.toNat + kPositiveResponseOffset.toNat := by
    rw [hc]
    decide
  simp only [handleMessage, if_neg hhead, if_neg hservice]
  rfl

end Client
end Uds

namespace Sim

open Canforge.Core IsoTp Lib Uds

namespace Diagnostics

variable {d : Diagnostics} {mask : Byte} {now : ℕ}

/-- The trouble codes whose status shares a bit with the mask, in store order. -/
def reported (d : Diagnostics) (mask : Byte) : List Dtc :=
  d.dtcs.filter fun dtc => decide (dtc.status &&& mask ≠ 0)

/-- What the server makes of the sub-function byte. -/
theorem subFunction_payload (type : DtcReportType) (mask : Byte) :
    subFunction (Client.readDtcInformationPayload type mask) = type.toByte ∧
      DtcReportType.ofByte type.toByte = some type := by
  have hsub : subFunction (Client.readDtcInformationPayload type mask) = type.toByte &&& 0x7F := by
    simp [subFunction, Client.readDtcInformationPayload]
  rw [hsub]
  cases type <;> decide

/-- None of the three suppresses its answer. -/
theorem positive_payload (type : DtcReportType) (mask : Byte) (body : List Byte) :
    positive (Client.readDtcInformationPayload type mask) body = 0x59 :: body := by
  have hanswer : suppresses (Client.readDtcInformationPayload type mask) = false := by
    have hbit : type.toByte &&& kSuppressPositiveResponse = 0 := by cases type <;> decide
    simp [suppresses, Client.readDtcInformationPayload, hbit]
  rw [positive, if_neg (by rw [hanswer]; decide)]
  rfl

/-- The answer to sub-function `0x02`. -/
theorem handle_list (d : Diagnostics) (mask : Byte) (now : ℕ) :
    d.handle (Client.readDtcInformationPayload .reportDtcByStatusMask mask) now =
      some (0x59 :: 0x02 :: 0xFF :: (d.reported mask).flatMap Dtc.record, d) := by
  obtain ⟨hsub, htype⟩ := subFunction_payload .reportDtcByStatusMask mask
  have hpositive := positive_payload .reportDtcByStatusMask mask
  unfold Client.readDtcInformationPayload at hsub hpositive ⊢
  rw [handle, Service.ofByte_toByte]
  simp only [readDtcInformation, hsub, htype, hpositive, List.length_cons, List.length_nil,
    Nat.reduceAdd, Nat.reduceLT, le_refl, if_true, if_false]
  rfl

/-- The answer to sub-function `0x01`. -/
theorem handle_count (d : Diagnostics) (mask : Byte) (now : ℕ) :
    d.handle (Client.readDtcInformationPayload .reportNumberOfDtcByStatusMask mask) now =
      some (0x59 :: 0x01 :: 0xFF :: 0x01 ::
        pushBe (BitVec.ofNat 32 ((d.reported mask).length % 2 ^ 16)) 2, d) := by
  obtain ⟨hsub, htype⟩ := subFunction_payload .reportNumberOfDtcByStatusMask mask
  have hpositive := positive_payload .reportNumberOfDtcByStatusMask mask
  unfold Client.readDtcInformationPayload at hsub hpositive ⊢
  rw [handle, Service.ofByte_toByte, reported, ← List.countP_eq_length_filter]
  simp only [readDtcInformation, hsub, htype, hpositive, List.length_cons, List.length_nil,
    Nat.reduceAdd, Nat.reduceLT, lt_irrefl, if_false]
  rfl

theorem Narrow.reported (h : Narrow d.dtcs) : Narrow (d.reported mask) :=
  fun dtc hmem => h dtc (List.mem_of_mem_filter hmem)

/-- **The list of trouble codes survives.**  What the client parses out of the answer to
sub-function `0x02` is the trouble codes of the store whose status shares a bit with the mask,
in store order and with repetitions, and the number answered to sub-function `0x01` is their
number modulo `2 ^ 16`.  Neither request changes the server. -/
theorem dtc_list_round_trip (h : Narrow d.dtcs) (mask : Byte) (now : ℕ) :
    (∃ data, d.handle (Client.readDtcInformationPayload .reportDtcByStatusMask mask) now =
        some (0x59 :: data, d) ∧
      ∀ (c : Client) (later : ℕ), c.requestedService = 0x19 →
        Client.parseDtcList (c.handleMessage (0x59 :: data) later).response.data =
          d.dtcs.filter fun dtc => decide (dtc.status &&& mask ≠ 0)) ∧
    ∃ count, d.handle (Client.readDtcInformationPayload .reportNumberOfDtcByStatusMask mask) now =
        some (0x59 :: 0x01 :: 0xFF :: 0x01 :: count, d) ∧ count.length = 2 ∧
      beValue count =
        (d.dtcs.filter fun dtc => decide (dtc.status &&& mask ≠ 0)).length % 2 ^ 16 := by
  constructor
  · refine ⟨_, handle_list d mask now, ?_⟩
    intro c later hc
    have hlen : ∀ records : List Byte, ¬ (0x02 :: 0xFF :: records).length < 2 :=
      fun records => Nat.not_lt.2 (Nat.le_add_left 2 records.length)
    rw [Client.handleMessage_dtcs hc, Client.parseDtcList, if_neg (hlen _)]
    exact Client.dtcRecords_flatMap (Narrow.reported h)
  · refine ⟨_, handle_count d mask now, pushBe_length _ 2, ?_⟩
    rw [beValue_pushBe, BitVec.toNat_ofNat]
    have hlt := Nat.mod_lt (d.reported mask).length (Nat.two_pow_pos 16)
    rw [Nat.mod_eq_of_lt (Nat.lt_trans hlt (by decide)), Nat.mod_mod]
    rfl

/-- A store of three trouble codes, one of them there twice. -/
def threeCodes : Diagnostics where
  config := UdsServer.fourBytes
  flash := []
  dtcs := [⟨0x010301, 0x09⟩, ⟨0x011716, 0x04⟩, ⟨0x010301, 0x09⟩]

theorem dtc_list_round_trip_three : ∃ data,
    threeCodes.handle [0x19, 0x02, 0x08] 0 = some (0x59 :: data, threeCodes) ∧
      Client.parseDtcList data = [⟨0x010301, 0x09⟩, ⟨0x010301, 0x09⟩] := by
  have hnarrow : Narrow threeCodes.dtcs := by decide
  obtain ⟨⟨data, hd, hparse⟩, -⟩ := dtc_list_round_trip hnarrow 0x08 0
  refine ⟨data, hd, ?_⟩
  have hclient := hparse
    { config := { transport := testerConfig }, sender := { config := testerConfig },
      receiver := { config := testerConfig }, requestedService := 0x19 } 0 rfl
  rw [Client.handleMessage_dtcs rfl] at hclient
  exact hclient

end Diagnostics

end Sim
end Canforge
