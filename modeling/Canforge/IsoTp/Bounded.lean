/-
# A receiver and hostile frames

Whatever frames a `Receiver` is given, it never holds more bytes than were announced, and a
message it reports is complete (`Bounded`).  `onFrameChecked` is `on_frame` with every access
checked: reads and copies of the frame stay inside it, and the subtraction does not wrap.
In a receiver that is `Bounded` it has a result, and that of `on_frame`.
-/

import Canforge.IsoTp.Reception

namespace Canforge
namespace IsoTp

open Canforge.Core

/-- `body + start … body + stop`, if that is inside the frame. -/
def sliceOf (body : List Byte) (start stop : ℕ) : Option (List Byte) :=
  if start ≤ stop ∧ stop ≤ body.length then some ((body.drop start).take (stop - start)) else none

/-- `a - b`, if it does not wrap. -/
def checkedSub (a b : ℕ) : Option ℕ := if b ≤ a then some (a - b) else none

/-- A call of a receiver. -/
inductive ReceiverCall
  | onFrame (frame : FdFrame) (now : ℕ)
  | poll (now : ℕ)
  | reset
  deriving DecidableEq

namespace Receiver

variable {r : Receiver} {body : List Byte} {frame : FdFrame} {now : ℕ}

/-- The receiver after a call. -/
def call (r : Receiver) : ReceiverCall → Receiver
  | .onFrame frame now => r.onFrame frame now
  | .poll now => (r.poll now).1
  | .reset => r.reset

/-- The receiver after some calls. -/
def callAll (r : Receiver) (calls : List ReceiverCall) : Receiver := calls.foldl call r

/-! ### Checked accesses -/

/-- The end of `onSingleFrame` with its accesses checked. -/
def acceptSingleChecked (r : Receiver) (body : List Byte) (length dataAt : ℕ) : Option Receiver :=
  if length = 0 ∨ body.length < dataAt + length then some (r.finish .invalidPdu)
  else do
    let payload ← sliceOf body dataAt (dataAt + length)
    return { r with payload, expected := length, result := .ok, state := .finished }

/-- `onSingleFrame` with its accesses checked. -/
def onSingleFrameChecked (r : Receiver) (body : List Byte) : Option Receiver :=
  if r.state ≠ .idle then some (r.finish .unexpectedPdu)
  else do
    let pci ← readByte body 0
    let length := (pci &&& 0x0F#8).toNat
    if length = 0 then
      if body.length < 2 then some (r.finish .invalidPdu)
      else do
        let escape ← readByte body 1
        r.acceptSingleChecked body escape.toNat 2
    else r.acceptSingleChecked body length 1

/-- The end of `onFirstFrame` with its accesses checked. -/
def acceptFirstChecked (r : Receiver) (body : List Byte) (now length dataAt : ℕ) :
    Option Receiver :=
  if length ≤ 7 - r.config.address.headerSize then some (r.finish .invalidPdu)
  else if r.config.maxReceiveLength < length then
    some { r with expected := length, pendingStatus := .overflow, state := .sendFlowControl,
                  fcDueNs := addNs now r.config.nBrNs }
  else do
    let data ← sliceOf body dataAt body.length
    return { r with expected := length, payload := data.take length, sequence := 1,
                    pendingStatus := .continueToSend, state := .sendFlowControl,
                    fcDueNs := addNs now r.config.nBrNs }

/-- `onFirstFrame` with its accesses checked. -/
def onFirstFrameChecked (r : Receiver) (body : List Byte) (now : ℕ) : Option Receiver :=
  if r.state ≠ .idle then some (r.finish .unexpectedPdu)
  else if body.length < 2 then some (r.finish .invalidPdu)
  else do
    let pci ← readByte body 0
    let low ← readByte body 1
    let length := (pci &&& 0x0F#8).toNat <<< 8 ||| low.toNat
    if length = 0 then
      if body.length < 6 then some (r.finish .invalidPdu)
      else do
        let b₂ ← readByte body 2
        let b₃ ← readByte body 3
        let b₄ ← readByte body 4
        let b₅ ← readByte body 5
        r.acceptFirstChecked body now
          (b₂.toNat <<< 24 ||| b₃.toNat <<< 16 ||| b₄.toNat <<< 8 ||| b₅.toNat) 6
    else r.acceptFirstChecked body now length 2

/-- `onConsecutiveFrame` with its accesses checked. -/
def onConsecutiveFrameChecked (r : Receiver) (body : List Byte) (now : ℕ) : Option Receiver :=
  if r.state ≠ .receiving then some (r.finish .unexpectedPdu)
  else do
    let pci ← readByte body 0
    if (pci &&& 0x0F#8).toNat ≠ r.sequence then some (r.finish .wrongSequence)
    else do
      let remaining ← checkedSub r.expected r.payload.length
      let available ← checkedSub body.length 1
      let data ← sliceOf body 1 (1 + min remaining available)
      let r' := { r with sequence := (r.sequence + 1) &&& 0x0F, payload := r.payload ++ data,
                         framesInBlock := (r.framesInBlock + 1) % 256 }
      if r'.expected ≤ r'.payload.length then return { r' with result := .ok, state := .finished }
      else
        let r'' := { r' with deadlineNs := addNs now r'.config.nCrNs }
        if r''.config.blockSize ≠ 0#8 ∧ r''.config.blockSize.toNat ≤ r''.framesInBlock then
          return { r'' with pendingStatus := .continueToSend, state := .sendFlowControl,
                            fcDueNs := addNs now r''.config.nBrNs }
        else return r''

/-- `onFrame` with its accesses checked. -/
def onFrameChecked (r : Receiver) (frame : FdFrame) (now : ℕ) : Option Receiver :=
  if r.state = .finished then some r
  else
    match r.config.address.body frame with
    | none => some r
    | some body => do
      let first ← readByte body 0
      match Pci.ofNibble (first >>> 4 &&& 0x0F#8).toNat with
      | some .singleFrame => r.onSingleFrameChecked body
      | some .firstFrame => r.onFirstFrameChecked body now
      | some .consecutiveFrame => r.onConsecutiveFrameChecked body now
      | some .flowControl => some (r.finish .unexpectedPdu)
      | none => some (r.finish .invalidPdu)

theorem sliceOf_eq {start n : ℕ} (h : start + n ≤ body.length) :
    sliceOf body start (start + n) = some ((body.drop start).take n) := by
  rw [sliceOf, if_pos ⟨Nat.le_add_right _ _, h⟩, Nat.add_sub_cancel_left]

theorem readByte_getD {i : ℕ} (h : i < body.length) : readByte body i = some (body.getD i 0) := by
  rw [readByte, List.getD_eq_getElem?_getD, List.getElem?_eq_getElem h]
  rfl

theorem acceptSingleChecked_eq (length dataAt : ℕ) :
    r.acceptSingleChecked body length dataAt =
      some (if length = 0 ∨ body.length < dataAt + length then r.finish .invalidPdu
        else { r with payload := (body.drop dataAt).take length, expected := length,
                      result := .ok, state := .finished }) := by
  unfold acceptSingleChecked
  split_ifs with hbad
  · rfl
  · rw [sliceOf_eq (by omega)]
    rfl

theorem acceptFirstChecked_eq {dataAt : ℕ} (h : dataAt ≤ body.length) (length : ℕ) :
    r.acceptFirstChecked body now length dataAt =
      some (if length ≤ 7 - r.config.address.headerSize then r.finish .invalidPdu
        else if r.config.maxReceiveLength < length then
          { r with expected := length, pendingStatus := .overflow, state := .sendFlowControl,
                   fcDueNs := addNs now r.config.nBrNs }
        else
          { r with expected := length, payload := (body.drop dataAt).take length, sequence := 1,
                   pendingStatus := .continueToSend, state := .sendFlowControl,
                   fcDueNs := addNs now r.config.nBrNs }) := by
  have hslice : sliceOf body dataAt body.length = some (body.drop dataAt) := by
    rw [sliceOf, if_pos ⟨h, le_rfl⟩, ← List.length_drop, List.take_length]
  unfold acceptFirstChecked
  rw [hslice]
  split_ifs <;> rfl

theorem onSingleFrameChecked_eq (h : 1 ≤ body.length) :
    r.onSingleFrameChecked body = some (r.onSingleFrame body) := by
  unfold onSingleFrameChecked onSingleFrame
  by_cases hidle : r.state ≠ .idle
  · rw [if_pos hidle, if_pos hidle]
  rw [if_neg hidle, if_neg hidle, readByte_getD h, Option.bind_eq_bind, Option.bind_some]
  dsimp only
  by_cases hescape : (body.getD 0 0 &&& 0x0F#8).toNat = 0
  · rw [if_pos hescape, if_pos hescape]
    by_cases hshort : body.length < 2
    · rw [if_pos hshort, if_pos hshort]
    · rw [if_neg hshort, if_neg hshort, readByte_getD (by omega), Option.bind_some,
        acceptSingleChecked_eq]
  · rw [if_neg hescape, if_neg hescape, acceptSingleChecked_eq]

theorem onFirstFrameChecked_eq : r.onFirstFrameChecked body now = some (r.onFirstFrame body now) := by
  unfold onFirstFrameChecked onFirstFrame
  by_cases hidle : r.state ≠ .idle
  · rw [if_pos hidle, if_pos hidle]
  rw [if_neg hidle, if_neg hidle]
  by_cases hshort : body.length < 2
  · rw [if_pos hshort, if_pos hshort]
  rw [if_neg hshort, if_neg hshort, readByte_getD (by omega), readByte_getD (by omega)]
  simp only [Option.bind_eq_bind, Option.bind_some]
  by_cases hescape : (body.getD 0 0 &&& 0x0F#8).toNat <<< 8 ||| (body.getD 1 0).toNat = 0
  · rw [if_pos hescape, if_pos hescape]
    by_cases hsix : body.length < 6
    · rw [if_pos hsix, if_pos hsix]
    · rw [if_neg hsix, if_neg hsix, readByte_getD (by omega), readByte_getD (by omega),
        readByte_getD (by omega), readByte_getD (by omega)]
      simp only [Option.bind_some]
      exact acceptFirstChecked_eq (by omega) _
  · rw [if_neg hescape, if_neg hescape]
    exact acceptFirstChecked_eq (by omega) _

theorem onConsecutiveFrameChecked_eq (h : 1 ≤ body.length)
    (hroom : r.state = .receiving → r.payload.length ≤ r.expected) :
    r.onConsecutiveFrameChecked body now = some (r.onConsecutiveFrame body now) := by
  unfold onConsecutiveFrameChecked onConsecutiveFrame
  by_cases hreceiving : r.state ≠ .receiving
  · rw [if_pos hreceiving, if_pos hreceiving]
  have hle := hroom (not_not.1 hreceiving)
  rw [if_neg hreceiving, if_neg hreceiving, readByte_getD h, Option.bind_eq_bind, Option.bind_some]
  by_cases hseq : (body.getD 0 0 &&& 0x0F#8).toNat ≠ r.sequence
  · rw [if_pos hseq, if_pos hseq]
  have hslice : sliceOf body 1 (1 + min (r.expected - r.payload.length) (body.length - 1)) =
      some ((body.drop 1).take (min (r.expected - r.payload.length) (body.length - 1))) :=
    sliceOf_eq (by omega)
  rw [if_neg hseq, if_neg hseq, checkedSub, if_pos hle, checkedSub, if_pos h, sizeSub_eq hle]
  simp only [Option.bind_eq_bind, Option.bind_some, hslice]
  split_ifs <;> rfl

theorem size_le (frame : FdFrame) : frame.size ≤ 64 := by
  have hall : ∀ dlc : Fin 16, ∀ fd : Bool, dlcToLength dlc fd ≤ 64 := by decide
  unfold BasicFrame.size
  split_ifs
  · exact Nat.zero_le _
  · by_cases hdlc : frame.dlc < 16
    · exact hall ⟨frame.dlc, hdlc⟩ frame.isFd
    · rw [dlcToLength, if_pos (by omega)]
      exact Nat.zero_le _

/-- A frame that is not ignored has a byte after the header. -/
theorem body_length_pos {a : Address} (h : a.body frame = some body) : 1 ≤ body.length := by
  have hbytes : frame.bytes.length = frame.size := by
    rw [BasicFrame.bytes, List.length_take, frame.data_length, min_eq_left (size_le frame)]
  unfold Address.body at h
  split_ifs at h with hid hsize
  cases h
  rw [List.length_drop, hbytes]
  omega

theorem onFrameChecked_eq (hroom : r.state = .receiving → r.payload.length ≤ r.expected) :
    r.onFrameChecked frame now = some (r.onFrame frame now) := by
  unfold onFrameChecked onFrame
  by_cases hfinished : r.state = .finished
  · rw [if_pos hfinished, if_pos hfinished]
  rw [if_neg hfinished, if_neg hfinished]
  cases hbody : r.config.address.body frame with
  | none => rfl
  | some body =>
    have hpos := body_length_pos hbody
    dsimp only
    rw [readByte_getD hpos, Option.bind_eq_bind, Option.bind_some]
    unfold Sender.pciOf
    cases Pci.ofNibble (body.getD 0 0 >>> 4 &&& 0x0F#8).toNat with
    | none => rfl
    | some pci =>
      cases pci with
      | singleFrame => exact onSingleFrameChecked_eq hpos
      | firstFrame => exact onFirstFrameChecked_eq
      | consecutiveFrame => exact onConsecutiveFrameChecked_eq hpos hroom
      | flowControl => rfl

/-! ### The invariant -/

/-- A reception of several frames is in progress. -/
def Collecting (r : Receiver) : Prop := r.state = .sendFlowControl ∨ r.state = .receiving

instance (r : Receiver) : Decidable r.Collecting := inferInstanceAs (Decidable (_ ∨ _))

/-- **What hostile frames cannot break.** -/
structure Bounded (r : Receiver) : Prop where
  consistent : Consistent r.config r
  idle : r.state = .idle → r.payload = []
  announced : r.Collecting → r.payload.length ≤ r.expected ∧ 0 < r.expected
  limited : r.Collecting → r.payload.length ≤ r.config.maxReceiveLength
  accepted : r.Collecting → r.state = .receiving ∨ r.pendingStatus ≠ .overflow →
    r.expected ≤ r.config.maxReceiveLength
  complete : r.result = .ok → r.payload.length = r.expected ∧ 0 < r.expected

namespace Bounded

theorem initial (config : Config) : Bounded { config } where
  consistent := ⟨rfl, by simp⟩
  idle _ := rfl
  announced h := by simp [Collecting] at h
  limited _ := Nat.zero_le _
  accepted h := by simp [Collecting] at h
  complete h := by cases h

theorem reset (r : Receiver) (h : r.Bounded) : r.reset.Bounded where
  consistent := h.consistent.reset
  idle _ := rfl
  announced h := by simp [Collecting, Receiver.reset] at h
  limited _ := Nat.zero_le _
  accepted h := by simp [Collecting, Receiver.reset] at h
  complete h := by cases h

/-- A reception that fails ends there. -/
theorem finish (h : r.Bounded) {res : TransferResult} (hne : res ≠ .inProgress) (hok : res ≠ .ok) :
    (r.finish res).Bounded where
  consistent := h.consistent.finish hne
  idle hs := by cases hs
  announced hs := by simp [Collecting, Receiver.finish] at hs
  limited hs := by simp [Collecting, Receiver.finish] at hs
  accepted hs := by simp [Collecting, Receiver.finish] at hs
  complete hres := absurd hres hok

theorem ite {p : Prop} [Decidable p] {a b : Receiver} (ht : p → a.Bounded) (he : ¬ p → b.Bounded) :
    (if p then a else b).Bounded := by
  split_ifs with h
  · exact ht h
  · exact he h

theorem onSingleFrame (h : r.Bounded) : (r.onSingleFrame body).Bounded := by
  have accept (length dataAt : ℕ) : Bounded
      (if length = 0 ∨ body.length < dataAt + length then r.finish .invalidPdu
        else { r with payload := (body.drop dataAt).take length, expected := length,
                      result := .ok, state := .finished }) := by
    refine .ite (fun _ => h.finish (by decide) (by decide)) fun hfit => ?_
    have hlength : ((body.drop dataAt).take length).length = length := by
      rw [List.length_take, List.length_drop]
      omega
    have hpos : 0 < length := by omega
    exact ⟨⟨rfl, by simp⟩, nofun, by simp [Collecting], by simp [Collecting],
      by simp [Collecting], fun _ => ⟨hlength, hpos⟩⟩
  exact .ite (fun _ => h.finish (by decide) (by decide)) fun _ =>
    .ite (fun _ => .ite (fun _ => h.finish (by decide) (by decide)) fun _ => accept _ _)
      fun _ => accept _ _

theorem onFirstFrame (h : r.Bounded) : (r.onFirstFrame body now).Bounded := by
  refine .ite (fun _ => h.finish (by decide) (by decide)) fun hidle => ?_
  have hidle : r.state = .idle := not_not.1 hidle
  have hres : r.result = .inProgress := h.consistent.result_of_ne (by rw [hidle]; decide)
  have hok : r.result ≠ .ok := by rw [hres]; decide
  have hh := r.config.address.headerSize_le
  have accept (length dataAt : ℕ) : Bounded
      (if length ≤ 7 - r.config.address.headerSize then r.finish .invalidPdu
        else if r.config.maxReceiveLength < length then
          { r with expected := length, pendingStatus := .overflow, state := .sendFlowControl,
                   fcDueNs := addNs now r.config.nBrNs }
        else
          { r with expected := length, payload := (body.drop dataAt).take length, sequence := 1,
                   pendingStatus := .continueToSend, state := .sendFlowControl,
                   fcDueNs := addNs now r.config.nBrNs }) := by
    refine .ite (fun _ => h.finish (by decide) (by decide)) fun hlong => .ite (fun hover => ?_)
      fun hfit => ?_
    · -- nothing is stored of a message that is refused
      exact ⟨⟨rfl, iff_of_false (by simp) fun hne => hne hres⟩, nofun,
        fun _ => ⟨by simp [h.idle hidle], by simp only; omega⟩, fun _ => by simp [h.idle hidle],
        by simp, fun hr => absurd hr hok⟩
    · have htake : ((body.drop dataAt).take length).length ≤ length := List.length_take_le _ _
      exact ⟨⟨rfl, iff_of_false (by simp) fun hne => hne hres⟩, nofun,
        fun _ => ⟨htake, by simp only; omega⟩, fun _ => htake.trans (Nat.le_of_not_lt hfit),
        fun _ _ => Nat.le_of_not_lt hfit, fun hr => absurd hr hok⟩
  exact .ite (fun _ => h.finish (by decide) (by decide)) fun _ =>
    .ite (fun _ => .ite (fun _ => h.finish (by decide) (by decide)) fun _ => accept _ _)
      fun _ => accept _ _

/-- What a Consecutive Frame adds stays below the announced length. -/
theorem length_append_le (h : r.Bounded) (hs : r.state = .receiving) (body : List Byte) :
    (r.payload ++ (body.drop 1).take
      (min (sizeSub r.expected r.payload.length) (body.length - 1))).length ≤ r.expected := by
  obtain ⟨hle, -⟩ := h.announced (.inr hs)
  rw [sizeSub_eq hle, List.length_append, List.length_take]
  omega

theorem onConsecutiveFrame (h : r.Bounded) : (r.onConsecutiveFrame body now).Bounded := by
  refine .ite (fun _ => h.finish (by decide) (by decide)) fun hst =>
    .ite (fun _ => h.finish (by decide) (by decide)) fun _ => ?_
  have hst : r.state = .receiving := not_not.1 hst
  have hcollecting : r.Collecting := .inr hst
  have hres : r.result = .inProgress := h.consistent.result_of_ne (by rw [hst]; decide)
  have hok : r.result ≠ .ok := by rw [hres]; decide
  obtain ⟨-, hpos⟩ := h.announced hcollecting
  have hmax := h.accepted hcollecting (.inl hst)
  have hroom := h.length_append_le hst body
  refine .ite (fun hfull => ?_) fun hmore => .ite (fun _ => ?_) fun _ => ?_
  · exact ⟨⟨rfl, by simp⟩, nofun, by simp [Collecting], by simp [Collecting],
      by simp [Collecting], fun _ => ⟨le_antisymm hroom hfull, hpos⟩⟩
  · exact ⟨⟨rfl, iff_of_false (by simp) fun hne => hne hres⟩, nofun, fun _ => ⟨hroom, hpos⟩,
      fun _ => hroom.trans hmax, fun _ _ => hmax, fun hr => absurd hr hok⟩
  · exact ⟨⟨rfl, iff_of_false (by simp [hst]) fun hne => hne hres⟩, fun hs => by simp [hst] at hs,
      fun _ => ⟨hroom, hpos⟩, fun _ => hroom.trans hmax, fun _ _ => hmax,
      fun hr => absurd hr hok⟩

theorem onFrame (h : r.Bounded) (frame : FdFrame) (now : ℕ) : (r.onFrame frame now).Bounded := by
  unfold Receiver.onFrame
  refine .ite (fun _ => h) fun _ => ?_
  split
  · exact h
  · split
    · exact h.onSingleFrame
    · exact h.onFirstFrame
    · exact h.onConsecutiveFrame
    · exact h.finish (by decide) (by decide)
    · exact h.finish (by decide) (by decide)

theorem poll (h : r.Bounded) (now : ℕ) : (r.poll now).1.Bounded := by
  unfold Receiver.poll
  split
  · rename_i hs
    have hcollecting : r.Collecting := .inl hs
    have hres : r.result = .inProgress := h.consistent.result_of_ne (by rw [hs]; decide)
    split_ifs with hdue hover
    · exact h.finish (by decide) (by decide)
    · have hmax := h.accepted hcollecting (.inr hover)
      exact ⟨⟨rfl, iff_of_false (by simp) fun hne => hne hres⟩, nofun,
        fun _ => h.announced hcollecting, fun _ => h.limited hcollecting, fun _ _ => hmax,
        fun hr => by cases hres.symm.trans hr⟩
    · exact h
  · split_ifs
    · exact h.finish (by decide) (by decide)
    · exact h
  · exact h
  · exact h

theorem call (h : r.Bounded) (c : ReceiverCall) : (r.call c).Bounded := by
  cases c with
  | onFrame frame now => exact h.onFrame frame now
  | poll now => exact h.poll now
  | reset => exact .reset r h

/-- **The invariant holds after any calls.** -/
theorem callAll (h : r.Bounded) (calls : List ReceiverCall) : (r.callAll calls).Bounded := by
  induction calls generalizing r with
  | nil => exact h
  | cons c calls ih => exact ih (h.call c)

end Bounded

/-- A receiver that has begun to collect a message, until it is reset. -/
structure Begun (max : ℕ) (r : Receiver) : Prop where
  bounded : r.Bounded
  limit : r.config.maxReceiveLength = max
  busy : r.state ≠ .idle
  limited : r.payload.length ≤ max

namespace Begun

variable {max : ℕ}

theorem finish (h : Begun max r) {res : TransferResult} (hne : res ≠ .inProgress)
    (hok : res ≠ .ok) : Begun max (r.finish res) :=
  ⟨h.bounded.finish hne hok, h.limit, nofun, h.limited⟩

theorem onConsecutiveFrame (h : Begun max r) : Begun max (r.onConsecutiveFrame body now) := by
  have hb : (r.onConsecutiveFrame body now).Bounded := h.bounded.onConsecutiveFrame
  have hconfig : (r.onConsecutiveFrame body now).config = r.config :=
    h.bounded.consistent.onConsecutiveFrame.config
  have hrest : (r.onConsecutiveFrame body now).state ≠ .idle ∧
      (r.onConsecutiveFrame body now).payload.length ≤ max := by
    unfold Receiver.onConsecutiveFrame
    by_cases hs : r.state ≠ .receiving
    · rw [if_pos hs]
      exact ⟨nofun, h.limited⟩
    rw [if_neg hs]
    have hs : r.state = .receiving := not_not.1 hs
    have hmax : r.expected ≤ max := h.limit ▸ h.bounded.accepted (.inr hs) (.inl hs)
    have hroom := (h.bounded.length_append_le hs body).trans hmax
    by_cases hseq : (body.getD 0 0 &&& 0x0F#8).toNat ≠ r.sequence
    · rw [if_pos hseq]
      exact ⟨nofun, h.limited⟩
    rw [if_neg hseq]
    dsimp only
    split_ifs
    · exact ⟨nofun, hroom⟩
    · exact ⟨nofun, hroom⟩
    · exact ⟨by simp [hs], hroom⟩
  exact ⟨hb, by rw [hconfig]; exact h.limit, hrest.1, hrest.2⟩

theorem onFrame (h : Begun max r) (frame : FdFrame) (now : ℕ) :
    Begun max (r.onFrame frame now) := by
  unfold Receiver.onFrame
  split_ifs
  · exact h
  · split
    · exact h
    · split
      · rw [Receiver.onSingleFrame, if_pos h.busy]
        exact h.finish (by decide) (by decide)
      · rw [Receiver.onFirstFrame, if_pos h.busy]
        exact h.finish (by decide) (by decide)
      · exact h.onConsecutiveFrame
      · exact h.finish (by decide) (by decide)
      · exact h.finish (by decide) (by decide)

theorem poll (h : Begun max r) (now : ℕ) : Begun max (r.poll now).1 := by
  have hb := h.bounded.poll now
  unfold Receiver.poll at hb ⊢
  split
  · split_ifs
    · exact h.finish (by decide) (by decide)
    · rename_i hs hdue hover
      simp only [hs, if_pos hdue, if_neg hover] at hb
      exact ⟨hb, h.limit, nofun, h.limited⟩
    · exact h
  · split_ifs
    · exact h.finish (by decide) (by decide)
    · exact h
  · exact h
  · exact h

theorem callAll (h : Begun max r) {calls : List ReceiverCall} (hcalls : .reset ∉ calls) :
    Begun max (r.callAll calls) := by
  induction calls generalizing r with
  | nil => exact h
  | cons c calls ih =>
    rw [List.mem_cons, not_or] at hcalls
    cases c with
    | onFrame frame now => exact ih (h.onFrame frame now) hcalls.2
    | poll now => exact ih (h.poll now) hcalls.2
    | reset => exact absurd rfl hcalls.1

end Begun

theorem callAll_config (r : Receiver) (h : r.Bounded) (calls : List ReceiverCall) :
    (r.callAll calls).config = r.config := by
  induction calls generalizing r with
  | nil => rfl
  | cons c calls ih =>
    have hcall : (r.call c).config = r.config := by
      cases c with
      | onFrame frame now => exact (h.consistent.onFrame frame now).config
      | poll now => exact (h.consistent.poll now).config
      | reset => rfl
    rw [← hcall]
    exact ih _ (h.call c)

/-- **Hostile frames.**  After any calls, the bytes collected are no more than were announced, a
message is complete and not empty, every access of the next frame is inside it, and a buffer of
several frames keeps to the limit until it is reset. -/
theorem hostile_frames (config : Config) (calls : List ReceiverCall) :
    let r := ({ config } : Receiver).callAll calls
    (r.Collecting → r.payload.length ≤ r.expected) ∧
      (r.Collecting → ∀ after, ReceiverCall.reset ∉ after →
        (r.callAll after).payload.length ≤ config.maxReceiveLength) ∧
      (r.hasMessage → r.message.length = r.expected ∧ r.expected ≠ 0) ∧
      ∀ frame now, r.onFrameChecked frame now = some (r.onFrame frame now) := by
  intro r
  have hb : r.Bounded := (Bounded.initial config).callAll calls
  refine ⟨fun h => (hb.announced h).1, fun h after hafter => ?_, fun h => ?_, fun frame now => ?_⟩
  · have hconfig : r.config = config := callAll_config _ (.initial config) calls
    have hbusy : r.state ≠ .idle := by rcases h with hs | hs <;> (rw [hs]; decide)
    have hbegun : Begun config.maxReceiveLength r :=
      ⟨hb, by rw [hconfig], hbusy, hconfig ▸ hb.limited h⟩
    exact (hbegun.callAll hafter).limited
  · obtain ⟨hlength, hpos⟩ := hb.complete (of_decide_eq_true h)
    exact ⟨hlength, hpos.ne'⟩
  · exact onFrameChecked_eq fun hs => (hb.announced (.inr hs)).1

end Receiver

end IsoTp
end Canforge
