/-
# The limit of FC.WAIT

A `Sender` that waits counts the FC.WAIT frames in `wait_count_` and compares the count with
`wft_max`.  The count starts at zero whenever the sender begins to wait (`Entered.awaits`), and
both are bytes, so the count reaches every limit but 255 plus one: there it wraps to zero, and no
number of FC.WAIT frames ends the transfer (`Awaits.endless`).
-/

import Canforge.IsoTp.Pacing

namespace Canforge
namespace IsoTp

open Canforge.Core

/-- A frame with an FC.WAIT for this side. -/
def isWait (a : Address) (frame : FdFrame) : Bool :=
  match a.body frame with
  | none => false
  | some body => decide (Pci.ofNibble (Sender.pciOf body) = some .flowControl ∧
      3 ≤ body.length ∧ FlowStatus.ofNibble (body.getD 0 0 &&& 0x0F#8).toNat = some .wait)

/-- The FC.WAIT frames among some calls. -/
def SenderCall.isWait (a : Address) : SenderCall → Bool
  | .onFrame frame _ => IsoTp.isWait a frame
  | .poll _ => false
  | .abort => false

namespace Sender

variable {c : Config} {s : Sender} {f : FdFrame} {now : ℕ} {calls : List SenderCall}

/-- The sender after some calls. -/
def callAll (s : Sender) (calls : List SenderCall) : Sender := calls.foldl call s

/-- A call that leaves the sender waiting for the next frame that is no FC.WAIT: an FC.WAIT, a
frame for someone else, or a poll before N_Bs is over. -/
def Patient (s : Sender) : SenderCall → Prop
  | .onFrame frame _ => IsoTp.isWait s.config.address frame ∨ s.config.address.body frame = none
  | .poll now => s.result = .inProgress → now < s.deadlineNs
  | .abort => False

/-- Every one of the calls, in the state it finds. -/
def AllPatient : Sender → List SenderCall → Prop
  | _, [] => True
  | s, call :: calls => s.Patient call ∧ AllPatient (s.call call) calls

instance (s : Sender) : (call : SenderCall) → Decidable (s.Patient call)
  | .onFrame _ _ => inferInstanceAs (Decidable (_ ∨ _))
  | .poll _ => inferInstanceAs (Decidable (_ → _))
  | .abort => .isFalse id

instance AllPatient.decidable : (s : Sender) → (calls : List SenderCall) →
    Decidable (s.AllPatient calls)
  | _, [] => .isTrue trivial
  | s, call :: calls =>
    have : Decidable ((s.call call).AllPatient calls) := AllPatient.decidable _ _
    inferInstanceAs (Decidable (_ ∧ _))

/-- The sender of some transfer, at the call with which it begins to wait. -/
def Entered (c : Config) (s : Sender) : Prop :=
  ∃ s₀ P start before call, ({ config := c } : Sender).begin P start = .ok s₀ ∧
    (s₀.callAll before).state ≠ .waitingFlowControl ∧ (s₀.callAll before).call call = s ∧
    s.state = .waitingFlowControl ∧ s.result = .inProgress

/-- **The limit:** up to `wft_max` FC.WAIT frames the sender goes on waiting, and the next one
ends the transfer. -/
def WaitLimit (c : Config) : Prop :=
  ∀ s, Entered c s → ∀ calls, s.AllPatient calls →
    (calls.countP (·.isWait c.address) ≤ c.wftMax.toNat →
      (s.callAll calls).state = .waitingFlowControl ∧
        (s.callAll calls).result = .inProgress) ∧
    (calls.countP (·.isWait c.address) = c.wftMax.toNat + 1 →
      (s.callAll calls).result = .waitOverrun)

/-! ### Where the count starts -/

/-- A sender that does not wait has counted nothing. -/
structure Uncounted (c : Config) (s : Sender) : Prop where
  config : s.config = c
  count : s.result = .inProgress → s.state ≠ .waitingFlowControl → s.waitCount = 0

theorem onFlowStatus_waitCount (hs : s.state = .waitingFlowControl) (body : List Byte) (now : ℕ) :
    (s.onFlowStatus body now).result ≠ .inProgress ∨
      (s.onFlowStatus body now).state = .waitingFlowControl ∨
      (s.onFlowStatus body now).waitCount = 0 := by
  unfold onFlowStatus
  split
  · exact .inr (.inr rfl)
  · dsimp only
    split_ifs
    · exact .inl (by simp [finish])
    · exact .inr (.inl hs)
  · exact .inl (by simp [finish])
  · exact .inl (by simp [finish])

theorem poll_waitCount (s : Sender) (now : ℕ) : (s.poll now).1.waitCount = s.waitCount := by
  unfold poll
  by_cases hdone : s.done
  · rw [if_pos hdone]
  rw [if_neg hdone]
  split
  · rfl
  · rfl
  · rfl
  · split_ifs <;> rfl
  · dsimp only
    split_ifs <;> rfl
  · rfl

/-- A poll of a waiting sender leaves it alone or ends the transfer. -/
theorem poll_of_waiting (hs : s.state = .waitingFlowControl) (now : ℕ) :
    (s.poll now).1 = s ∨ (s.poll now).1.result ≠ .inProgress := by
  by_cases hr : s.result = .inProgress
  · rcases Nat.lt_or_ge now s.deadlineNs with hnow | hnow
    · rw [poll_waiting hs hnow]
      exact .inl rfl
    · rw [poll_late hr hs hnow]
      exact .inr (by simp [finish])
  · rw [poll_of_ne hr]
    exact .inl rfl

/-- A poll does not start a transfer again. -/
theorem result_of_poll (h : (s.poll now).1.result = .inProgress) : s.result = .inProgress := by
  by_contra hr
  rw [poll_of_ne hr] at h
  exact hr h

theorem Uncounted.poll (h : Uncounted c s) (now : ℕ) : Uncounted c (s.poll now).1 := by
  refine ⟨(poll_config s now).trans h.config, fun hr hs => ?_⟩
  rw [poll_waitCount]
  refine h.count (result_of_poll hr) fun hwait => ?_
  rcases poll_of_waiting hwait now with heq | hne
  · rw [heq] at hs
    exact hs hwait
  · exact hne hr

/-- A frame makes no sender wait that did not. -/
theorem onFrame_flowStatus_cases (s : Sender) (f : FdFrame) (now : ℕ) :
    s.onFrame f now = s ∨ (s.onFrame f now).result ≠ .inProgress ∨
      (s.state = .waitingFlowControl ∧ ∃ body, s.onFrame f now = s.onFlowStatus body now) := by
  by_cases hr : s.result = .inProgress
  · unfold onFrame
    rw [if_neg (by rw [done, hr]; decide)]
    split
    · exact .inl rfl
    · rename_i body _
      split_ifs with hpci hstate hshort
      · exact .inr (.inl (by simp [finish]))
      · exact .inr (.inl (by simp [finish]))
      · exact .inr (.inl (by simp [finish]))
      · exact .inr (.inr ⟨not_not.1 hstate, body, rfl⟩)
  · exact .inl (onFrame_of_ne hr)

theorem Uncounted.onFrame (h : Uncounted c s) (f : FdFrame) (now : ℕ) :
    Uncounted c (s.onFrame f now) := by
  refine ⟨(onFrame_config s f now).trans h.config, fun hr hs => ?_⟩
  rcases onFrame_flowStatus_cases s f now with heq | hne | ⟨hwait, body, heq⟩
  · rw [heq] at hr hs ⊢
    exact h.count hr hs
  · exact absurd hr hne
  · rw [heq] at hr hs ⊢
    rcases onFlowStatus_waitCount hwait body now with hne | hstate | hcount
    · exact absurd hr hne
    · exact absurd hstate hs
    · exact hcount

theorem Uncounted.callAll (h : Uncounted c s) (calls : List SenderCall) :
    Uncounted c (s.callAll calls) := by
  induction calls generalizing s with
  | nil => exact h
  | cons call calls ih =>
    cases call with
    | onFrame frame now => exact ih (h.onFrame frame now)
    | poll now => exact ih (h.poll now)
    | abort => exact ih ⟨h.config, by simp [Sender.call, abort]⟩

theorem begin_uncounted {s₀ : Sender} {P : List Byte} {start : ℕ}
    (h : ({ config := c } : Sender).begin P start = .ok s₀) : Uncounted c s₀ := by
  refine ⟨(begin_spec h).2.2.2.1, fun _ _ => ?_⟩
  obtain ⟨hidle, hvalid, hlong, -⟩ := begin_spec h
  unfold begin at h
  rw [if_neg (not_not.2 hidle), hvalid] at h
  dsimp only at h
  rw [if_neg (by omega)] at h
  cases h
  rfl

/-- A sender that waits and has counted `k` FC.WAIT frames. -/
structure Awaits (c : Config) (k : ℕ) (s : Sender) : Prop where
  config : s.config = c
  state : s.state = .waitingFlowControl
  result : s.result = .inProgress
  count : s.waitCount = k

/-- **The count starts at zero.** -/
theorem Entered.awaits (h : Entered c s) : Awaits c 0 s := by
  obtain ⟨s₀, P, start, before, call, hbegin, hbefore, rfl, hs, hr⟩ := h
  have hun := Uncounted.callAll (begin_uncounted hbegin) before
  cases call with
  | onFrame frame now =>
    rcases onFrame_flowStatus_cases (s₀.callAll before) frame now with heq | hne | ⟨hwait, -⟩
    · exact absurd (heq ▸ hs) hbefore
    · exact absurd hr hne
    · exact absurd hwait hbefore
  | poll now =>
    refine ⟨(hun.poll now).config, hs, hr, ?_⟩
    exact (poll_waitCount _ now).trans (hun.count (result_of_poll hr) hbefore)
  | abort => cases hr

/-! ### The count -/

namespace Awaits

variable {k : ℕ}

/-- What a flow control with FC.WAIT does. -/
theorem onFrame (h : Awaits c k s) (hw : IsoTp.isWait c.address f) (now : ℕ) :
    if c.wftMax ≠ 0#8 ∧ c.wftMax.toNat < (k + 1) % 256 then
      (s.onFrame f now).result = .waitOverrun
    else Awaits c ((k + 1) % 256) (s.onFrame f now) := by
  unfold IsoTp.isWait at hw
  split at hw
  · cases hw
  rename_i body hbody
  obtain ⟨hpci, hlen, hstatus⟩ := of_decide_eq_true hw
  have hdone : ¬ s.done = true := by
    rw [done, h.result]
    decide
  unfold Sender.onFrame
  rw [if_neg hdone, h.config, hbody]
  dsimp only
  rw [if_neg (not_not.2 hpci), if_neg (not_not.2 h.state), if_neg (Nat.not_lt.2 hlen),
    onFlowStatus, hstatus]
  dsimp only
  rw [h.config, h.count]
  split_ifs
  · rfl
  · exact ⟨rfl, h.state, h.result, rfl⟩

/-- **What a patient call does to the count.** -/
theorem patient {call : SenderCall} (h : Awaits c k s) (hp : s.Patient call) :
    (call.isWait c.address = false ∧ s.call call = s) ∨
      (call.isWait c.address = true ∧
        if c.wftMax ≠ 0#8 ∧ c.wftMax.toNat < (k + 1) % 256 then
          (s.call call).result = .waitOverrun
        else Awaits c ((k + 1) % 256) (s.call call)) := by
  cases call with
  | onFrame frame now =>
    by_cases hw : IsoTp.isWait c.address frame
    · exact .inr ⟨hw, h.onFrame hw now⟩
    · rw [Patient, h.config] at hp
      have hbody := hp.resolve_left hw
      refine .inl ⟨Bool.eq_false_iff.2 hw, ?_⟩
      rw [Sender.call, Sender.onFrame, h.config, hbody]
      exact ite_self _
  | poll now =>
    refine .inl ⟨rfl, ?_⟩
    rw [Sender.call, poll_waiting h.state (hp h.result)]
  | abort => exact hp.elim

end Awaits

/-- A finished sender keeps its result. -/
theorem callAll_of_ne {r : TransferResult} (hr : r ≠ .inProgress) (h : s.result = r)
    (hp : s.AllPatient calls) : (s.callAll calls).result = r := by
  induction calls generalizing s with
  | nil => exact h
  | cons call calls ih =>
    obtain ⟨hcall, hrest⟩ := hp
    have hsame : s.call call = s := by
      cases call with
      | onFrame frame now => exact onFrame_of_ne (h ▸ hr)
      | poll now => rw [Sender.call, poll_of_ne (h ▸ hr)]
      | abort => exact hcall.elim
    rw [hsame] at hrest
    rw [callAll, List.foldl_cons, hsame]
    exact ih h hrest

namespace Awaits

variable {k : ℕ}

/-- **Up to the limit the sender waits, and one more frame ends the transfer.** -/
theorem callAll (h : Awaits c k s) (hzero : c.wftMax ≠ 0) (hlimit : c.wftMax ≠ 255)
    (hk : k ≤ c.wftMax.toNat) (hp : s.AllPatient calls) :
    (k + calls.countP (·.isWait c.address) ≤ c.wftMax.toNat →
      Awaits c (k + calls.countP (·.isWait c.address)) (s.callAll calls)) ∧
    (k + calls.countP (·.isWait c.address) = c.wftMax.toNat + 1 →
      (s.callAll calls).result = .waitOverrun) := by
  induction calls generalizing k s with
  | nil =>
    rw [List.countP_nil, Nat.add_zero]
    exact ⟨fun _ => h, fun heq => by omega⟩
  | cons call calls ih =>
    obtain ⟨hcall, hrest⟩ := hp
    rw [Sender.callAll, List.foldl_cons, List.countP_cons]
    rcases h.patient hcall with ⟨hw, hsame⟩ | ⟨hw, hnext⟩
    · rw [hsame] at hrest ⊢
      rw [hw, if_neg Bool.false_ne_true, Nat.add_zero]
      exact ih h hk hrest
    · have hbyte := c.wftMax.isLt
      have hne : c.wftMax.toNat ≠ 255 := fun heq => hlimit (BitVec.eq_of_toNat_eq heq)
      rw [hw, if_pos rfl]
      rw [Nat.mod_eq_of_lt (by omega : k + 1 < 256)] at hnext
      rcases Nat.lt_or_ge c.wftMax.toNat (k + 1) with hover | hunder
      · rw [if_pos ⟨hzero, hover⟩] at hnext
        refine ⟨fun hle => by omega, fun heq => ?_⟩
        exact callAll_of_ne (by decide) hnext hrest
      · rw [if_neg (by omega)] at hnext
        have hrun := ih hnext hunder hrest
        rw [show k + 1 + calls.countP (·.isWait c.address) =
          k + (calls.countP (·.isWait c.address) + 1) by omega] at hrun
        exact hrun

/-- **A limit of 255 is never reached.** -/
theorem endless (h : Awaits c k s) (hlimit : c.wftMax = 255) (hp : s.AllPatient calls) :
    ∃ k, Awaits c k (s.callAll calls) := by
  induction calls generalizing k s with
  | nil => exact ⟨k, h⟩
  | cons call calls ih =>
    obtain ⟨hcall, hrest⟩ := hp
    rcases h.patient hcall with ⟨-, hsame⟩ | ⟨-, hnext⟩
    · rw [Sender.callAll, List.foldl_cons, hsame]
      rw [hsame] at hrest
      exact ih h hrest
    · have hmod := Nat.mod_lt (k + 1) (by decide : 256 > 0)
      have htop : c.wftMax.toNat = 255 := by
        rw [hlimit]
        rfl
      rw [if_neg (by omega)] at hnext
      exact ih hnext hrest

end Awaits

/-! ### A peer that never lets go -/

/-- The peer of a configuration. -/
def peer (c : Config) : Config :=
  { c with address :=
      { mode := c.address.mode, txId := c.address.rxId, rxId := c.address.txId
        txExtension := c.address.rxExtension, rxExtension := c.address.txExtension } }

/-- Its FC.WAIT. -/
theorem isWait_makeFlowControl (c : Config) :
    IsoTp.isWait c.address (makeFlowControl (peer c) .wait) := by
  have hm : (peer c).address.Mirrored c.address := ⟨rfl, rfl, rfl, rfl, rfl⟩
  have hh := (peer c).address.headerSize_le
  obtain ⟨hpci, hlow⟩ := pci_flowControl .wait
  have hbody := body_makeFrame hm (List.cons_ne_nil
    (BitVec.ofNat 8 (0x30 ||| FlowStatus.wait.toNibble)) [(peer c).blockSize, (peer c).stMinRaw])
    (by simp only [List.length_cons, List.length_nil]; omega)
  rw [makeFlowControl_eq, IsoTp.isWait, hbody]
  refine decide_eq_true ⟨?_, by simp, ?_⟩
  · rw [pciOf, List.cons_append, List.getD_cons_zero, hpci]
    rfl
  · rw [List.cons_append, List.getD_cons_zero, hlow]
    rfl

theorem replicate_patient {call : SenderCall} {frame : FdFrame}
    (hcall : call = .onFrame frame now) (h : IsoTp.isWait s.config.address frame) (n : ℕ) :
    s.AllPatient (List.replicate n call) := by
  induction n generalizing s with
  | zero => trivial
  | succ n ih =>
    subst hcall
    exact ⟨.inl h, ih (by rw [call_config]; exact h)⟩

/-- Some transfer waits, if the configuration is accepted. -/
theorem exists_entered (h : c.validate = .ok ()) : ∃ s, Entered c s := by
  obtain ⟨s₀, hbegin⟩ := @begin_ok c (List.replicate 8 0) h (by simp) 0
  obtain ⟨-, -, -, hconfig, hpayload, hresult, hstate⟩ := begin_spec hbegin
  have hlen : 7 - c.address.headerSize < (List.replicate 8 (0 : Byte)).length := by
    rw [List.length_replicate]
    omega
  rw [if_neg (Nat.not_le.2 hlen)] at hstate
  obtain ⟨s, hpoll, -, hr, hs⟩ := poll_first 0 hresult hstate hconfig hpayload hlen
  refine ⟨s, s₀, _, 0, [], .poll 0, hbegin, ?_, ?_, hs, hr⟩
  · rw [callAll, List.foldl_nil, hstate]
    decide
  · rw [callAll, List.foldl_nil, call, hpoll]

/-- With a limit of 255 the peer sends 256 frames, and the transfer goes on. -/
theorem not_waitLimit (hvalid : c.validate = .ok ()) (hlimit : c.wftMax = 255) :
    ¬ WaitLimit c := by
  intro hall
  obtain ⟨s, hs⟩ := exists_entered hvalid
  have hwait := isWait_makeFlowControl c
  have hpatient := @replicate_patient s 0 _ _ rfl (by rw [hs.awaits.config]; exact hwait) 256
  obtain ⟨k, hk⟩ := hs.awaits.endless hlimit hpatient
  have hcount : (List.replicate 256 (SenderCall.onFrame (makeFlowControl (peer c) .wait) 0)).countP
      (·.isWait c.address) = c.wftMax.toNat + 1 := by
    rw [List.countP_replicate, hlimit]
    exact if_pos hwait
  have hend := (hall s hs _ hpatient).2 hcount
  rw [hk.result] at hend
  cases hend

/-- **The limit holds** unless it is 255, in every configuration that `begin` accepts. -/
theorem waitLimit_iff (hzero : c.wftMax ≠ 0) :
    WaitLimit c ↔ c.wftMax ≠ 255 ∨ c.validate ≠ .ok () := by
  constructor
  · intro hall
    by_contra hnot
    obtain ⟨hlimit, hvalid⟩ := not_or.1 hnot
    exact not_waitLimit (not_not.1 hvalid) (not_not.1 hlimit) hall
  · intro hcond s hs calls hp
    rcases hcond with hlimit | hinvalid
    · have hrun := hs.awaits.callAll hzero hlimit (Nat.zero_le _) hp
      rw [Nat.zero_add] at hrun
      exact ⟨fun hle => ⟨(hrun.1 hle).state, (hrun.1 hle).result⟩, hrun.2⟩
    · obtain ⟨s₀, P, start, before, call, hbegin, -⟩ := hs
      exact absurd (begin_spec hbegin).2.1 hinvalid

/-- The default limit is four. -/
theorem waitLimit_default : WaitLimit testerConfig :=
  (waitLimit_iff (by decide)).2 (.inl (by decide))

/-- The largest limit is none. -/
theorem waitLimit_wraps : ¬ WaitLimit { testerConfig with wftMax := 255 } :=
  not_waitLimit (by decide) rfl

end Sender

end IsoTp
end Canforge
