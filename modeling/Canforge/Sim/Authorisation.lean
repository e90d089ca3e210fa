/-
# Who may write the flash

The server is meant to change its flash only when it is unlocked, which it never is
in the default session (`Reachable.unlocked_session`).  The erase routine checks the
lock, TransferData only that a download is active, and DiagnosticSessionControl
takes the lock away without ending the download (ECUReset ends it).
`authorised_iff` is the exact statement for runs: every change of the flash is
authorised if and only if no block is written while the server is locked
(`Diagnostics.WritesLocked`).
-/

import Canforge.Sim.Runs

namespace Canforge
namespace Sim

open Canforge.Core IsoTp Lib Uds

namespace Diagnostics

/-- A block that a locked server writes over different bytes. -/
structure WritesLocked (d : Diagnostics) (request : List Byte) : Prop where
  locked : d.unlocked = false
  writes : d.WritesBlock request
  differs : (d.flash.drop d.blockOffset).take (request.length - 2) ≠ request.drop 2

variable {d d' : Diagnostics} {request response : List Byte}

/-- A write changes the flash if and only if it writes other bytes. -/
theorem writeFlash_ne_iff {offset : ℕ} {data : List Byte}
    (h : offset + data.length ≤ d.flash.length) :
    d.writeFlash offset data ≠ d.flash ↔ (d.flash.drop offset).take data.length ≠ data := by
  have hsplit : d.flash.take offset ++ (d.flash.drop offset).take data.length ++
      d.flash.drop (offset + data.length) = d.flash := by
    rw [List.append_assoc, ← List.drop_drop, List.take_append_drop, List.take_append_drop]
  have hlen : (d.flash.take offset).length = offset := by rw [List.length_take]; omega
  refine not_congr ⟨fun heq => ?_, fun heq => ?_⟩
  · rw [← congrArg (fun flash => (flash.drop offset).take data.length) heq]
    simp only [writeFlash]
    rw [List.append_assoc, List.drop_left' hlen, List.take_left]
  · rw [heq] at hsplit
    exact hsplit

theorem WritesBlock.changes_iff (h : d.WritesBlock request) :
    d.writeFlash d.blockOffset (request.drop 2) ≠ d.flash ↔
      (d.flash.drop d.blockOffset).take (request.length - 2) ≠ request.drop 2 := by
  have hlen : (request.drop 2).length = request.length - 2 := List.length_drop
  rw [writeFlash_ne_iff (hlen ▸ h.fits), hlen]

/-- No outcome leaves the server unlocked in the default session. -/
theorem Handled.unlocked_session (h : Handled d request response d')
    (hd : d.unlocked = true → d.session ≠ .default) :
    d'.unlocked = true → d'.session ≠ .default := by
  cases h with
  | enteredSession positive session =>
    intro hu hs
    simp only at hu hs
    rw [if_pos hs] at hu
    cases hu
  | reset positive => exact fun h => absurd h Bool.false_ne_true
  | acceptedKey positive session => exact fun _ => session
  | _ => exact hd

end Diagnostics

namespace UdsServer

variable {s t : UdsServer} {e : ServerEvent} {config : UdsServerConfig}

/-- **An unlocked server is not in the default session.** -/
theorem Reachable.unlocked_session (h : Reachable config s) :
    s.unlocked = true → s.session ≠ .default := by
  induction h with
  | refl => exact fun h => absurd h Bool.false_ne_true
  | tail _ _ hstep ih =>
    rcases step_cases hstep with ⟨request, now, response, _, hd⟩ | ⟨_, _, _, _, ht⟩
    · exact (Diagnostics.handle_handled hd).unlocked_session ih
    · rw [ht]
      exact ih

/-- A change of the flash is made by an unlocked server outside the default session. -/
def Authorised (s : UdsServer) (_ : ServerEvent) (t : UdsServer) : Prop :=
  t.flash ≠ s.flash → s.unlocked = true ∧ s.session ≠ .default

/-- The request of a step is not a block that a locked server writes. -/
def NoLockedWrite (s : UdsServer) (e : ServerEvent) (_ : UdsServer) : Prop :=
  s.Asked e fun request => ¬ s.WritesLocked request

/-- **Flash authorisation, exactly.**  In a run every change of the flash is
authorised if and only if no step writes a block while the server is locked. -/
theorem authorised_iff (config : UdsServerConfig) (es : List ServerEvent) :
    Along step Authorised (create config) es ↔ Along step NoLockedWrite (create config) es := by
  refine Along.congr .refl (fun s e t hs hstep => ?_) es
  have hsession := Reachable.unlocked_session hs
  rcases step_cases hstep with ⟨request, now, response, hin, hd⟩ | ⟨hin, _, _, _, ht⟩
  · constructor
    · intro hauth request' now' hin' hw
      cases hin.symm.trans hin'
      obtain ⟨_, d', hd', hflash⟩ := hw.writes.written now
      cases hd.symm.trans hd'
      have hlocked := (hauth (by rw [hflash]; exact hw.writes.changes_iff.2 hw.differs)).1
      exact absurd (hw.locked.symm.trans hlocked) (by decide)
    · intro hno hflash
      rcases (Diagnostics.handle_handled hd).flash_cases with hsame | ⟨_, hu⟩ | ⟨hw, heq⟩
      · exact absurd hsame hflash
      · exact ⟨hu, hsession hu⟩
      · cases hu : s.unlocked with
        | true => exact ⟨rfl, hsession hu⟩
        | false => exact absurd ⟨hu, hw, hw.changes_iff.1 (heq ▸ hflash)⟩ (hno request now hin)
  · have hsame : t.flash = s.flash := by rw [ht]
    refine iff_of_true (fun h => absurd hsame h) fun _ _ hin' => ?_
    cases hin.symm.trans hin'

/-- **The defect.**  Back in the default session, and locked, the server still writes. -/
theorem locked_server_writes : ∃ s t, Reachable fourBytes s ∧
    s.step (.request [0x36, 0x01, 1, 2, 3, 4] 0) = some t ∧ s.unlocked = false ∧
    s.session = .default ∧ s.flash = [0xFF, 0xFF, 0xFF, 0xFF] ∧ t.flash = [1, 2, 3, 4] := by
  have hrun : ((run step (fun _ _ => True) (create fourBytes)
      (startDownload ++ [.request [0x10, 0x01] 0])).bind fun s =>
        (s.step (.request [0x36, 0x01, 1, 2, 3, 4] 0)).map fun t =>
          (s.unlocked, s.session, s.flash, t.flash)) =
      some (false, .default, [0xFF, 0xFF, 0xFF, 0xFF], [1, 2, 3, 4]) := by decide +kernel
  obtain ⟨s, hs, hst⟩ := Option.bind_eq_some_iff.1 hrun
  obtain ⟨t, ht, heq⟩ := Option.map_eq_some_iff.1 hst
  simp only [Prod.mk.injEq] at heq
  exact ⟨s, t, .of_run .refl hs, ht, heq⟩

end UdsServer

end Sim
end Canforge
