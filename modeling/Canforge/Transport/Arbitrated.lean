/-
# Who gets the bus

Every start of a transmission, in every run of a medium, takes the head with the
smallest arbitration key; among equal keys the participant that was attached
first; and every other queue stays as it was (`arbitration_right`).  The order
of the keys is the one of the wire (`Canforge.Core.Arbitration`).
-/

import Canforge.Transport.Medium

namespace Canforge
namespace Transport

open Canforge.Core

/-- What a start of a transmission owes the participants. -/
structure Transmission.Arbitrated (t : Transmission) : Prop where
  /-- The frame is the head of its sender's queue, and beats every other head: by its key,
  or with an equal key because its sender was attached earlier. -/
  wins : ∃ w ∈ t.before, w.handle = t.sender ∧ w.isOpen = true ∧
    w.outbox.head? = some t.frame ∧
    ∀ p ∈ t.before, p.handle ≠ t.sender → p.isOpen = true → ∀ g, p.outbox.head? = some g →
      t.frame.id.arbitrationKey < g.id.arbitrationKey ∨
      (t.frame.id.arbitrationKey = g.id.arbitrationKey ∧ t.sender < p.handle)
  /-- It leaves its queue, and nothing else leaves one. -/
  keeps : List.Forall₂ (fun p q => q.handle = p.handle ∧
    q.outbox = if p.handle = t.sender then p.outbox.tail else p.outbox) t.before t.after

namespace VirtualMedium

variable {m m' : VirtualMedium}

theorem record_arbitrated (h : Attached m) {w : VirtualBus} {frame : FdFrame}
    {earlier later : List VirtualBus} (hwins : VirtualBus.Wins m.participants w frame earlier later) :
    (m.record w frame).Arbitrated where
  wins := by
    obtain ⟨hopen, rest, hout⟩ := VirtualBus.head_eq_some_iff.1 hwins.head
    refine ⟨w, Wins.mem hwins, rfl, hopen, by rw [hout]; rfl, fun p hp hne hpo g hg => ?_⟩
    have hhead : p.head = some g := by rw [VirtualBus.head, if_pos hpo, hg]
    have hordered := h.ordered
    have hmem : p ∈ earlier ++ w :: later := hwins.split ▸ hp
    rw [hwins.split] at hordered
    rcases List.mem_append.1 hmem with hp | hp
    · exact .inl (hwins.first p hp g hhead)
    · rcases List.mem_cons.1 hp with rfl | hp
      · exact absurd rfl hne
      · have hlt : w.handle < p.handle :=
          List.rel_of_pairwise_cons (List.pairwise_append.1 hordered).2.1 hp
        rcases Nat.lt_or_eq_of_le (hwins.least p hp g hhead) with hkey | hkey
        · exact .inl hkey
        · exact .inr ⟨BitVec.eq_of_toNat_eq hkey, hlt⟩
  keeps := by
    refine List.forall₂_map_right_iff.2 (List.forall₂_same.2 fun p _ => ?_)
    exact ⟨(m.settled_polite w frame p).handle, m.settled_outbox w frame p⟩

theorem arbitrated_kept : Kept fun m => Attached m ∧ ∀ t ∈ m.history, t.Arbitrated where
  start m h := by
    refine ⟨Attached.kept.start m h.1, ?_⟩
    rcases start_cases m with ⟨heq, -⟩ | ⟨-, w, frame, earlier, later, hwins, heq⟩
    · rw [heq]
      exact h.2
    · rw [heq, occupy_history]
      intro t ht
      rcases List.mem_append.1 ht with ht | ht
      · exact h.2 t ht
      · rw [List.mem_singleton.1 ht]
        exact record_arbitrated h.1 hwins
  complete m h := ⟨Attached.kept.complete m h.1, by rw [complete_history]; exact h.2⟩
  clock m now h := ⟨Attached.kept.clock m now h.1, h.2⟩

theorem arbitrated_keptByCalls :
    KeptByCalls fun m => Attached m ∧ ∀ t ∈ m.history, t.Arbitrated where
  advance _ duration h := arbitrated_kept.advance h duration
  drain _ maxFrames h := arbitrated_kept.drain h maxFrames
  known _ h := h.1
  attach m name h := ⟨Attached.keptByCalls.attach m name h.1, h.2⟩
  detach m who h := ⟨Attached.keptByCalls.detach m who h.1, h.2⟩
  modify m who f hf h := ⟨Attached.keptByCalls.modify m who f hf h.1, h.2⟩
  configure m on rx tx log h := ⟨Attached.keptByCalls.configure m on rx tx log h.1, h.2⟩

/-- **Arbitration is right.**  A start of a transmission is recorded with the participants it
found and left and the frame it put on the wire; in every run every recorded start is
arbitrated; and `operator<` is a strict total order, that of the arbitration bits. -/
theorem arbitration_right :
    (∀ m m' : VirtualMedium, m.startTransmission = (m', true) → ∃ t : Transmission,
      m'.history = m.history ++ [t] ∧ t.before = m.participants ∧ t.after = m'.participants ∧
      m'.current = t.delivered ∧ m'.currentSender = some t.sender) ∧
    (∀ m : VirtualMedium, Reachable m → ∀ t ∈ m.history, t.Arbitrated) ∧
    (∀ a b : CanId, a.less b = true ↔ Lib.Dominates a.arbitrationBits b.arbitrationBits) ∧
    (∀ a : CanId, a.less a = false) ∧
    (∀ a b c : CanId, a.less b = true → b.less c = true → a.less c = true) ∧
    (∀ a b : CanId, a.less b = true ∨ a = b ∨ b.less a = true) := by
  refine ⟨fun m m' h => ?_, fun m h => ?_, CanId.less_iff_dominates, CanId.less_irrefl,
    fun _ _ _ => CanId.less_trans, CanId.less_trichotomy⟩
  · rcases start_cases m with ⟨heq, -⟩ | ⟨-, w, frame, earlier, later, hwins, heq⟩
    · cases heq.symm.trans h
    · cases heq.symm.trans h
      exact ⟨m.record w frame, rfl, rfl, rfl, rfl, rfl⟩
  · have hnil : ∀ timing, Attached (create timing) ∧ ∀ t ∈ (create timing).history,
        t.Arbitrated := fun _ => ⟨⟨.nil, by simp [create], by simp [create]⟩, by simp [create]⟩
    exact (arbitrated_keptByCalls.reachable hnil h).2

end VirtualMedium

end Transport
end Canforge
