/-
# Repeated blocks

A TransferData that repeats the block accepted last is to be answered again and to do
nothing.  The server keeps only the counter it expects next and takes the one before it,
`expected_block_ - 1`, for the last one.  `Counted` adds to a server the counter of the last
block that the download has accepted, and `Follows` says what the expected one is in terms of
it: `0x01` behind `0xFF` and at the start of a download.  These two are where the subtraction
is wrong (`repeat_exact_iff`).
-/

import Canforge.Sim.Firmware

namespace Canforge
namespace Sim

open Canforge.Core IsoTp Lib Uds

namespace Diagnostics

variable {d d' : Diagnostics} {request response : List Byte} {now : ℕ}

/-- A TransferData of at least two bytes, in a download, with another counter than the expected
one. -/
structure OutOfTurn (d : Diagnostics) (request : List Byte) : Prop where
  service : request.getD 0 0 = Service.transferData.toByte
  active : d.downloadActive = true
  length : 2 ≤ request.length
  block : request.getD 1 0 ≠ d.expectedBlock

/-- What the server does with it. -/
theorem OutOfTurn.handled (h : d.OutOfTurn request) (now : ℕ) :
    d.handle request now = some
      (if request.getD 1 0 = d.expectedBlock - 1 then [0x76, request.getD 1 0]
        else [0x7F, 0x36, 0x73], d) := by
  obtain ⟨b, bs, rfl, hb⟩ := handle_eq (by have := h.length; omega) h.service
  have hservice : b = 0x36 := h.service
  have hpositive : positive (b :: bs) [(b :: bs).getD 1 0] = [0x76, (b :: bs).getD 1 0] := by
    have hno : suppresses (b :: bs) = false := by
      rw [suppresses, h.service]
      rfl
    rw [positive, if_neg (by rw [hno]; decide), hservice]
    rfl
  rw [handle, hb]
  simp only [transferData]
  rw [if_neg (by rw [h.active]; decide), if_neg (Nat.not_lt.2 h.length), if_pos h.block, hpositive,
    h.service]
  split_ifs
  · rfl
  · rfl

/-- A RequestDownload that is accepted. -/
def StartsDownload (d : Diagnostics) (request : List Byte) : Prop :=
  d.AsksDownload request ∧ ¬ d.OutOfRange request

instance (d : Diagnostics) (request : List Byte) : Decidable (d.StartsDownload request) :=
  inferInstanceAs (Decidable (_ ∧ _))

/-- **What moves the expected counter:** a block, and a new download. -/
theorem handle_expectedBlock (h : d.handle request now = some (response, d')) :
    (d.WritesBlock request ∧ d'.expectedBlock = nextBlock d.expectedBlock) ∨
      (¬ d.WritesBlock request ∧ d.StartsDownload request ∧ d'.expectedBlock = 1) ∨
      (¬ d.WritesBlock request ∧ ¬ d.StartsDownload request ∧
        d'.expectedBlock = d.expectedBlock) := by
  by_cases hwrites : d.WritesBlock request
  · obtain ⟨_, _, _, _, _, hd, _⟩ := hwrites.answered now
    rw [h] at hd
    cases hd
    exact .inl ⟨hwrites, rfl⟩
  by_cases hstarts : d.StartsDownload request
  · have hd := h.symm.trans (hstarts.1.accepted hstarts.2)
    cases hd
    exact .inr (.inl ⟨hwrites, hstarts, rfl⟩)
  refine .inr (.inr ⟨hwrites, hstarts, ?_⟩)
  cases handle_handled h with
  | acceptedDownload positive asks range => exact absurd ⟨asks, range⟩ hstarts
  | wroteBlock writes => exact absurd writes hwrites
  | _ => rfl

end Diagnostics

/-- A server and the counter of the last block that its download has accepted. -/
structure Counted where
  server : UdsServer
  accepted : Option Byte := none

namespace Counted

open Diagnostics UdsServer

/-- The counter behind an event: a block that is written sets it, a download that begins clears
it. -/
def nextAccepted (w : Counted) (e : ServerEvent) : Option Byte :=
  match w.server.incoming e with
  | none => w.accepted
  | some (request, _) =>
    if w.server.WritesBlock request then some (request.getD 1 0)
    else if w.server.StartsDownload request then none
    else w.accepted

/-- One event. -/
def step (w : Counted) (e : ServerEvent) : Option Counted :=
  (w.server.step e).map fun t => ⟨t, w.nextAccepted e⟩

/-- The expected counter follows the accepted one, and `0x00` is never accepted. -/
structure Follows (w : Counted) : Prop where
  expected : w.server.expectedBlock = w.accepted.elim 1 nextBlock
  nonzero : w.accepted ≠ some 0

variable {config : UdsServerConfig} {w w' : Counted} {e : ServerEvent} {request : List Byte}

theorem nextBlock_ne_zero (block : Byte) : nextBlock block ≠ 0 := by
  unfold nextBlock
  split_ifs with h
  · decide
  · exact h

theorem Follows.expected_ne_zero (h : w.Follows) : w.server.expectedBlock ≠ 0 := by
  rw [h.expected]
  cases w.accepted with
  | none => decide
  | some block => exact nextBlock_ne_zero block

/-- **A step keeps the two counters together.** -/
theorem Follows.step (h : w.Follows) (hstep : w.step e = some w') : w'.Follows := by
  obtain ⟨t, ht, rfl⟩ := Option.map_eq_some_iff.1 hstep
  rcases step_cases ht with ⟨request, now, response, hin, hd⟩ | ⟨hin, _, _, _, hdiag⟩
  · have hnext : w.nextAccepted e = if w.server.WritesBlock request then some (request.getD 1 0)
        else if w.server.StartsDownload request then none else w.accepted := by
      rw [nextAccepted, hin]
    rcases handle_expectedBlock hd with
      ⟨hwrites, hexpected⟩ | ⟨hno, hstarts, hexpected⟩ | ⟨hno, hnot, hexpected⟩
    · rw [hnext, if_pos hwrites, hwrites.block]
      exact ⟨hexpected, fun hzero => h.expected_ne_zero (Option.some.inj hzero)⟩
    · rw [hnext, if_neg hno, if_pos hstarts]
      exact ⟨hexpected, nofun⟩
    · rw [hnext, if_neg hno, if_neg hnot]
      exact ⟨hexpected.trans h.expected, h.nonzero⟩
  · have hnext : w.nextAccepted e = w.accepted := by
      rw [nextAccepted, hin]
    rw [hnext]
    refine ⟨?_, h.nonzero⟩
    rw [hdiag]
    exact h.expected

/-- A run of any events. -/
abbrev Reachable (config : UdsServerConfig) (w : Counted) : Prop :=
  Reach step (fun _ _ => True) ⟨create config, none⟩ w

theorem reach_follows (h : Reachable config w) : w.Follows := by
  induction h with
  | refl => exact ⟨rfl, nofun⟩
  | tail _ _ hstep ih => exact ih.step hstep

/-- A request out of turn is answered as it should be: again and without an effect if it repeats
the block accepted last, and as a wrong counter if not. -/
def AnswersRepeat (w : Counted) (request : List Byte) (now : ℕ) : Prop :=
  (w.accepted = some (request.getD 1 0) →
    w.server.handle request now = some ([0x76, request.getD 1 0], w.server.toDiagnostics)) ∧
  (w.accepted ≠ some (request.getD 1 0) →
    ∃ d', w.server.handle request now = some ([0x7F, 0x36, 0x73], d'))

/-- What the subtraction takes for the last block. -/
theorem Follows.sub_one_iff (h : w.Follows) (block : Byte) :
    (block = w.server.expectedBlock - 1 ↔ w.accepted = some block) ↔
      ¬ (w.server.expectedBlock = 1 ∧
        (block = 0 ∨ (w.accepted = some 0xFF ∧ block = 0xFF))) := by
  have hwrap : ∀ b : Byte, nextBlock b - 1 = if b = 0xFF then 0 else b := by decide +kernel
  have hone : ∀ b : Byte, nextBlock b = 1 ↔ b = 0xFF ∨ b = 0 := by decide +kernel
  have hexpected := h.expected
  have hnonzero := h.nonzero
  cases haccepted : w.accepted with
  | none =>
    rw [haccepted] at hexpected
    rw [hexpected]
    have hsub : (1 : Byte) - 1 = 0 := by decide
    simp only [Option.elim_none, hsub, reduceCtorEq, iff_false, true_and, false_and, or_false]
  | some last =>
    rw [haccepted] at hexpected hnonzero
    have hlast : last ≠ 0 := fun hzero => hnonzero (congrArg some hzero)
    rw [hexpected]
    simp only [Option.elim_some, hwrap, hone, hlast, or_false, Option.some.injEq]
    by_cases hff : last = 0xFF
    · subst hff
      simp only [if_true, true_and]
      constructor
      · rintro hiff (hzero | hff)
        · exact absurd (hiff.1 hzero) (by rw [hzero]; decide)
        · exact absurd (hiff.2 hff.symm) (by rw [hff]; decide)
      · intro hnot
        exact iff_of_false (fun hzero => hnot (.inl hzero)) fun hff => hnot (.inr hff.symm)
    · rw [if_neg hff]
      exact iff_of_true eq_comm fun hcon => hff hcon.1

/-- **Repeated blocks, exactly.**  In every reachable state and for every TransferData out of turn
the server answers as it should if and only if it does not expect `0x01`, or the counter is
neither `0x00` nor the repeated `0xFF`. -/
theorem repeat_exact_iff (hw : Reachable config w) (h : w.server.OutOfTurn request) (now : ℕ) :
    w.AnswersRepeat request now ↔ ¬ (w.server.expectedBlock = 1 ∧
      (request.getD 1 0 = 0 ∨ (w.accepted = some 0xFF ∧ request.getD 1 0 = 0xFF))) := by
  rw [← (reach_follows hw).sub_one_iff, AnswersRepeat, h.handled now]
  by_cases hprevious : request.getD 1 0 = w.server.expectedBlock - 1
  · rw [if_pos hprevious, ← hprevious]
    simp only [true_iff, implies_true, true_and]
    constructor
    · intro hwrong
      by_contra hother
      obtain ⟨d', hd⟩ := hwrong hother
      cases hd
    · exact fun hsame hother => absurd hsame hother
  · rw [if_neg hprevious]
    simp only [hprevious, false_iff]
    constructor
    · rintro ⟨hrepeat, -⟩ hsame
      cases hrepeat hsame
    · exact fun hother => ⟨fun hsame => absurd hsame hother, fun _ => ⟨_, rfl⟩⟩

/-- After one block, a repeat of it is answered and nothing changes. -/
theorem repeat_exact_one : ∃ w, Reachable fourBytes w ∧ w.accepted = some 1 ∧
    w.server.handle [0x36, 0x01, 9, 9] 0 = some ([0x76, 0x01], w.server.toDiagnostics) := by
  obtain ⟨w, hw, haccepted, hactive, hexpected⟩ : ∃ w, Reachable fourBytes w ∧
      w.accepted = some 1 ∧ w.server.downloadActive = true ∧ w.server.expectedBlock = 2 :=
    Reach.exists_of_run (startDownload ++ [.request [0x36, 0x01, 1, 2] 0]) (by decide +kernel)
  have hturn : w.server.OutOfTurn [0x36, 0x01, 9, 9] :=
    ⟨rfl, hactive, by decide, by rw [hexpected]; decide⟩
  have hanswers := (repeat_exact_iff hw hturn 0).2 fun h => by
    rw [hexpected] at h
    exact absurd h.1 (by decide)
  exact ⟨w, hw, haccepted, hanswers.1 haccepted⟩

/-- **The defect.**  Before any block, the counter `0x00` is answered as a repeat. -/
theorem zero_repeats_nothing : ∃ w, Reachable fourBytes w ∧ w.server.OutOfTurn [0x36, 0x00] ∧
    w.accepted = none ∧
    w.server.handle [0x36, 0x00] 0 = some ([0x76, 0x00], w.server.toDiagnostics) := by
  obtain ⟨w, hw, haccepted, hactive, hexpected⟩ : ∃ w, Reachable fourBytes w ∧
      w.accepted = none ∧ w.server.downloadActive = true ∧ w.server.expectedBlock = 1 :=
    Reach.exists_of_run startDownload (by decide +kernel)
  have hturn : w.server.OutOfTurn [0x36, 0x00] :=
    ⟨rfl, hactive, by decide, by rw [hexpected]; decide⟩
  refine ⟨w, hw, hturn, haccepted, (hturn.handled 0).trans ?_⟩
  rw [hexpected]
  rfl

end Counted

end Sim
end Canforge
