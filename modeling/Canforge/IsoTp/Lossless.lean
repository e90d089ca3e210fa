/-
# Loss-free delivery

One sender and one receiver with mirrored addresses and a network between them
(`Link`), driven by polls of either side at any time and by the network, which
hands the oldest frame in flight to its destination (`deliver…`), loses it
(`lose…`) or hands it over and keeps it (`repeat…`).

`InTime` allows neither loss nor repetition, and no poll of a side whose N_Bs or
N_Cr deadline has come.  The times of a run are otherwise arbitrary: they need
not be monotone, and the deadline that counts is the stored one, so a wrapped
sum needs no extra assumption.  Under `InTime` every reachable state is one of
the phases of `Transfer` (`Link.transfer`), and `Link.lossless` reads off what
the two sides report.
-/

import Canforge.IsoTp.Link
import Canforge.Lib.Transition

namespace Canforge
namespace IsoTp

open Canforge.Core Lib

/-- A sender, a receiver and the frames in flight between them, oldest first. -/
structure Link where
  sender : Sender
  receiver : Receiver
  toReceiver : List FdFrame
  toSender : List FdFrame
  deriving DecidableEq

/-- What can happen next. -/
inductive LinkEvent
  | pollSender (now : ℕ)
  | pollReceiver (now : ℕ)
  | deliverToReceiver (now : ℕ)
  | deliverToSender (now : ℕ)
  | loseToReceiver
  | loseToSender
  | repeatToReceiver (now : ℕ)
  | repeatToSender (now : ℕ)

namespace Link

/-- A sender that begins, a fresh receiver, nothing in flight. -/
def start (sender : Sender) (config : Config) : Link := ⟨sender, { config }, [], []⟩

/-- One event. -/
def step (l : Link) : LinkEvent → Option Link
  | .pollSender now =>
    let (s, out) := l.sender.poll now
    some { l with sender := s, toReceiver := l.toReceiver ++ out }
  | .pollReceiver now =>
    let (r, out) := l.receiver.poll now
    some { l with receiver := r, toSender := l.toSender ++ out }
  | .deliverToReceiver now =>
    match l.toReceiver with
    | [] => none
    | f :: fs => some { l with receiver := l.receiver.onFrame f now, toReceiver := fs }
  | .deliverToSender now =>
    match l.toSender with
    | [] => none
    | f :: fs => some { l with sender := l.sender.onFrame f now, toSender := fs }
  | .loseToReceiver =>
    match l.toReceiver with
    | [] => none
    | _ :: fs => some { l with toReceiver := fs }
  | .loseToSender =>
    match l.toSender with
    | [] => none
    | _ :: fs => some { l with toSender := fs }
  | .repeatToReceiver now =>
    match l.toReceiver with
    | [] => none
    | f :: _ => some { l with receiver := l.receiver.onFrame f now }
  | .repeatToSender now =>
    match l.toSender with
    | [] => none
    | f :: _ => some { l with sender := l.sender.onFrame f now }

/-- No timeout fires and nothing is lost or repeated. -/
def InTime (l : Link) : LinkEvent → Prop
  | .pollSender now => l.sender.state = .waitingFlowControl → now < l.sender.deadlineNs
  | .pollReceiver now => l.receiver.state = .receiving → now < l.receiver.deadlineNs
  | .deliverToReceiver _ => True
  | .deliverToSender _ => True
  | .loseToReceiver => False
  | .loseToSender => False
  | .repeatToReceiver _ => False
  | .repeatToSender _ => False

instance (l : Link) : (e : LinkEvent) → Decidable (InTime l e)
  | .pollSender _ => inferInstanceAs (Decidable (_ → _))
  | .pollReceiver _ => inferInstanceAs (Decidable (_ → _))
  | .deliverToReceiver _ => .isTrue trivial
  | .deliverToSender _ => .isTrue trivial
  | .loseToReceiver => .isFalse id
  | .loseToSender => .isFalse id
  | .repeatToReceiver _ => .isFalse id
  | .repeatToSender _ => .isFalse id

variable {c cr : Config} {P : List Byte} {l l' : Link} {e : LinkEvent} {s₀ : Sender} {now : ℕ}

/-- **One event keeps the transfer in one of its phases.** -/
theorem transfer_step (hm : c.address.Mirrored cr.address) (h₁ : 1 ≤ P.length)
    (hmax : P.length ≤ cr.maxReceiveLength) (h₃₂ : P.length < 2 ^ 32)
    (h : Transfer c cr P l.sender l.receiver l.toReceiver l.toSender) (hok : InTime l e)
    (hstep : l.step e = some l') :
    Transfer c cr P l'.sender l'.receiver l'.toReceiver l'.toSender := by
  obtain ⟨s, r, sr, rs⟩ := l
  cases e with
  | pollSender now =>
    cases hstep
    exact h.pollSender hok
  | pollReceiver now =>
    cases hstep
    exact h.pollReceiver hok
  | deliverToReceiver now =>
    cases sr with
    | nil => cases hstep
    | cons f sr =>
      cases hstep
      exact h.deliver now hm h₁ (fun _ => hmax) h₃₂
  | deliverToSender now =>
    cases rs with
    | nil => cases hstep
    | cons f rs =>
      cases hstep
      exact h.deliverFlowControl now hm
  | loseToReceiver => exact hok.elim
  | loseToSender => exact hok.elim
  | repeatToReceiver now => exact hok.elim
  | repeatToSender now => exact hok.elim

/-- **Every state of a run in time is a phase of the transfer.** -/
theorem transfer (hm : c.address.Mirrored cr.address) (h₁ : 1 ≤ P.length)
    (hmax : P.length ≤ cr.maxReceiveLength)
    (hbegin : ({ config := c } : Sender).begin P now = .ok s₀)
    (h : Reach step InTime (start s₀ cr) l) :
    Transfer c cr P l.sender l.receiver l.toReceiver l.toSender := by
  obtain ⟨_, _, h₃₂, hc, hP, hres, hst⟩ := Sender.begin_spec hbegin
  have h₀ : Transfer c cr P s₀ { config := cr } [] [] :=
    .start hc hP hres hst ⟨rfl, rfl, rfl⟩
  induction h with
  | refl => exact h₀
  | tail _ hok hstep ih => exact transfer_step hm h₁ hmax h₃₂ ih hok hstep

/-- **Lossless delivery.**  No run in time makes either side report anything but
progress or success; a completed reception is the payload; and when the sender is
done and nothing is in flight, the reception is complete. -/
theorem lossless (hm : c.address.Mirrored cr.address) (h₁ : 1 ≤ P.length)
    (hmax : P.length ≤ cr.maxReceiveLength)
    (hbegin : ({ config := c } : Sender).begin P now = .ok s₀)
    (h : Reach step InTime (start s₀ cr) l) :
    (l.sender.result = .inProgress ∨ l.sender.result = .ok) ∧
      (l.receiver.result = .inProgress ∨ l.receiver.result = .ok) ∧
      (l.receiver.result = .ok → l.receiver.message = P) ∧
      (l.sender.result = .ok → l.toReceiver = [] → l.toSender = [] → l.receiver.result = .ok) := by
  have ht := transfer hm h₁ hmax hbegin h
  obtain ⟨hsender, hreceiver⟩ := ht.results
  refine ⟨hsender, hreceiver, fun hok => ?_, fun hok hforth _ => (ht.of_sent hok).2 hforth⟩
  obtain ⟨_, hholds, _⟩ := ht.of_received hok
  exact hholds.payload

/-- A sender of 15 bytes that has begun. -/
def fifteenBytes : Sender :=
  { config := testerConfig, payload := (List.range 15).map (BitVec.ofNat 8),
    state := .sendingFirst }

/-- A run of 15 bytes in blocks of one frame: First Frame, clearance, a full
Consecutive Frame, clearance, a padded one. -/
theorem lossless_two_blocks : ∃ l,
    Reach step InTime (start fifteenBytes { ecuConfig with blockSize := 1 }) l ∧
      l.toReceiver = [] ∧ l.sender.result = .ok ∧ l.receiver.message = fifteenBytes.payload := by
  have hm : testerConfig.address.Mirrored { ecuConfig with blockSize := 1 }.address :=
    ⟨rfl, rfl, rfl, rfl, rfl⟩
  have hbegin : ({ config := testerConfig } : Sender).begin fifteenBytes.payload 0 =
      .ok fifteenBytes := by decide
  obtain ⟨l, hreach, hforth, hs, hr⟩ : ∃ l,
      Reach step InTime (start fifteenBytes { ecuConfig with blockSize := 1 }) l ∧
        l.toReceiver = [] ∧ l.sender.result = .ok ∧ l.receiver.result = .ok :=
    Reach.exists_of_run
      [.pollSender 0, .deliverToReceiver 1, .pollReceiver 2, .deliverToSender 3, .pollSender 4,
        .deliverToReceiver 5, .pollReceiver 6, .deliverToSender 7, .pollSender 8,
        .deliverToReceiver 9] (by decide)
  exact ⟨l, hreach, hforth, hs, (lossless hm (by decide) (by decide) hbegin hreach).2.2.1 hr⟩

end Link

end IsoTp
end Canforge
