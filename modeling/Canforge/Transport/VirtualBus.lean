/-
# The virtual bus

`transport/include/canforge/transport/VirtualBus.hpp` and
`transport/src/VirtualBus.cpp`: a medium with its simulated clock, and the
participants attached to it with their queues.  A frame stays on the medium for
its `frame_timing`; when the medium is idle the heads of all queues contend for
it.  The clock is a `std::uint64_t` and its additions wrap (`clockAdd`).

A participant is known by the number of the attachment it came from, which
stands for its address.  `history` is no variable of the code: it records every
start of a transmission and nothing reads it.
-/

import Canforge.Core.Arbitration
import Canforge.Lib.Transition
import Canforge.Transport.Bus

namespace Canforge
namespace Transport

open Canforge.Core

/-- The sum of two times on the clock. -/
def clockAdd (a b : ℕ) : ℕ := (a + b) % 2 ^ 64

/-- `ArbitrationEvent`. -/
structure ArbitrationEvent where
  atNs : ℕ := 0
  winner : CanId
  winnerName : String
  losers : List CanId
  deriving DecidableEq

/-- `VirtualBus`: a participant. -/
structure VirtualBus where
  handle : ℕ
  name : String := ""
  outbox : List FdFrame := []
  inbox : List FdFrame := []
  filters : List Filter := []
  stats : BusStatistics := {}
  isOpen : Bool := false
  deriving DecidableEq

/-- A start of a transmission: the frame as it was queued, and the participants just before
and just after. -/
structure Transmission where
  sender : ℕ
  frame : FdFrame
  start : ℕ
  duration : ℕ
  before : List VirtualBus
  after : List VirtualBus
  deriving DecidableEq

/-- What the others receive: the frame with the end of its transmission as its timestamp. -/
def Transmission.delivered (t : Transmission) : FdFrame :=
  { t.frame with timestampNs := clockAdd t.start t.duration }

/-- `VirtualMedium`. -/
structure VirtualMedium where
  timing : BusTiming := {}
  nowNs : ℕ := 0
  busyUntilNs : ℕ := 0
  loopback : Bool := true
  inFlight : Bool := false
  current : FdFrame := default
  currentSender : Option ℕ := none
  rxLimit : ℕ := 4096
  txLimit : ℕ := 4096
  participants : List VirtualBus := []
  arbitrationLog : List ArbitrationEvent := []
  attached : ℕ := 0
  history : List Transmission := []
  deriving DecidableEq

namespace VirtualBus

/-- The head of the queue of an open participant. -/
def head (p : VirtualBus) : Option FdFrame := if p.isOpen then p.outbox.head? else none

/-- The body of the loop of `deliver`. -/
def offered (m : VirtualMedium) (frame : FdFrame) (sender : Option ℕ) (p : VirtualBus) :
    VirtualBus :=
  if sender = some p.handle ∧ m.loopback = false then p
  else if p.isOpen = false then p
  else if acceptedBy p.filters frame.id = false then p
  else if m.rxLimit ≤ p.inbox.length then
    { p with stats := { p.stats with
        dropped := p.stats.dropped + 1, receiveErrors := p.stats.receiveErrors + 1 } }
  else
    { p with
      inbox := p.inbox ++ [frame]
      stats := { p.stats with
        framesReceived := p.stats.framesReceived + 1
        bytesReceived := p.stats.bytesReceived + frame.size
        errorFrames := p.stats.errorFrames + frame.isErrorFrame.toNat
        firstTimestampNs :=
          if p.stats.firstTimestampNs = 0 then frame.timestampNs else p.stats.firstTimestampNs
        lastTimestampNs := frame.timestampNs } }

/-- The loop of `start_transmission` that looks for the winner. -/
def arbitrate : Option (VirtualBus × FdFrame) → List VirtualBus → Option (VirtualBus × FdFrame)
  | winner, [] => winner
  | winner, p :: rest =>
    match p.head, winner with
    | none, _ => arbitrate winner rest
    | some frame, none => arbitrate (some (p, frame)) rest
    | some frame, some (_, best) =>
      if frame.id.arbitrationKey < best.id.arbitrationKey then arbitrate (some (p, frame)) rest
      else arbitrate winner rest

/-- What `start_transmission` does to the winner. -/
def won (p : VirtualBus) (frame : FdFrame) (t : FrameTiming) (now busyUntil : ℕ) : VirtualBus :=
  { p with
    outbox := p.outbox.tail
    stats := { p.stats with
      framesSent := p.stats.framesSent + 1
      bytesSent := p.stats.bytesSent + frame.size
      wireBits := p.stats.wireBits + t.totalBits
      firstTimestampNs :=
        if p.stats.firstTimestampNs = 0 then now else p.stats.firstTimestampNs
      lastTimestampNs := busyUntil } }

/-- What `start_transmission` does to a participant that contended and lost. -/
def lost (p : VirtualBus) : VirtualBus :=
  { p with stats := { p.stats with arbitrationLosses := p.stats.arbitrationLosses + 1 } }

end VirtualBus

namespace VirtualMedium

/-- `VirtualMedium::create`. -/
def create (timing : BusTiming) : VirtualMedium := { timing }

/-- `attach`. -/
def attach (m : VirtualMedium) (name : String) : VirtualMedium :=
  { m with
    participants := m.participants ++ [{ handle := m.attached, name }]
    attached := m.attached + 1 }

/-- `detach`. -/
def detach (m : VirtualMedium) (who : ℕ) : VirtualMedium :=
  { m with participants := m.participants.filter (·.handle != who) }

/-- `pending`. -/
def pending (m : VirtualMedium) : ℕ := (m.participants.map (·.outbox.length)).sum

/-- `deliver`. -/
def deliver (m : VirtualMedium) (frame : FdFrame) (sender : Option ℕ) : VirtualMedium :=
  { m with participants := m.participants.map (·.offered m frame sender) }

/-- What `start_transmission` does to a participant. -/
def settled (m : VirtualMedium) (winner : VirtualBus) (frame : FdFrame) (p : VirtualBus) :
    VirtualBus :=
  if p.handle = winner.handle then
    p.won frame (frameTiming frame m.timing) m.nowNs
      (clockAdd m.nowNs (frameTiming frame m.timing).nanoseconds)
  else if p.head.isSome then p.lost
  else p

/-- The heads of the queues that did not win. -/
def losers (m : VirtualMedium) (winner : VirtualBus) : List CanId :=
  (m.participants.filter (·.handle != winner.handle)).filterMap fun p => p.head.map (·.id)

/-- `start_transmission` once the winner is known. -/
def occupy (m : VirtualMedium) (winner : VirtualBus) (frame : FdFrame) : VirtualMedium :=
  let losers := m.losers winner
  let t := frameTiming frame m.timing
  let busyUntilNs := clockAdd m.nowNs t.nanoseconds
  let participants := m.participants.map (m.settled winner frame)
  { m with
    participants
    busyUntilNs
    arbitrationLog :=
      if losers = [] then m.arbitrationLog
      else m.arbitrationLog ++ [⟨m.nowNs, frame.id, winner.name, losers⟩]
    current := { frame with timestampNs := busyUntilNs }
    currentSender := some winner.handle
    inFlight := true
    history := m.history ++
      [⟨winner.handle, frame, m.nowNs, t.nanoseconds, m.participants, participants⟩] }

/-- `start_transmission`. -/
def startTransmission (m : VirtualMedium) : VirtualMedium × Bool :=
  if m.inFlight then (m, false)
  else
    match VirtualBus.arbitrate none m.participants with
    | none => (m, false)
    | some (winner, frame) => (m.occupy winner frame, true)

/-- `complete_transmission`. -/
def completeTransmission (m : VirtualMedium) : VirtualMedium :=
  if m.inFlight = false then m
  else
    { ({ m with inFlight := false }).deliver m.current m.currentSender with currentSender := none }

/-- Complete what is in flight and due. -/
def completeDue (m : VirtualMedium) : VirtualMedium :=
  if m.inFlight ∧ m.busyUntilNs ≤ m.nowNs then m.completeTransmission else m

/-- `now_ns_ = now`. -/
def setClock (m : VirtualMedium) (now : ℕ) : VirtualMedium := { m with nowNs := now }

/-- The first half of a round of `advance`: complete what is due, and start if idle. -/
def contend (m : VirtualMedium) : VirtualMedium :=
  if m.completeDue.inFlight then m.completeDue else m.completeDue.startTransmission.1

/-- One round of the loop of `advance`, `true` when it goes round again. -/
def round (target : ℕ) (m : VirtualMedium) : VirtualMedium × Bool :=
  if m.contend.inFlight ∧ m.contend.busyUntilNs ≤ target then
    (m.contend.setClock m.contend.busyUntilNs, true)
  else ((m.contend.setClock target).completeDue, false)

/-- The loop of `advance`, for so many rounds. -/
def rounds (target : ℕ) : ℕ → VirtualMedium → VirtualMedium
  | 0, m => m
  | n + 1, m =>
    match m.round target with
    | (m, true) => rounds target n m
    | (m, false) => m

/-- The rounds `advance` may need: two for every frame. -/
def roundsLeft (m : VirtualMedium) : ℕ :=
  2 * m.pending + if m.inFlight then if m.busyUntilNs ≤ m.nowNs then 1 else 2 else 0

/-- `advance`. -/
def advance (m : VirtualMedium) (duration : ℤ) : VirtualMedium :=
  m.rounds (clockAdd m.nowNs duration.toNat) (m.roundsLeft + 1)

/-- Let what is in flight end, and move the clock there. -/
def land (m : VirtualMedium) : VirtualMedium :=
  if m.inFlight then (m.setClock m.busyUntilNs).completeTransmission else m

/-- The loop of `drain`, for the frames it may still start. -/
def drainLoop : ℕ → VirtualMedium → VirtualMedium
  | 0, m => m
  | left + 1, m =>
    match m.land.startTransmission with
    | (m, true) => drainLoop left m
    | (m, false) => m

/-- `drain`, with the duration it returns. -/
def drain (m : VirtualMedium) (maxFrames : ℕ) : VirtualMedium × ℤ :=
  let m' := (m.drainLoop maxFrames).land
  (m', (BitVec.ofNat 64 m'.nowNs - BitVec.ofNat 64 m.nowNs).toInt)

/-! ### The calls -/

/-- The participant behind a handle. -/
def find (m : VirtualMedium) (who : ℕ) : Option VirtualBus :=
  m.participants.find? fun p => p.handle == who

/-- Change one participant. -/
def modify (m : VirtualMedium) (who : ℕ) (f : VirtualBus → VirtualBus) : VirtualMedium :=
  { m with participants := m.participants.map fun p => if p.handle = who then f p else p }

/-- The errors of `send` and `receive`. -/
def notOpen : Error := ⟨.transportNotOpen, "the virtual bus participant is not open", (0, 0)⟩
def noFd : Error :=
  ⟨.transportUnsupported, "this medium has no CAN FD data bitrate configured", (0, 0)⟩
def queueFull : Error := ⟨.transportOverflow, "the transmit queue is full", (0, 0)⟩
def timedOut : Error :=
  ⟨.transportTimeout, "no frame arrived before the timeout expired", (0, 0)⟩

/-- `VirtualBus::send`. -/
def send (m : VirtualMedium) (p : VirtualBus) (frame : FdFrame) : VirtualMedium × Result Unit :=
  if p.isOpen = false then (m, .error notOpen)
  else if frame.isFd ∧ m.timing.dataBitrate = 0 then (m, .error noFd)
  else if m.txLimit ≤ p.outbox.length then
    (m.modify p.handle fun p =>
      { p with stats := { p.stats with sendErrors := p.stats.sendErrors + 1 } }, .error queueFull)
  else (m.modify p.handle fun p => { p with outbox := p.outbox ++ [frame] }, .ok ())

/-- The second half of `VirtualBus::receive`: take what is waiting. -/
def take (m : VirtualMedium) (p : VirtualBus) : VirtualMedium × Result FdFrame :=
  match p.inbox with
  | [] => (m, .error timedOut)
  | frame :: rest => (m.modify p.handle fun p => { p with inbox := rest }, .ok frame)

/-- `VirtualBus::receive`. -/
def receive (m : VirtualMedium) (p : VirtualBus) (timeout : ℤ) : VirtualMedium × Result FdFrame :=
  if p.isOpen = false then (m, .error notOpen)
  else
    let m := if p.inbox = [] ∧ 0 < timeout then m.advance timeout else m
    m.take ((m.find p.handle).getD p)

/-- `VirtualBus::open`. -/
def openBus (m : VirtualMedium) (who : ℕ) : VirtualMedium :=
  m.modify who fun p => { p with isOpen := true }

/-- `VirtualBus::close`. -/
def closeBus (m : VirtualMedium) (who : ℕ) : VirtualMedium :=
  m.modify who fun p => { p with isOpen := false, outbox := [], inbox := [] }

/-- A call of a program that uses the bus. -/
inductive Call
  | attach (name : String)
  | detach (who : ℕ)
  | openBus (who : ℕ)
  | closeBus (who : ℕ)
  | send (who : ℕ) (frame : FdFrame)
  | receive (who : ℕ) (timeout : ℤ)
  | advance (duration : ℤ)
  | drain (maxFrames : ℕ)
  | setFilters (who : ℕ) (filters : List Filter)
  | resetStatistics (who : ℕ)
  | setLoopback (on : Bool)
  | setReceiveQueueLimit (n : ℕ)
  | setTransmitQueueLimit (n : ℕ)
  | clearArbitrationLog
  deriving DecidableEq

/-- What a call returns. -/
inductive Reply
  | done
  | sent (status : Result Unit)
  | received (frame : Result FdFrame)
  | elapsed (duration : ℤ)

/-- One call.  A participant that is not attached cannot be called. -/
def call (m : VirtualMedium) : Call → Option (VirtualMedium × Reply)
  | .attach name => some (m.attach name, .done)
  | .detach who => (m.find who).map fun _ => (m.detach who, .done)
  | .openBus who => (m.find who).map fun _ => (m.openBus who, .done)
  | .closeBus who => (m.find who).map fun _ => (m.closeBus who, .done)
  | .send who frame => (m.find who).map fun p =>
    let sent := m.send p frame
    (sent.1, .sent sent.2)
  | .receive who timeout => (m.find who).map fun p =>
    let received := m.receive p timeout
    (received.1, .received received.2)
  | .advance duration => some (m.advance duration, .done)
  | .drain maxFrames =>
    let drained := m.drain maxFrames
    some (drained.1, .elapsed drained.2)
  | .setFilters who filters =>
    (m.find who).map fun _ => (m.modify who fun p => { p with filters }, .done)
  | .resetStatistics who =>
    (m.find who).map fun _ => (m.modify who fun p => { p with stats := {} }, .done)
  | .setLoopback on => some ({ m with loopback := on }, .done)
  | .setReceiveQueueLimit n => some ({ m with rxLimit := n }, .done)
  | .setTransmitQueueLimit n => some ({ m with txLimit := n }, .done)
  | .clearArbitrationLog => some ({ m with arbitrationLog := [] }, .done)

/-- The calls as steps. -/
def step (m : VirtualMedium) (c : Call) : Option VirtualMedium := (m.call c).map Prod.fst

/-- The states of the runs of a medium. -/
def Reachable (m : VirtualMedium) : Prop :=
  ∃ timing, Lib.Reach step (fun _ _ => True) (create timing) m

end VirtualMedium

end Transport
end Canforge
