/-
# What the dashboard shows

`tui/include/canforge/tui/ViewModel.hpp`, `tui/src/ViewModel.cpp`: `ingest` counts a frame for the
bus, its node and its message, puts it into the trace, and keeps the values of one selected signal.
The statistics of the messages are kept as the frames come, without their history.
-/

import Canforge.Core.MessageCodec
import Canforge.IsoTp.Bounded
import Canforge.Lib.StableSort
import Canforge.Transport.Bus
import Canforge.Transport.LogFormat

namespace Canforge
namespace Tui

open Canforge.Core IsoTp Lib Transport
open Scalar (lit lt)

/-- `TraceEntry`. -/
structure TraceEntry (R : Type) where
  timestampNs : ℕ := 0
  id : CanId := default
  dlc : ℕ := 0
  data : List Byte := []
  size : ℕ := 0
  messageName : Text := []
  node : Text := []
  isError : Bool := false
  decoded : Bool := false
  signals : List (Text × R) := []
  units : List Text := []

/-- `MessageStats`. -/
structure MessageStats (R : Type) where
  id : CanId
  name : Text
  node : Text
  count : ℕ := 0
  firstNs : ℕ := 0
  lastNs : ℕ := 0
  expectedCycleMs : BitVec 32 := 0
  meanPeriodMs : R
  jitterMs : R
  minPeriodMs : R
  maxPeriodMs : R
  signals : List (Text × R) := []
  units : List Text := []

/-- `NodeStats`. -/
structure NodeStats where
  name : Text
  frames : ℕ := 0
  bytes : ℕ := 0
  wireBits : ℕ := 0
  deriving DecidableEq, Repr

/-- `SignalHistory`. -/
structure SignalHistory (R : Type) where
  samples : List R := []
  minimum : R
  maximum : R

/-- `SignalHistory::kCapacity`. -/
def kCapacity : ℕ := 512

/-- `kTraceCapacity`. -/
def kTraceCapacity : ℕ := 2000

/-- `ViewModel`. -/
structure ViewModel (R : Type) where
  database : Option (Database R) := none
  timing : BusTiming := {}
  trace : List (TraceEntry R) := []
  messages : List (MessageStats R) := []
  nodes : List NodeStats := []
  bus : BusStatistics := {}
  recentNs : List ℕ := []
  filter : Text := []
  selected : Text := []
  history : SignalHistory R
  total : ℕ := 0
  filtered : ℕ := 0
  nowNs : ℕ := 0
  paused : Bool := false

/-- `hex_id`. -/
def hexId (id : CanId) : Text := hex (if id.isExtended then 8 else 3) id.value.toNat

/-- `lowered`. -/
def lowered (s : Text) : Text := s.map fun c => if ch 'A' ≤ c ∧ c ≤ ch 'Z' then c + 32 else c

variable {R : Type} [Scalar R]

/-- `push`, with the extremes of what is left. -/
def SignalHistory.push (h : SignalHistory R) (value : R) : SignalHistory R :=
  if !Scalar.isFinite value then h
  else
    let samples := (h.samples ++ [value]).drop (h.samples.length + 1 - kCapacity)
    match samples with
    | [] => { h with samples }
    | first :: rest =>
      { samples, minimum := rest.foldl Scalar.min first
        maximum := rest.foldl (fun m x => if lt x m then m else x) first }

/-- The entry of a frame in the trace; a message of the database is decoded. -/
def traceEntry (message : Option (Message R)) (frame : FdFrame) : Option (TraceEntry R) :=
  let entry : TraceEntry R :=
    { timestampNs := frame.timestampNs, id := frame.id, dlc := frame.dlc
      data := BasicFrame.store 64 frame.bytes, size := frame.size, isError := frame.isErrorFrame }
  match message with
  | none => some entry
  | some m => do
    let decoded ← m.decode frame
    let signals := decoded.filterMap fun d => (m.signals[d.signal]?).map fun s => (s, d.value)
    return { entry with
      messageName := m.name, node := m.transmitter, decoded := true
      signals := signals.map fun s => (s.1.name, s.2), units := signals.map fun s => s.1.unit }

/-- `passes_filter`. -/
def passesFilter (filter : Text) (entry : TraceEntry R) : Bool :=
  let needle := lowered filter
  filter.isEmpty || decide (needle <:+: lowered entry.messageName) ||
    decide (needle <:+: lowered (hexId entry.id)) || decide (needle <:+: lowered entry.node) ||
    entry.signals.any fun s => decide (needle <:+: lowered s.1)

/-- The statistics of the bus after a frame. -/
def countFrame (bus : BusStatistics) (frame : FdFrame) (timing : FrameTiming) : BusStatistics :=
  { bus with
    framesReceived := bus.framesReceived + 1
    bytesReceived := bus.bytesReceived + frame.size
    wireBits := bus.wireBits + timing.totalBits
    firstTimestampNs :=
      if bus.firstTimestampNs = 0 then frame.timestampNs else bus.firstTimestampNs
    lastTimestampNs := frame.timestampNs
    errorFrames := bus.errorFrames + frame.isErrorFrame.toNat }

/-- The statistics of the nodes after a frame of one. -/
def countNode (node : Text) (frame : FdFrame) (timing : FrameTiming) :
    List NodeStats → List NodeStats
  | [] => [⟨node, 1, frame.size, timing.totalBits⟩]
  | n :: rest =>
    if n.name = node then
      ⟨n.name, n.frames + 1, n.bytes + frame.size, n.wireBits + timing.totalBits⟩ :: rest
    else n :: countNode node frame timing rest

/-- The timestamps of the last second. -/
def pushRecent (recentNs : List ℕ) (now : ℕ) : List ℕ :=
  (recentNs ++ [now]).dropWhile fun t => decide (1000000000 < sizeSub now t)

namespace MessageStats

/-- The row of a message that is seen for the first time. -/
def fresh (message : Option (Message R)) (entry : TraceEntry R) (node : Text) : MessageStats R :=
  { id := entry.id
    name := if entry.messageName.isEmpty then ascii "id " ++ hexId entry.id else entry.messageName
    node, firstNs := entry.timestampNs
    expectedCycleMs := match message.bind (·.attributes.find (ascii "GenMsgCycleTime")) with
      | none => 0
      | some declared => BitVec.ofInt 32 (Scalar.toInt declared.number)
    meanPeriodMs := lit 0, jitterMs := lit 0, minPeriodMs := lit 0, maxPeriodMs := lit 0 }

/-- The periods after one more; the minimum is unset while it is zero. -/
def measure (s : MessageStats R) (periodMs : R) : MessageStats R :=
  let n : R := Scalar.ofNat s.count
  let mean := (s.meanPeriodMs * (n - lit 1) + periodMs) / n
  let min :=
    if Scalar.eq s.minPeriodMs (lit 0) || lt periodMs s.minPeriodMs then periodMs
    else s.minPeriodMs
  let max := Scalar.max s.maxPeriodMs periodMs
  { s with
    meanPeriodMs := mean, minPeriodMs := min, maxPeriodMs := max
    jitterMs := Scalar.max (max - mean) (mean - min) }

/-- The row after a frame. -/
def observe (s : MessageStats R) (entry : TraceEntry R) : MessageStats R :=
  let s :=
    if 0 < s.count then
      s.measure (Scalar.ofNat (sizeSub entry.timestampNs s.lastNs) / lit (10 ^ 6))
    else s
  let s := { s with count := s.count + 1, lastNs := entry.timestampNs }
  if entry.decoded then { s with signals := entry.signals, units := entry.units } else s

end MessageStats

/-- A change of the first row of an identifier. -/
def updateFirst (id : CanId) (change : MessageStats R → MessageStats R) :
    List (MessageStats R) → List (MessageStats R)
  | [] => []
  | s :: rest => if s.id = id then change s :: rest else s :: updateFirst id change rest

/-- The rows with one for an identifier, by number; two formats of one number come in any order. -/
def withRow (fresh : MessageStats R) (messages : List (MessageStats R)) : List (MessageStats R) :=
  if messages.any fun s => decide (s.id = fresh.id) then messages
  else stableSort (·.id.value.toNat) (messages ++ [fresh])

/-- The history of the selected signal after a frame. -/
def plot (selected : Text) (entry : TraceEntry R) (history : SignalHistory R) : SignalHistory R :=
  if selected.isEmpty || !entry.decoded then history
  else
    match entry.signals.find? fun s => decide (entry.messageName ++ ch '.' :: s.1 = selected) with
    | none => history
    | some s => history.push s.2

namespace ViewModel

/-- The constructor. -/
def create (database : Option (Database R)) (timing : BusTiming) : ViewModel R :=
  { database, timing, history := { minimum := lit 0, maximum := lit 0 } }

variable (vm : ViewModel R)

/-- The trace after a frame; a pause stops it and nothing else. -/
def record (entry : TraceEntry R) : ViewModel R :=
  if vm.paused then vm
  else if !passesFilter vm.filter entry then { vm with filtered := vm.filtered + 1 }
  else { vm with trace := (vm.trace ++ [entry]).drop (vm.trace.length + 1 - kTraceCapacity) }

/-- `ingest`. -/
def ingest (frame : FdFrame) : Option (ViewModel R) := do
  let message := vm.database.bind (·.findMessage frame.id)
  let entry ← traceEntry message frame
  let timing := frameTiming frame vm.timing
  let node := if entry.node.isEmpty then ascii "<unknown>" else entry.node
  let fresh := MessageStats.fresh message entry node
  let counted : ViewModel R :=
    { vm with
      total := vm.total + 1
      nowNs := frame.timestampNs
      bus := countFrame vm.bus frame timing
      nodes := countNode node frame timing vm.nodes
      recentNs := pushRecent vm.recentNs frame.timestampNs
      messages := updateFirst frame.id (·.observe entry) (withRow fresh vm.messages)
      history := plot vm.selected entry vm.history }
  return counted.record entry

/-- `frames_per_second` of a snapshot. -/
def framesPerSecond : R := Scalar.ofNat vm.recentNs.length

/-- Some frames one after the other. -/
def ingestAll (vm : ViewModel R) : List FdFrame → Option (ViewModel R)
  | [] => some vm
  | frame :: rest => do ingestAll (← vm.ingest frame) rest

end ViewModel

end Tui
end Canforge
