/-
# Simulated nodes

`sim/include/canforge/sim/Ecu.hpp`, `sim/src/Ecu.cpp`: a node with the messages it transmits
on a schedule.  `messages_` and `runtime_` are one list of slots, a message with its runtime.
`build` and `step` have no result where the code aborts (a frame that cannot be made) or does
what C++ leaves undefined (a remainder by zero, a write outside the frame).
-/

import Canforge.Core.Message
import Canforge.IsoTp.Config
import Canforge.Sim.SignalSource
import Canforge.Sim.Vehicle

namespace Canforge
namespace Sim

open Canforge.Core IsoTp
open Scalar hiding min max

/-- `TxMode`. -/
inductive TxMode
  | cyclic
  | onChange
  | event
  deriving DecidableEq, Repr

/-- `ChecksumKind`. -/
inductive ChecksumKind
  | none
  | xor8
  | crc8Sae
  deriving DecidableEq, Repr

/-- `SignalBinding`. -/
structure SignalBinding (G R : Type) where
  signal : Text
  source : Option (SignalSource G R) := none
  plantField : Text := []

/-- `TxMessage`; the message it points to is never null. -/
structure TxMessage (G R : Type) where
  message : Message R
  cycleNs : BitVec 64 := 100000000
  jitterNs : BitVec 64 := 0
  phaseNs : BitVec 64 := 0
  mode : TxMode := .cyclic
  bindings : List (SignalBinding G R) := []
  counterSignal : Text := []
  checksumSignal : Text := []
  checksum : ChecksumKind := .none

/-- `Ecu::Runtime`. -/
structure Runtime where
  nextDueNs : ℕ := 0
  counter : BitVec 32 := 0
  last : Frame := default
  hasLast : Bool := false
  triggered : Bool := false

/-- One entry of `messages_` and `runtime_`. -/
structure Slot (G R : Type) where
  tx : TxMessage G R
  rt : Runtime := {}

/-- `Ecu`. -/
structure Ecu (G R : Type) where
  name : Text
  slots : List (Slot G R) := []
  rng : G
  running : Bool := true

/-- One bit of `crc8_sae_j1850`. -/
def crc8Bit (crc : Byte) : Byte :=
  let shifted := crc <<< 1
  if crc &&& 0x80 ≠ 0 then shifted ^^^ 0x1D else shifted

/-- `crc8_sae_j1850`. -/
def crc8SaeJ1850 (data : List Byte) : Byte :=
  data.foldl (fun crc byte => crc8Bit^[8] (crc ^^^ byte)) 0xFF ^^^ 0xFF

/-- `xor8`. -/
def xor8 (data : List Byte) (skip : ℕ) : Byte :=
  (data.eraseIdx skip).foldl (· ^^^ ·) 0

/-- `v % n` on an unsigned type of `w` bits. -/
def umod {w : ℕ} (v n : BitVec w) : Option (BitVec w) := if n = 0 then none else some (v % n)

variable {G R : Type} [Scalar R] [Engine G R]

/-- `kJitterSeed`. -/
def kJitterSeed : ℕ := 0x5147C0DE

/-- The value of a binding, `none` for a field the plant does not have. -/
def SignalBinding.sample (b : SignalBinding G R) (plant : Option (Vehicle R)) (now : ℕ) :
    Option R × SignalBinding G R :=
  match b.source, plant with
  | some source, _ =>
    let (value, source) := source.sample now
    (some value, { b with source := some source })
  | none, some vehicle =>
    (if b.plantField.isEmpty then some (lit 0) else vehicle.read b.plantField, b)
  | none, none => (some (lit 0), b)

/-- `reset` of its source. -/
def SignalBinding.reset (b : SignalBinding G R) : SignalBinding G R :=
  { b with source := b.source.map SignalSource.reset }

namespace TxMessage

/-- The loop of `build` over the bindings. -/
def encodeBindings (m : Message R) (plant : Option (Vehicle R)) (now : ℕ) :
    List (SignalBinding G R) → Frame → Option (Frame × List (SignalBinding G R))
  | [], frame => some (frame, [])
  | b :: rest, frame =>
    match m.findSignal b.signal with
    | none => do
      let (frame, rest) ← encodeBindings m plant now rest frame
      return (frame, b :: rest)
    | some signal =>
      let (value, b) := b.sample plant now
      match value with
      | none => do
        let (frame, rest) ← encodeBindings m plant now rest frame
        return (frame, b :: rest)
      | some value => do
        let (_, frame) ← signal.encode frame value
        let (frame, rest) ← encodeBindings m plant now rest frame
        return (frame, b :: rest)

variable (tx : TxMessage G R)

/-- The counter goes in raw, modulo the width of its signal. -/
def encodeCounter (counter : BitVec 32) (frame : Frame) : Option Frame :=
  match tx.message.findSignal tx.counterSignal with
  | some c =>
    if tx.counterSignal.isEmpty then some frame
    else do
      let value ← umod (counter.setWidth 64) (bitMask c.layout.bitLength + 1)
      let d ← c.layout.encodeRaw value frame.data
      return frame.setData d
  | none => some frame

/-- The checksum of a frame. -/
def checksumOf (frame : Frame) (skip : ℕ) : Byte :=
  match tx.checksum with
  | .crc8Sae => crc8SaeJ1850 frame.bytes
  | _ => xor8 frame.bytes skip

/-- The checksum covers the counter. -/
def encodeChecksum (frame : Frame) : Option Frame :=
  match tx.message.findSignal tx.checksumSignal with
  | some c =>
    if tx.checksum = .none ∨ tx.checksumSignal.isEmpty then some frame
    else do
      let sum := tx.checksumOf frame (c.layout.startBit / 8)
      let d ← c.layout.encodeRaw (sum.setWidth 64) frame.data
      return frame.setData d
  | none => some frame

end TxMessage

namespace Slot

/-- `build`: the frame and the slot after the call. -/
def build (slot : Slot G R) (plant : Option (Vehicle R)) (now : ℕ) :
    Option (Frame × Slot G R) := do
  let tx := slot.tx
  let frame ← (BasicFrame.makeEmpty 8 tx.message.id tx.message.dlc).toOption
  let (frame, bindings) ← TxMessage.encodeBindings tx.message plant now tx.bindings frame
  let frame ← tx.encodeCounter slot.rt.counter frame
  let frame ← tx.encodeChecksum frame
  return (frame.setTimestampNs now,
    { tx := { tx with bindings }, rt := { slot.rt with counter := slot.rt.counter + 1 } })

/-- Whether the slot is due; a trigger is used up. -/
def poll (slot : Slot G R) (now : ℕ) : Bool × Slot G R :=
  match slot.tx.mode with
  | .event => (slot.rt.triggered, { slot with rt := { slot.rt with triggered := false } })
  | _ => (decide (slot.rt.nextDueNs ≤ now), slot)

/-- The time of the next transmission, with the engine after its jitter was drawn. -/
def nextDue (tx : TxMessage G R) (dueNs now : ℕ) (rng : G) : ℕ × G :=
  let next := addNs dueNs tx.cycleNs.toNat
  let (next, rng) :=
    if tx.jitterNs = 0 then (next, rng)
    else
      let (delta, rng) := Engine.uniformInt R (-tx.jitterNs.toInt) tx.jitterNs.toInt rng
      (((BitVec.ofNat 64 next).toInt + delta).toNat, rng)
  -- cycles that were stepped over are not caught up with
  (if next ≤ now then addNs now tx.cycleNs.toNat else next, rng)

/-- The loop body of `step`: the frame that is sent, if any. -/
def step (slot : Slot G R) (plant : Option (Vehicle R)) (now : ℕ) (rng : G) :
    Option (Option Frame × Slot G R × G) :=
  let (due, slot) := slot.poll now
  if !due then some (none, slot, rng)
  else do
    let (frame, slot) ← slot.build plant now
    if slot.tx.mode = .onChange ∧ slot.rt.hasLast ∧ frame.Same slot.rt.last then
      let rt := { slot.rt with nextDueNs := addNs slot.rt.nextDueNs slot.tx.cycleNs.toNat }
      return (none, { slot with rt }, rng)
    else if slot.tx.mode = .event then
      return (some frame, { slot with rt := { slot.rt with last := frame, hasLast := true } }, rng)
    else
      let (next, rng) := nextDue slot.tx slot.rt.nextDueNs now rng
      let rt := { slot.rt with last := frame, hasLast := true, nextDueNs := next }
      return (some frame, { slot with rt }, rng)

/-- `reset` of one slot. -/
def reset (slot : Slot G R) (now : ℕ) : Slot G R :=
  { tx := { slot.tx with bindings := slot.tx.bindings.map (·.reset) },
    rt := { nextDueNs := addNs now slot.tx.phaseNs.toNat } }

end Slot

namespace Ecu

/-- The constructor. -/
def create (R : Type) [Engine G R] (name : Text) : Ecu G R :=
  { name, rng := Engine.seed R kJitterSeed }

variable (ecu : Ecu G R)

/-- `add`. -/
def add (tx : TxMessage G R) : Ecu G R :=
  { ecu with slots := ecu.slots ++ [{ tx, rt := { nextDueNs := tx.phaseNs.toNat } }] }

/-- `set_running`. -/
def setRunning (on : Bool) : Ecu G R := { ecu with running := on }

/-- The loop of `trigger`: the first message of the name. -/
def triggerFirst (messageName : Text) : List (Slot G R) → List (Slot G R)
  | [] => []
  | slot :: rest =>
    if slot.tx.message.name = messageName then
      { slot with rt := { slot.rt with triggered := true } } :: rest
    else slot :: triggerFirst messageName rest

/-- `trigger`. -/
def trigger (messageName : Text) : Ecu G R :=
  { ecu with slots := triggerFirst messageName ecu.slots }

/-- The loop of `step`. -/
def stepSlots (plant : Option (Vehicle R)) (now : ℕ) :
    List (Slot G R) → G → Option (List Frame × List (Slot G R) × G)
  | [], rng => some ([], [], rng)
  | slot :: rest, rng => do
    let (sent, slot, rng) ← slot.step plant now rng
    let (frames, rest, rng) ← stepSlots plant now rest rng
    return (sent.toList ++ frames, slot :: rest, rng)

/-- `step`. -/
def step (now : ℕ) (plant : Option (Vehicle R)) : Option (List Frame × Ecu G R) :=
  if !ecu.running then some ([], ecu)
  else do
    let (frames, slots, rng) ← stepSlots plant now ecu.slots ecu.rng
    return (frames, { ecu with slots, rng })

/-- `reset`. -/
def reset (now : ℕ) : Ecu G R :=
  { ecu with rng := Engine.seed R kJitterSeed, slots := ecu.slots.map (·.reset now) }

end Ecu

end Sim
end Canforge
