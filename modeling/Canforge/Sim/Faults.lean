/-
# Fault injection

`sim/include/canforge/sim/Faults.hpp`, `sim/src/Faults.cpp`: the faults a frame of a node
passes on its way to the bus.  `process` returns the frame with the time it is due, or nothing
when a fault dropped it, and the injector after the call.
-/

import Canforge.Core.Message
import Canforge.IsoTp.Config

namespace Canforge
namespace Sim

open Canforge.Core IsoTp
open Scalar hiding min max

/-- `FaultKind`. -/
inductive FaultKind
  | dropFrames
  | delayMessage
  | freezeSignal
  | outOfRange
  | stopNode
  | bitFlip
  deriving DecidableEq, Repr

/-- `Fault`. -/
structure Fault (R : Type) where
  kind : FaultKind := .dropFrames
  name : Text
  node : Text := []
  id : CanId := default
  hasId : Bool := false
  signal : Text := []
  value : R
  probability : R
  delayNs : ℕ := 0
  active : Bool := false

/-- `ScheduledFrame`. -/
structure ScheduledFrame where
  atNs : ℕ
  frame : Frame
  deriving DecidableEq

/-- `FaultInjector::FrozenValue`; a value that was not captured is none. -/
structure FrozenValue (R : Type) where
  id : BitVec 32
  signal : Text
  value : Option R := none

/-- `FaultInjector`. -/
structure FaultInjector (G R : Type) where
  faults : List (Fault R) := []
  frozen : List (FrozenValue R) := []
  rng : G
  seed : ℕ
  dropped : ℕ := 0
  delayed : ℕ := 0
  corrupted : ℕ := 0

variable {G R : Type} [Scalar R] [Engine G R]

/-- `active`, and not for another node or another message. -/
def Fault.applies (f : Fault R) (node : Text) (id : CanId) : Bool :=
  f.active && (f.node.isEmpty || f.node == node) && !(f.hasId && decide (f.id ≠ id))

/-- The loop of `set_active` and `toggle`: the first fault of the name. -/
def switchFirst (name : Text) (switch : Bool → Bool) : List (Fault R) → List (Fault R)
  | [] => []
  | f :: rest =>
    if f.name = name then { f with active := switch f.active } :: rest
    else f :: switchFirst name switch rest

/-- A frame on its way through the faults. -/
structure Passage (G R : Type) where
  working : Frame
  whenNs : ℕ
  injector : FaultInjector G R

namespace FaultInjector

/-- `kSeed` of the constructor. -/
def kDefaultSeed : ℕ := 0xFA0117

/-- The constructor. -/
def create (R : Type) [Engine G R] : FaultInjector G R :=
  { rng := Engine.seed R kDefaultSeed, seed := kDefaultSeed }

variable (inj : FaultInjector G R)

/-- `add`. -/
def add (fault : Fault R) : FaultInjector G R := { inj with faults := inj.faults ++ [fault] }

/-- `set_active`. -/
def setActive (name : Text) (on : Bool) : FaultInjector G R :=
  { inj with faults := switchFirst name (fun _ => on) inj.faults }

/-- `toggle`. -/
def toggle (name : Text) : FaultInjector G R :=
  { inj with faults := switchFirst name (!·) inj.faults }

/-- `reset`. -/
def reset : FaultInjector G R := { inj with rng := Engine.seed R inj.seed, frozen := [] }

/-- `node_stopped`. -/
def nodeStopped (node : Text) : Bool :=
  inj.faults.any fun f =>
    f.active && decide (f.kind = .stopNode) && (f.node.isEmpty || f.node == node)

/-- The value of a slot of `frozen_slot`, if it was captured. -/
def frozenValue (id : BitVec 32) (signal : Text) : Option R :=
  (inj.frozen.find? fun v => decide (v.id = id) && v.signal == signal).bind (·.value)

/-- A captured slot. -/
def capture (id : BitVec 32) (signal : Text) (value : R) :
    List (FrozenValue R) → List (FrozenValue R)
  | [] => [{ id, signal, value := some value }]
  | v :: rest =>
    if v.id = id ∧ v.signal = signal then { v with value := some value } :: rest
    else v :: capture id signal value rest

/-- `FreezeSignal`. -/
def freeze (f : Fault R) (message : Option (Message R)) (id : CanId) (p : Passage G R) :
    Option (Passage G R) :=
  match message.bind (·.findSignal f.signal) with
  | none => some p
  | some s =>
    if s.layout.fits p.working.size then do
      match p.injector.frozenValue id.value f.signal with
      | some value => do
        let (_, working) ← s.encode p.working value
        return { p with working }
      | none => do
        let value ← s.decode p.working
        let frozen := capture id.value f.signal value p.injector.frozen
        let (_, working) ← s.encode p.working value
        return { p with working, injector := { p.injector with frozen } }
    else some p

/-- `OutOfRange`: the value goes in past the declared range. -/
def forceOutOfRange (f : Fault R) (message : Option (Message R)) (p : Passage G R) :
    Option (Passage G R) :=
  match message.bind (·.findSignal f.signal) with
  | none => some p
  | some s =>
    if s.layout.fits p.working.size then do
      let raw := { s.layout with minimum := lit 0, maximum := lit 0 }
      match ← raw.encode f.value p.working.data with
      | .ok d => return { p with working := p.working.setData d }
      | .error _ => return p
    else some p

/-- The flip of one bit. -/
def flipBit (data : List Byte) (bit : ℕ) : Option (List Byte) := do
  let byte ← readByte data (bit / 8)
  writeByte data (bit / 8) (byte ^^^ 1#8 <<< (bit % 8))

/-- `BitFlip`. -/
def bitFlip (f : Fault R) (p : Passage G R) : Option (Passage G R) :=
  let (drawn, rng) := Engine.uniformReal (lit 0 : R) (lit 1) p.injector.rng
  if lt drawn f.probability && decide (0 < p.working.size) then do
    let (which, rng) := Engine.uniformInt R 0 (p.working.size * 8 - 1) rng
    let d ← flipBit p.working.data which.toNat
    return { p with
      working := p.working.setData d
      injector := { p.injector with rng, corrupted := p.injector.corrupted + 1 } }
  else some { p with injector := { p.injector with rng } }

/-- One fault of the loop of `process`; a frame that is dropped leaves only the injector. -/
def pass (f : Fault R) (message : Option (Message R)) (id : CanId) (p : Passage G R) :
    Option (Passage G R ⊕ FaultInjector G R) :=
  match f.kind with
  | .stopNode => some (.inl p)
  | .dropFrames =>
    let (drawn, rng) := Engine.uniformReal (lit 0 : R) (lit 1) p.injector.rng
    if lt drawn f.probability then
      some (.inr { p.injector with rng, dropped := p.injector.dropped + 1 })
    else some (.inl { p with injector := { p.injector with rng } })
  | .delayMessage =>
    some (.inl { p with
      whenNs := addNs p.whenNs f.delayNs
      injector := { p.injector with delayed := p.injector.delayed + 1 } })
  | .freezeSignal => (freeze f message id p).map .inl
  | .outOfRange => (forceOutOfRange f message p).map .inl
  | .bitFlip => (bitFlip f p).map .inl

/-- The loop of `process`. -/
def passAll (node : Text) (message : Option (Message R)) (id : CanId) :
    List (Fault R) → Passage G R → Option (Option ScheduledFrame × FaultInjector G R)
  | [], p => some (some ⟨p.whenNs, p.working⟩, p.injector)
  | f :: rest, p =>
    if f.applies node id then do
      match ← pass f message id p with
      | .inl p => passAll node message id rest p
      | .inr inj => return (none, inj)
    else passAll node message id rest p

/-- `process`. -/
def process (node : Text) (frame : Frame) (now : ℕ) (db : Database R) :
    Option (Option ScheduledFrame × FaultInjector G R) :=
  if inj.nodeStopped node then
    some (none, { inj with dropped := inj.dropped + 1 })
  else
    passAll node (db.findMessage frame.id) frame.id inj.faults ⟨frame, now, inj⟩

end FaultInjector

end Sim
end Canforge
