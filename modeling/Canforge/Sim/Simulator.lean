/-
# The simulator

`sim/include/canforge/sim/Simulator.hpp`, `sim/src/Simulator.cpp`: the plant, the nodes and
the faults in one step function.  `step` is `none` where one of the frames cannot be built or
corrupted (`Canforge.Sim.Ecu`, `Canforge.Sim.Faults`); the program ends there.
-/

import Canforge.Lib.TimedQueue
import Canforge.Sim.SimConfig

namespace Canforge
namespace Sim

open Canforge.Core IsoTp Lib

/-- `Simulator`. -/
@[ext] structure Simulator (G R : Type) [Scalar R] where
  config : SimConfig R
  database : Database R
  vehicle : Vehicle R := {}
  nodes : List (Ecu G R) := []
  faults : FaultInjector G R
  pending : List ScheduledFrame := []
  lastStepNs : ℕ := 0
  nextDrive : ℕ := 0
  produced : ℕ := 0
  started : Bool := false

variable {G R : Type} [Scalar R] [Engine G R]

/-! ### Build -/

/-- A binding to a plant field or to a source. -/
def buildBinding (binding : Binding) : Result (SignalBinding G R) :=
  if !binding.plantField.isEmpty then
    .ok { signal := binding.signal, plantField := binding.plantField }
  else
    match buildSource binding.expression with
    | .error e => .error e
    | .ok source => .ok { signal := binding.signal, source := some source }

/-- The loop of `build` over the bindings of a message. -/
def buildBindings (message : Message R) : List Binding → Result (List (SignalBinding G R))
  | [] => .ok []
  | binding :: rest =>
    if (message.findSignal binding.signal).isNone then
      .error ⟨.parseUndefinedReference,
        "the config binds a signal the message does not have", (0, 0)⟩
    else
      match buildBinding binding with
      | .error e => .error e
      | .ok bound =>
        match buildBindings message rest with
        | .error e => .error e
        | .ok bindings => .ok (bound :: bindings)

/-- The loop body of `build` for one transmitted message. -/
def buildTx (db : Database R) (spec : TxSpec) : Result (TxMessage G R) :=
  match db.findMessageNamed spec.message with
  | none =>
    .error ⟨.parseUndefinedReference,
      "the config transmits a message the database does not define", (0, 0)⟩
  | some message =>
    if [spec.counterSignal, spec.checksumSignal].any fun named =>
        !named.isEmpty && (message.findSignal named).isNone then
      .error ⟨.parseUndefinedReference,
        "counter or checksum names a signal the message does not have", (0, 0)⟩
    else
      match buildBindings message spec.bindings with
      | .error e => .error e
      | .ok bindings =>
        .ok { message, bindings, cycleNs := spec.cycleNs, jitterNs := spec.jitterNs,
              phaseNs := spec.phaseNs, mode := spec.mode, counterSignal := spec.counterSignal,
              checksumSignal := spec.checksumSignal, checksum := spec.checksum }

/-- The messages of a node are added to it one by one. -/
def buildTransmits (db : Database R) : List TxSpec → Ecu G R → Result (Ecu G R)
  | [], ecu => .ok ecu
  | spec :: rest, ecu =>
    match buildTx db spec with
    | .error e => .error e
    | .ok tx => buildTransmits db rest (ecu.add tx)

/-- The outer loop of `build`. -/
def buildNodes (db : Database R) : List NodeSpec → Result (List (Ecu G R))
  | [] => .ok []
  | node :: rest =>
    match buildTransmits db node.transmits (Ecu.create R node.name) with
    | .error e => .error e
    | .ok ecu =>
      match buildNodes db rest with
      | .error e => .error e
      | .ok nodes => .ok (ecu :: nodes)

namespace Simulator

/-- `build`. -/
def build (config : SimConfig R) (db : Database R) : Result (Simulator G R) :=
  match buildNodes db config.nodes with
  | .error e => .error e
  | .ok nodes =>
    .ok { config := { config with drive := stableSort (·.atNs) config.drive }
          database := db
          vehicle := if config.hasPlant then Vehicle.create config.plant else {}
          nodes
          faults := config.faults.foldl FaultInjector.add (FaultInjector.create R) }

variable (sim : Simulator G R)

/-! ### Step -/

/-- One event of the driver. -/
def drive (vehicle : Vehicle R) (event : DriveEvent R) : Vehicle R :=
  let v := match event.throttlePct with
    | some percent => vehicle.setThrottle percent
    | none => vehicle
  let v := match event.brakeBar with
    | some bar => v.setBrake bar
    | none => v
  match event.gear with
  | some gear => v.setGear gear
  | none => v

/-- `apply_drive`. -/
def applyDrive (now : ℕ) : Simulator G R :=
  let due := (sim.config.drive.drop sim.nextDrive).takeWhile (·.atNs ≤ now)
  { sim with vehicle := due.foldl drive sim.vehicle, nextDrive := sim.nextDrive + due.length }

/-- The plant and the driver reach the time of the step. -/
def moveTo (now : ℕ) : Simulator G R :=
  let last := if sim.started then sim.lastStepNs else now
  let dt := if last < now then now - last else 0
  let driven := (sim.applyDrive now).vehicle
  { sim.applyDrive now with
    lastStepNs := now
    started := true
    vehicle := if sim.config.hasPlant && dt != 0 then driven.step dt else driven }

/-- The vehicle the nodes read. -/
def plant : Option (Vehicle R) := if sim.config.hasPlant then some sim.vehicle else none

/-- A frame of a node, and what the faults made of it. -/
structure Outcome where
  node : Text
  frame : Frame
  passed : Option ScheduledFrame

/-- What the nodes put out in one step. -/
structure Produced (G R : Type) where
  outcomes : List Outcome
  nodes : List (Ecu G R)
  faults : FaultInjector G R

/-- The frames that the faults let through. -/
def scheduled (outcomes : List Outcome) : List ScheduledFrame := outcomes.filterMap (·.passed)

/-- The frames of one node go through the faults. -/
def processAll (db : Database R) (node : Text) (now : ℕ) :
    List Frame → FaultInjector G R → Option (List Outcome × FaultInjector G R)
  | [], faults => some ([], faults)
  | frame :: rest, faults => do
    let (passed, faults) ← faults.process node frame now db
    let (outcomes, faults) ← processAll db node now rest faults
    return (⟨node, frame, passed⟩ :: outcomes, faults)

/-- The loop of `step` over the nodes. -/
def produce (db : Database R) (plant : Option (Vehicle R)) (now : ℕ) :
    List (Ecu G R) → FaultInjector G R → Option (Produced G R)
  | [], faults => some ⟨[], [], faults⟩
  | ecu :: rest, faults => do
    let (frames, ecu) ← ecu.step now plant
    let (outcomes, faults) ← processAll db ecu.name now frames faults
    let more ← produce db plant now rest faults
    return ⟨outcomes ++ more.outcomes, ecu :: more.nodes, more.faults⟩

/-- The nodes' part of `step`. -/
def make (now : ℕ) : Option (Produced G R) :=
  let moved := sim.moveTo now
  produce moved.database moved.plant now moved.nodes moved.faults

/-- `step`: the frames that are released and the simulator after the call. -/
def step (now : ℕ) : Option (List Frame × Simulator G R) := do
  let made ← sim.make now
  let moved := sim.moveTo now
  let (due, pending) := release ScheduledFrame.atNs now (moved.pending ++ scheduled made.outcomes)
  return (due.map fun s => s.frame.setTimestampNs now,
    { moved with pending, nodes := made.nodes, faults := made.faults,
                 produced := moved.produced + made.outcomes.length })

/-- `reset`. -/
def reset : Simulator G R :=
  { sim with
    pending := []
    nextDrive := 0
    produced := 0
    lastStepNs := 0
    started := false
    faults := sim.faults.reset
    vehicle := if sim.config.hasPlant then Vehicle.create sim.config.plant else sim.vehicle
    nodes := sim.nodes.map fun ecu => (ecu.reset 0).setRunning true }

/-! ### Runs -/

/-- What is done to a simulator between its steps; a node is named by its place. -/
inductive Control
  | setActive (fault : Text) (on : Bool)
  | toggle (fault : Text)
  | trigger (node : ℕ) (message : Text)
  | setRunning (node : ℕ) (on : Bool)

/-- The simulator after a control. -/
def control : Control → Simulator G R
  | .setActive fault on => { sim with faults := sim.faults.setActive fault on }
  | .toggle fault => { sim with faults := sim.faults.toggle fault }
  | .trigger node message => { sim with nodes := sim.nodes.modify node (·.trigger message) }
  | .setRunning node on => { sim with nodes := sim.nodes.modify node (·.setRunning on) }

/-- What happens to a simulator. -/
inductive Event
  | step (now : ℕ)
  | control (c : Control)

/-- A step of a run: the faults it found, what the nodes produced and what was released. -/
structure Record (R : Type) where
  now : ℕ
  faults : List (Fault R)
  outcomes : List Outcome
  released : List Frame

/-- A run, with a record of each of its steps. -/
def run : Simulator G R → List Event → Option (List (Record R) × Simulator G R)
  | sim, [] => some ([], sim)
  | sim, .control c :: events => run (sim.control c) events
  | sim, .step now :: events => do
    let made ← sim.make now
    let (released, next) ← sim.step now
    let (records, last) ← run next events
    return (⟨now, sim.faults.faults, made.outcomes, released⟩ :: records, last)

end Simulator

end Sim
end Canforge
