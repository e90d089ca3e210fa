/-
# The vehicle model

`sim/include/canforge/sim/Vehicle.hpp`, `sim/src/Vehicle.cpp`: the plant whose fields the
signals of a simulation may be bound to.
-/

import Canforge.Core.Scalar

namespace Canforge
namespace Sim

open Canforge.Core
open Scalar hiding min max

variable {R : Type} [Scalar R]

/-- `VehicleParams`. -/
structure VehicleParams (R : Type) [Scalar R] where
  massKg : R := lit 1500
  wheelRadiusM : R := lit (32 / 100)
  dragArea : R := lit (70 / 100)
  rollingResistance : R := lit (13 / 1000)
  gearRatios : List R := [lit (35 / 10), lit (21 / 10), lit (14 / 10), lit 1, lit (8 / 10)]
  finalDrive : R := lit (39 / 10)
  idleRpm : R := lit 800
  maxRpm : R := lit 6500
  peakTorqueNm : R := lit 250
  engineInertia : R := lit (25 / 100)
  brakeTorquePerBar : R := lit 220
  ambientTempC : R := lit 20
  coolantTimeConstantS : R := lit 90

/-- `VehicleState`. -/
structure VehicleState (R : Type) [Scalar R] where
  engineRpm : R := lit 800
  speedMps : R := lit 0
  distanceM : R := lit 0
  accelerationMps2 : R := lit 0
  engineTorqueNm : R := lit 0
  coolantTempC : R := lit 20
  fuelRateLph : R := lit 0
  gear : ℤ := 1
  throttlePct : R := lit 0
  brakeBar : R := lit 0

/-- `Vehicle`. -/
structure Vehicle (R : Type) [Scalar R] where
  params : VehicleParams R := {}
  state : VehicleState R := {}
  leftoverNs : R := lit 0

/-- `kRpmToRadPerSec`. -/
def kRpmToRadPerSec : R := lit 2 * lit (314159265358979323846 / 10 ^ 20) / lit 60

/-- `kStepNs`: one millisecond. -/
def kStepNs : R := lit 1000000

/-- `torque_shape`. -/
def torqueShape (rpm : R) (p : VehicleParams R) : R :=
  let lo := p.idleRpm * lit (6 / 10)
  let peak := p.maxRpm * lit (55 / 100)
  if le rpm lo then lit (55 / 100)
  else if le rpm peak then lit (55 / 100) + lit (45 / 100) * (rpm - lo) / (peak - lo)
  else
    let falloff := (rpm - peak) / Scalar.max (lit 1) (p.maxRpm - peak)
    Scalar.max (lit (15 / 100)) (lit 1 - lit (6 / 10) * falloff)

namespace Vehicle

/-- The constructor. -/
def create (params : VehicleParams R) : Vehicle R :=
  { params, state := { engineRpm := params.idleRpm, coolantTempC := params.ambientTempC } }

variable (v : Vehicle R)

/-- `set_throttle`. -/
def setThrottle (percent : R) : Vehicle R :=
  { v with state := { v.state with throttlePct := clamp percent (lit 0) (lit 100) } }

/-- `set_brake`. -/
def setBrake (bar : R) : Vehicle R :=
  { v with state := { v.state with brakeBar := clamp bar (lit 0) (lit 150) } }

/-- `set_gear`. -/
def setGear (gear : ℤ) : Vehicle R :=
  { v with state := { v.state with gear := max 0 (min gear v.params.gearRatios.length) } }

/-- The ratio from the engine to the wheels; `none` in neutral. -/
def ratio? : Option R :=
  if 1 ≤ v.state.gear ∧ v.state.gear ≤ v.params.gearRatios.length then
    (v.params.gearRatios[(v.state.gear - 1).toNat]?).map (· * v.params.finalDrive)
  else none

/-- The torque of the engine. -/
def engineTorque : R :=
  let p := v.params
  let s := v.state
  let demand := s.throttlePct / lit 100
  let torque := p.peakTorqueNm * demand * torqueShape s.engineRpm p
  let torque := if lt s.engineRpm p.idleRpm then
      torque + p.peakTorqueNm * lit (25 / 100) * (p.idleRpm - s.engineRpm) / p.idleRpm
    else torque
  torque - (lit 8 + lit (4 / 1000) * s.engineRpm)

/-- The force at the wheels, brakes included. -/
def netForce (torque : R) : R :=
  let p := v.params
  let s := v.state
  let drag := p.dragArea * s.speedMps * fabs s.speedMps
  let roll := p.rollingResistance * p.massKg * lit (981 / 100) *
    (if lt (lit (1 / 100)) s.speedMps then lit 1 else lit 0)
  let brakeForce := p.brakeTorquePerBar * s.brakeBar / p.wheelRadiusM
  let driveForce := match v.ratio? with
    | some ratio => torque * ratio / p.wheelRadiusM
    | none => lit 0
  let net := driveForce - drag - roll
  if lt (lit 0) s.speedMps then net - brakeForce else net

/-- The speed of the engine after a step, before it is limited. -/
def nextRpm (torque speed dtS : R) : R :=
  let p := v.params
  let s := v.state
  match v.ratio? with
  | some ratio =>
    let gearedRpm := speed / p.wheelRadiusM * ratio / kRpmToRadPerSec
    let pull := clamp (dtS / lit (15 / 100)) (lit 0) (lit 1)
    s.engineRpm + (Scalar.max gearedRpm p.idleRpm - s.engineRpm) * pull
  | none =>
    let alpha := torque / p.engineInertia
    s.engineRpm + alpha / kRpmToRadPerSec * dtS

/-- `integrate`. -/
def integrate (dtS : R) : Vehicle R :=
  let p := v.params
  let s := v.state
  let torque := v.engineTorque
  let accel := v.netForce torque / p.massKg
  let stands := le s.speedMps (lit 0) && lt accel (lit 0)
  let accel := if stands then lit 0 else accel
  let speed := Scalar.max (lit 0) ((if stands then lit 0 else s.speedMps) + accel * dtS)
  let rpm := clamp (v.nextRpm torque speed dtS) (lit 0) p.maxRpm
  let load := clamp (s.throttlePct / lit 100) (lit 0) (lit 1)
  let target := p.ambientTempC + lit 70 + lit 20 * load
  let k := dtS / Scalar.max (lit 1) p.coolantTimeConstantS
  { v with
    state := { s with
      engineTorqueNm := torque
      accelerationMps2 := accel
      speedMps := speed
      distanceM := s.distanceM + speed * dtS
      engineRpm := rpm
      coolantTempC := s.coolantTempC + (target - s.coolantTempC) * k
      fuelRateLph := lit (6 / 10) + Scalar.max (lit 0) torque * rpm * lit (26 / 1000000) / lit 60 *
        lit 60 * lit (1 / 1000) } }

/-- The loop of `step`, at most `fuel` times. -/
def catchUp : ℕ → Vehicle R → Vehicle R
  | 0, v => v
  | fuel + 1, v =>
    if le kStepNs v.leftoverNs then
      let v := v.integrate (kStepNs / lit 1000000000)
      catchUp fuel { v with leftoverNs := v.leftoverNs - kStepNs }
    else v

/-- `step`.  Less than a millisecond is left over from before, and each round of the loop takes
a millisecond away. -/
def step (dtNs : ℕ) : Vehicle R :=
  catchUp (dtNs + 1) { v with leftoverNs := v.leftoverNs + Scalar.ofNat dtNs }

/-- `read`; `none` for an unknown name. -/
def read (field : Text) : Option R :=
  let s := v.state
  if field = ascii "engine_rpm" then some s.engineRpm
  else if field = ascii "speed_mps" then some s.speedMps
  else if field = ascii "speed_kmh" then some (s.speedMps * lit (36 / 10))
  else if field = ascii "wheel_rpm" then
    some (s.speedMps / v.params.wheelRadiusM / kRpmToRadPerSec)
  else if field = ascii "gear" then some (Scalar.ofInt s.gear)
  else if field = ascii "throttle_pct" then some s.throttlePct
  else if field = ascii "brake_bar" then some s.brakeBar
  else if field = ascii "engine_torque_nm" then some s.engineTorqueNm
  else if field = ascii "coolant_temp_c" then some s.coolantTempC
  else if field = ascii "fuel_rate_lph" then some s.fuelRateLph
  else if field = ascii "distance_m" then some s.distanceM
  else if field = ascii "accel_mps2" then some s.accelerationMps2
  else none

/-- **In exact arithmetic the loop of `step` is never cut short.** -/
theorem catchUp_leftoverNs {fuel : ℕ} {v : Vehicle ℚ} (h : v.leftoverNs < (fuel + 1) * 1000000) :
    (catchUp fuel v).leftoverNs < 1000000 := by
  induction fuel generalizing v with
  | zero => simpa [catchUp] using h
  | succ fuel ih =>
    rw [catchUp]
    split_ifs with hmore
    · refine ih ?_
      have hleft : v.leftoverNs - 1000000 < (fuel + 1) * 1000000 := by
        push_cast at h
        linarith
      exact hleft
    · exact not_le.1 fun hle => hmore (decide_eq_true hle)

theorem step_leftoverNs {v : Vehicle ℚ} (h : v.leftoverNs < 1000000) (dtNs : ℕ) :
    (v.step dtNs).leftoverNs < 1000000 := by
  refine catchUp_leftoverNs ?_
  have hdt : (0 : ℚ) ≤ dtNs := Nat.cast_nonneg dtNs
  have hsum : v.leftoverNs + (dtNs : ℚ) < ((dtNs + 1 : ℕ) + 1) * 1000000 := by
    push_cast
    linarith
  exact hsum

end Vehicle

end Sim
end Canforge
