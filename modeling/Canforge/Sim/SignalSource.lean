/-
# Signal sources

`sim/include/canforge/sim/SignalSource.hpp`, `sim/src/SignalSource.cpp`: the generators of
signal values and the ways to combine them.  A source is the object with its members, and
`sample` gives the source after the call too, since a random walk advances.
-/

import Canforge.Core.Scalar
import Canforge.Lib.StableSort

namespace Canforge
namespace Sim

open Canforge.Core Lib
open Scalar hiding min max

/-- `RampMode`. -/
inductive RampMode
  | clamp
  | repeat
  | pingPong
  deriving DecidableEq, Repr

/-- `Keyframe`. -/
structure Keyframe (R : Type) where
  atNs : ℕ
  value : R

/-- `RandomWalk`. -/
structure RandomWalk (G R : Type) where
  start : R
  stride : R
  low : R
  high : R
  seed : ℕ
  interval : ℕ
  value : R
  index : ℕ
  rng : G

/-- The generators and combinators. -/
inductive SignalSource (G R : Type)
  | constant (v : R)
  | ramp (start stop : R) (overNs : ℕ) (mode : RampMode)
  | sine (amp hz offset phase : R)
  | square (low high : R) (period : ℕ) (duty : R)
  | randomWalk (walk : RandomWalk G R)
  | keyframes (frames : List (Keyframe R)) (interpolate : Bool)
  | combine (parts : List (SignalSource G R)) (multiply : Bool)
  | affine (inner : SignalSource G R) (factor offset : R)
  | clamped (inner : SignalSource G R) (low high : R)

variable {G R : Type} [Scalar R] [Engine G R]

/-- `kNs`. -/
def kNs : R := lit 1000000000

/-- `Ramp::sample`. -/
def rampAt (start stop : R) (overNs : ℕ) (mode : RampMode) (t : ℕ) : R :=
  let phase : R := Scalar.ofNat (t % overNs) / Scalar.ofNat overNs
  let along (phase : R) : R := start + (stop - start) * phase
  match mode with
  | .clamp => if overNs ≤ t then stop else along phase
  | .repeat => along phase
  | .pingPong => along (if t / overNs % 2 = 1 then lit 1 - phase else phase)

/-- `Sine::sample`. -/
def sineAt (amp hz offset phase : R) (t : ℕ) : R :=
  let seconds : R := Scalar.ofNat t / kNs
  offset + amp * sin (lit 2 * lit (314159265358979323846 / 10 ^ 20) * hz * seconds + phase)

/-- `Square::sample`. -/
def squareAt (low high : R) (period : ℕ) (duty : R) (t : ℕ) : R :=
  let phase : R := Scalar.ofNat (t % period) / Scalar.ofNat period
  if lt phase duty then high else low

/-- The last frame that is not after `t`, with the one behind it. -/
def segment : List (Keyframe R) → ℕ → Option (Keyframe R × Keyframe R)
  | a :: b :: rest, t =>
    if b.atNs ≤ t then segment (b :: rest) t else some (a, b)
  | _, _ => none

/-- `Keyframes::sample`. -/
def keyframesAt (frames : List (Keyframe R)) (interpolate : Bool) (t : ℕ) : R :=
  match frames, frames.getLast? with
  | first :: _, some last =>
    if t ≤ first.atNs then first.value
    else if last.atNs ≤ t then last.value
    else
      match segment frames t with
      | some (a, b) =>
        if !interpolate || b.atNs == a.atNs then a.value
        else
          let span : R := Scalar.ofNat (b.atNs - a.atNs)
          let into : R := Scalar.ofNat (t - a.atNs)
          a.value + (b.value - a.value) * (into / span)
      | none => first.value
  | _, _ => lit 0

namespace RandomWalk

/-- `reset`. -/
def reset (w : RandomWalk G R) : RandomWalk G R :=
  { w with value := w.start, index := 0, rng := Engine.seed R w.seed }

/-- `n` strides. -/
def advance : ℕ → RandomWalk G R → RandomWalk G R
  | 0, w => w
  | n + 1, w =>
    let (drawn, rng) := Engine.uniformReal (-w.stride) w.stride w.rng
    advance n
      { w with value := clamp (w.value + drawn) w.low w.high, index := w.index + 1, rng }

/-- `sample`. -/
def sample (w : RandomWalk G R) (t : ℕ) : R × RandomWalk G R :=
  let want := t / w.interval
  let w := if want < w.index then w.reset else w
  let w := advance (want - w.index) w
  (w.value, w)

end RandomWalk

namespace SignalSource

/-- `ramp`. -/
def makeRamp (start stop : R) (overNs : ℕ) (mode : RampMode) : SignalSource G R :=
  .ramp start stop (if overNs = 0 then 1 else overNs) mode

/-- `sine`. -/
def makeSine (amplitude hz offset phaseDegrees : R) : SignalSource G R :=
  .sine amplitude hz offset
    (phaseDegrees * lit (314159265358979323846 / 10 ^ 20) / lit 180)

/-- `square`. -/
def makeSquare (low high : R) (periodNs : ℕ) (duty : R) : SignalSource G R :=
  .square low high (if periodNs = 0 then 1 else periodNs) (clamp duty (lit 0) (lit 1))

/-- `random_walk`. -/
def makeRandomWalk (start stride low high : R) (seed intervalNs : ℕ) : SignalSource G R :=
  .randomWalk { start, stride, low, high, seed, value := start, index := 0,
                interval := if intervalNs = 0 then 1 else intervalNs, rng := Engine.seed R seed }

/-- `keyframes`. -/
def makeKeyframes (frames : List (Keyframe R)) (interpolate : Bool) : SignalSource G R :=
  .keyframes (stableSort (·.atNs) frames) interpolate

/-- `sum`. -/
def sum (parts : List (SignalSource G R)) : SignalSource G R := .combine parts false

/-- `product`. -/
def product (parts : List (SignalSource G R)) : SignalSource G R := .combine parts true

/-- `scale`. -/
def scale (inner : SignalSource G R) (factor : R) (offset : R := lit 0) : SignalSource G R :=
  .affine inner factor offset

/-- `clamp_to`. -/
def clampTo (inner : SignalSource G R) (low high : R) : SignalSource G R := .clamped inner low high

mutual

/-- `sample`. -/
def sample : SignalSource G R → ℕ → R × SignalSource G R
  | .constant v, _ => (v, .constant v)
  | .ramp start stop overNs mode, t => (rampAt start stop overNs mode t, .ramp start stop overNs mode)
  | .sine amp hz offset phase, t => (sineAt amp hz offset phase t, .sine amp hz offset phase)
  | .square low high period duty, t =>
    (squareAt low high period duty t, .square low high period duty)
  | .randomWalk walk, t =>
    let (value, walk) := walk.sample t
    (value, .randomWalk walk)
  | .keyframes frames interpolate, t =>
    (keyframesAt frames interpolate t, .keyframes frames interpolate)
  | .combine parts multiply, t =>
    let (value, parts) := sampleAll multiply (if multiply then lit 1 else lit 0) parts t
    (value, .combine parts multiply)
  | .affine inner factor offset, t =>
    let (value, inner) := sample inner t
    (value * factor + offset, .affine inner factor offset)
  | .clamped inner low high, t =>
    let (value, inner) := sample inner t
    (clamp value low high, .clamped inner low high)

/-- The loop of `Combine::sample`. -/
def sampleAll (multiply : Bool) : R → List (SignalSource G R) → ℕ → R × List (SignalSource G R)
  | acc, [], _ => (acc, [])
  | acc, part :: parts, t =>
    let (v, part) := sample part t
    let (value, parts) := sampleAll multiply (if multiply then acc * v else acc + v) parts t
    (value, part :: parts)

end

mutual

/-- `reset`. -/
def reset : SignalSource G R → SignalSource G R
  | .randomWalk walk => .randomWalk walk.reset
  | .combine parts multiply => .combine (resetAll parts) multiply
  | .affine inner factor offset => .affine (reset inner) factor offset
  | .clamped inner low high => .clamped (reset inner) low high
  | source => source

/-- The loop of `Combine::reset`. -/
def resetAll : List (SignalSource G R) → List (SignalSource G R)
  | [] => []
  | part :: parts => reset part :: resetAll parts

end

end SignalSource

end Sim
end Canforge
