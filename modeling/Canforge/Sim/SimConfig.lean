/-
# Configurations of a simulation

`sim/include/canforge/sim/Config.hpp` and the second half of `sim/src/Config.cpp`: what a
configuration text is parsed into, and `build_source`, which makes a signal source of the
expression of a binding.  The words that are left are what the index `i` of the source stands
for.
-/

import Canforge.Sim.Ecu
import Canforge.Sim.Faults

namespace Canforge
namespace Sim

open Canforge.Core
open Scalar hiding min max

/-- `DriveEvent`; a pedal that is not touched is none. -/
structure DriveEvent (R : Type) where
  atNs : ℕ
  throttlePct : Option R := none
  brakeBar : Option R := none
  gear : Option ℤ := none

/-- `TxSpec::Binding`. -/
structure Binding where
  signal : Text
  plantField : Text := []
  expression : Text := []
  deriving DecidableEq

/-- `TxSpec`. -/
structure TxSpec where
  message : Text
  cycleNs : BitVec 64 := 100000000
  jitterNs : BitVec 64 := 0
  phaseNs : BitVec 64 := 0
  mode : TxMode := .cyclic
  counterSignal : Text := []
  checksumSignal : Text := []
  checksum : ChecksumKind := .none
  bindings : List Binding := []
  deriving DecidableEq

/-- `NodeSpec`. -/
structure NodeSpec where
  name : Text
  transmits : List TxSpec := []
  deriving DecidableEq

/-- `SimConfig`. -/
structure SimConfig (R : Type) [Scalar R] where
  bus : Text := ascii "vcan0"
  nominalBitrate : ℕ := 500000
  dataBitrate : ℕ := 2000000
  databasePath : Text := []
  hasPlant : Bool := false
  plant : VehicleParams R := {}
  drive : List (DriveEvent R) := []
  nodes : List NodeSpec := []
  faults : List (Fault R) := []

/-! ### Numbers and durations -/

/-- A character of a number. -/
def isNumeric (c : Byte) : Bool := isDigit c || c == ch '.'

variable {G R : Type} [Scalar R] [Engine G R]

/-- The scale of a unit of time. -/
def unitScale (unit : Text) : Option R :=
  if unit = ascii "ns" then some (lit 1)
  else if unit = ascii "us" then some (lit 1000)
  else if unit = ascii "ms" then some (lit 1000000)
  else if unit = ascii "s" ∨ unit = [] then some (lit 1000000000)
  else if unit = ascii "m" ∨ unit = ascii "min" then some (lit 60000000000)
  else none

/-- `duration_from`. -/
def durationFrom (R : Type) [Scalar R] (text : Text) : Option ℕ :=
  let digits := text.takeWhile isNumeric
  if digits.isEmpty then none
  else
    let value : R := strtod digits
    match unitScale (text.dropWhile isNumeric) with
    | none => none
    | some scale => if lt value (lit 0) then none else some (toNat (value * scale))

/-- `number_from`. -/
def numberFrom (text : Text) : Option R :=
  let sign := text.take (match text with
    | c :: _ => if c = ch '-' ∨ c = ch '+' then 1 else 0
    | [] => 0)
  let digits := (text.drop sign.length).takeWhile isNumeric
  if digits.isEmpty then none else some (strtod (sign ++ digits))

/-! ### Sources -/

/-- `split_words`. -/
def splitWords (text : Text) : List Text := (text.splitOnP isSpace).filter (!·.isEmpty)

/-- `take_number`: the number, if the next word is one, and the words behind it. -/
def takeNumber : List Text → Option R × List Text
  | [] => (none, [])
  | word :: rest => (numberFrom word, rest)

/-- `take_duration`. -/
def takeDuration (R : Type) [Scalar R] : List Text → Option ℕ × List Text
  | [] => (none, [])
  | word :: rest => (durationFrom R word, rest)

/-- `words[i] == word`. -/
def isNext (word : String) (words : List Text) : Bool := words.head? == some (ascii word)

/-- The loop over the `key value` pairs of a source; `set` knows the keys. -/
def options {σ : Type} (set : σ → Text → Text → Option σ) : σ → List Text → σ × List Text
  | s, key :: value :: rest =>
    match set s key value with
    | some s => options set s rest
    | none => (s, key :: value :: rest)
  | s, words => (s, words)

/-- The parameters of the four kinds of source that have pairs; a kind uses some of them. -/
structure SourceOptions (R : Type) [Scalar R] where
  amp : R := lit 1
  freq : R := lit 1
  offset : R := lit 0
  phase : R := lit 0
  low : R := lit 0
  high : R := lit 1
  period : ℕ := 1000000000
  duty : R := lit (1 / 2)
  start : R := lit 0
  step : R := lit 1
  seed : R := lit 1
  interval : ℕ := 100000000

/-- The keys of `sine`. -/
def setSine (o : SourceOptions R) (key value : Text) : Option (SourceOptions R) :=
  if key = ascii "amp" then some { o with amp := (numberFrom value).getD o.amp }
  else if key = ascii "freq" then some { o with freq := (numberFrom value).getD o.freq }
  else if key = ascii "offset" then some { o with offset := (numberFrom value).getD o.offset }
  else if key = ascii "phase" then some { o with phase := (numberFrom value).getD o.phase }
  else none

/-- The keys of `square`. -/
def setSquare (o : SourceOptions R) (key value : Text) : Option (SourceOptions R) :=
  if key = ascii "low" then some { o with low := (numberFrom value).getD o.low }
  else if key = ascii "high" then some { o with high := (numberFrom value).getD o.high }
  else if key = ascii "period" then
    some { o with period := (durationFrom R value).getD o.period }
  else if key = ascii "duty" then some { o with duty := (numberFrom value).getD o.duty }
  else none

/-- The keys of `walk`. -/
def setWalk (o : SourceOptions R) (key value : Text) : Option (SourceOptions R) :=
  if key = ascii "start" then some { o with start := (numberFrom value).getD o.start }
  else if key = ascii "step" then some { o with step := (numberFrom value).getD o.step }
  else if key = ascii "min" then some { o with low := (numberFrom value).getD o.low }
  else if key = ascii "max" then some { o with high := (numberFrom value).getD o.high }
  else if key = ascii "seed" then some { o with seed := (numberFrom value).getD o.seed }
  else if key = ascii "every" then
    some { o with interval := (durationFrom R value).getD o.interval }
  else none

/-- The loop of `keyframes`. -/
def takeKeyframes : List Text → List (Keyframe R) × List Text
  | [] => ([], [])
  | word :: rest =>
    let time := word.takeWhile (· ≠ ch '=')
    match word.drop time.length with
    | [] => ([], word :: rest)
    | _ :: number =>
      match durationFrom R time, numberFrom number with
      | some atNs, some value =>
        let (frames, words) := takeKeyframes rest
        ({ atNs, value } :: frames, words)
      | _, _ => ([], word :: rest)

/-- The rest of `ramp`, behind its start value. -/
def buildRamp (start : R) (words : List Text) : Result (SignalSource G R × List Text) :=
  match takeNumber (if isNext "to" words then words.tail else words) with
  | (none, _) => .error ⟨.parseBadNumber, "ramp needs an end value", (0, 0)⟩
  | (some stop, words) =>
    match if isNext "over" words then takeDuration R words.tail else (some 1000000000, words) with
    | (none, _) => .error ⟨.parseBadNumber, "ramp needs a duration after 'over'", (0, 0)⟩
    | (some overNs, words) =>
      if isNext "repeat" words then .ok (.makeRamp start stop overNs .repeat, words.tail)
      else if isNext "pingpong" words then
        .ok (.makeRamp start stop overNs .pingPong, words.tail)
      else .ok (.makeRamp start stop overNs .clamp, words)

/-- `build_one`: a source, and the words behind it. -/
def buildOne : List Text → Result (SignalSource G R × List Text)
  | [] => .error ⟨.parseUnexpectedEof, "empty signal source expression", (0, 0)⟩
  | kind :: words =>
    if kind = ascii "const" ∨ kind = ascii "constant" then
      match takeNumber words with
      | (some v, words) => .ok (.constant v, words)
      | (none, _) => .error ⟨.parseBadNumber, "const needs a value", (0, 0)⟩
    else if kind = ascii "ramp" then
      match takeNumber words with
      | (some start, words) => buildRamp start words
      | (none, _) => .error ⟨.parseBadNumber, "ramp needs a start value", (0, 0)⟩
    else if kind = ascii "sine" then
      let (o, words) := options setSine {} words
      .ok (.makeSine o.amp o.freq o.offset o.phase, words)
    else if kind = ascii "square" then
      let (o, words) := options setSquare {} words
      .ok (.makeSquare o.low o.high o.period o.duty, words)
    else if kind = ascii "walk" ∨ kind = ascii "random_walk" then
      let (o, words) := options setWalk { high := lit 100 } words
      .ok (.makeRandomWalk o.start o.step o.low o.high (toNat o.seed) o.interval, words)
    else if kind = ascii "keyframes" then
      let (frames, words) := takeKeyframes words
      if frames.isEmpty then
        .error ⟨.parseSemantic, "keyframes needs at least one <time>=<value> pair", (0, 0)⟩
      else .ok (.makeKeyframes frames true, words)
    else
      match numberFrom kind with
      | some literal => .ok (.constant literal, words)
      | none => .error ⟨.parseUnknownKeyword, "unknown signal source", (0, 0)⟩

/-- The loop of `build_source`; each round takes a word at least. -/
def composeSource : ℕ → SignalSource G R → List Text → Result (SignalSource G R)
  | _, result, [] => .ok result
  | 0, result, _ :: _ => .ok result
  | fuel + 1, result, word :: words =>
    if word = ascii "+" then
      match buildOne words with
      | .error e => .error e
      | .ok (next, words) => composeSource fuel (.sum [result, next]) words
    else if word = ascii "*" then
      match takeNumber words with
      | (some factor, words) => composeSource fuel (.scale result factor) words
      | (none, _) => .error ⟨.parseBadNumber, "'*' needs a number", (0, 0)⟩
    else
      match decide (word = ascii "clamp"), words with
      | true, low :: high :: words =>
        match numberFrom low, numberFrom high with
        | some low, some high => composeSource fuel (.clampTo result low high) words
        | _, _ => .error ⟨.parseBadNumber, "clamp needs a low and a high value", (0, 0)⟩
      | _, _ =>
        .error ⟨.parseUnexpectedToken, "trailing text after the signal source expression", (0, 0)⟩

/-- `build_source`. -/
def buildSource (expression : Text) : Result (SignalSource G R) :=
  let words := splitWords expression
  match buildOne words with
  | .error e => .error e
  | .ok (first, rest) => composeSource words.length first rest

end Sim
end Canforge
