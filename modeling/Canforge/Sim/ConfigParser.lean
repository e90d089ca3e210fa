/-
# The parser of simulator configurations

`ConfigParser` and `parse_config_string` of `sim/src/Config.cpp`.  A production is code on the
parser's state (`Lib.Reporting`) whose reports are the diagnostics; a `bool` that says whether an
out parameter was set is an `Option`.  The tokens of the state are those from `pos_` on; the last
one, the end, is never consumed.

A loop stops with `ConfigStop.outOfFuel` when it has had more rounds than there were tokens, and a
`static_cast` of a number outside of the type stops with `ConfigStop.undefinedCast`.
-/

import Canforge.Lib.Reporting
import Canforge.Sim.SimConfig
import Canforge.Text.Lexer

namespace Canforge
namespace Sim

open Canforge.Core Text Lib

/-- Where a run has no result. -/
inductive ConfigStop
  | outOfFuel
  | undefinedCast
  deriving DecidableEq, Repr

/-- `ConfigParser`. -/
structure ConfigParser (R : Type) [Scalar R] where
  source : Source
  tokens : List (Token R)
  config : SimConfig R := {}

/-- A production. -/
abbrev ConfigM (R : Type) [Scalar R] (α : Type) := Reporting (ConfigParser R) Diagnostic ConfigStop α

variable {R : Type} [Scalar R]

/-- A number that is cast to an unsigned type of `w` bits; outside of the type that is undefined. -/
def toUnsigned (w : ℕ) (v : R) : Option ℕ :=
  if Scalar.lt (Scalar.lit (-1)) v && Scalar.lt v (Scalar.lit (2 ^ w)) then some (Scalar.toNat v)
  else none

/-- `static_cast<int>`; outside of the type it is undefined. -/
def toInt32 (v : R) : Option ℤ :=
  if Scalar.lt (Scalar.lit (-2 ^ 31 - 1)) v && Scalar.lt v (Scalar.lit (2 ^ 31)) then
    some (Scalar.toInt v)
  else none

/-- A text without the characters of `set` at its ends. -/
def trim (set : Text) (text : Text) : Text :=
  ((text.dropWhile set.contains).reverse.dropWhile set.contains).reverse

/-- The expression behind the name of a signal: the `=` is skipped. -/
def skipEquals (text : Text) : Text :=
  match text with
  | [] => []
  | c :: rest => if c = ch '=' then rest.dropWhile (ascii " \t").contains else c :: rest

/-- What a signal is bound to. -/
def bindingOf (signal trimmed : Text) : Binding :=
  if trimmed.take 6 = ascii "plant." then { signal, plantField := trimmed.drop 6 }
  else { signal, expression := trimmed }

/-- The parameter of the plant that a key of `parse_plant` sets. -/
def plantKey (key : Text) : Option (VehicleParams R → R → VehicleParams R) :=
  if key = ascii "mass" then some fun p v => { p with massKg := v }
  else if key = ascii "wheel_radius" then some fun p v => { p with wheelRadiusM := v }
  else if key = ascii "drag_area" then some fun p v => { p with dragArea := v }
  else if key = ascii "rolling_resistance" then some fun p v => { p with rollingResistance := v }
  else if key = ascii "final_drive" then some fun p v => { p with finalDrive := v }
  else if key = ascii "idle_rpm" then some fun p v => { p with idleRpm := v }
  else if key = ascii "max_rpm" then some fun p v => { p with maxRpm := v }
  else if key = ascii "peak_torque" then some fun p v => { p with peakTorqueNm := v }
  else if key = ascii "ambient_temp" then some fun p v => { p with ambientTempC := v }
  else none

namespace ConfigParser

/-- The token behind the last one, which is never asked for. -/
def noToken : Token R := { location := {}, real := Scalar.lit 0 }

/-- The token at the parser. -/
def head (s : ConfigParser R) : Token R := s.tokens.head?.getD noToken

/-- `current`. -/
def current : ConfigM R (Token R) := do
  let s ← Reporting.get
  return s.head

/-- The parser behind its token. -/
def behind (s : ConfigParser R) : ConfigParser R :=
  if 1 < s.tokens.length then { s with tokens := s.tokens.tail } else s

/-- `advance`. -/
def advance : ConfigM R (Token R) := do
  let s ← Reporting.get
  Reporting.modify behind
  return s.head

/-- `config_` after a change. -/
def modifyConfig (f : SimConfig R → SimConfig R) : ConfigM R Unit :=
  Reporting.modify fun s => { s with config := f s.config }

/-- A loop of a production. -/
def while_ {β : Type} (round : β → ConfigM R (β × Bool)) (b : β) : ConfigM R β := do
  let s ← Reporting.get
  Reporting.loop .outOfFuel round (s.tokens.length + 1) b

/-- `match_word`. -/
def matchWord (w : String) : ConfigM R Bool := do
  let t ← current
  if t.isWord (ascii w) then
    let _ ← advance
    return true
  else return false

/-- `report`. -/
def report (severity : Severity) (message note : Text) : ConfigM R Unit := do
  let s ← Reporting.get
  let t ← current
  Reporting.report
    { severity, code := .parseSemantic, location := t.location, message,
      token := if t.kind = .end then ascii "<end of file>" else t.text,
      sourceLine := s.source.line t.location.line, note }

/-- `error`. -/
def error (message : Text) (note : Text := []) : ConfigM R Unit := report .error message note

/-- `warn`. -/
def warn (message : Text) (note : Text := []) : ConfigM R Unit := report .warning message note

/-- A round of the loop over the tokens of a line. -/
def lineRound (line : BitVec 32) (_ : Unit) : ConfigM R (Unit × Bool) := do
  let t ← current
  if t.kind ≠ .end ∧ t.location.line = line then
    let _ ← advance
    return ((), true)
  else return ((), false)

/-- `skip_line`. -/
def skipLine : ConfigM R Unit := do
  let t ← current
  while_ (lineRound t.location.line) ()

/-- `name`. -/
def name : ConfigM R (Option Text) := do
  let t ← current
  if t.kind ≠ .identifier ∧ t.kind ≠ .string then
    error (ascii "expected a name")
    return none
  else
    let t ← advance
    return some (if t.kind = .string then t.value else t.text)

/-- The sign of `number`. -/
def numberSign : ConfigM R R := do
  let t ← current
  if t.kind = .minus then
    let _ ← advance
    return Scalar.lit (-1)
  else if t.kind = .plus then
    let _ ← advance
    return Scalar.lit 1
  else return Scalar.lit 1

/-- `number`. -/
def number : ConfigM R (Option R) := do
  let sign ← numberSign
  let t ← current
  if t.kind = .integer ∨ t.kind = .real then
    let token ← advance
    return some (sign * token.real)
  else
    match if t.kind = .identifier then numberFrom t.text else none with
    | some out =>
      let _ ← advance
      return some (out * sign)
    | none =>
      error (ascii "expected a number")
      return none

/-- The duration `duration_from` reads off a name, if it does. -/
def durationIn (t : Token R) : Option ℕ :=
  if t.kind = .identifier then durationFrom R t.text else none

/-- A duration as a `std::uint64_t`. -/
def asUint64 (ns : ℕ) : ConfigM R ℕ :=
  Reporting.orStop .undefinedCast (if ns < 2 ^ 64 then some ns else none)

/-- The unit behind the number of `duration`. -/
def durationUnit : ConfigM R ℕ := do
  let t ← current
  match if t.kind = .identifier then durationFrom R (ch '1' :: t.text) else none with
  | some probe =>
    let _ ← advance
    asUint64 probe
  | none => return 1000000000

/-- `duration`. -/
def duration : ConfigM R (Option ℕ) := do
  let t ← current
  match durationIn t with
  | some ns =>
    let _ ← advance
    let ns ← asUint64 ns
    return some ns
  | none =>
    if t.kind = .integer ∨ t.kind = .real then
      let token ← advance
      let scaleNs ← durationUnit
      let ns ← Reporting.orStop .undefinedCast (toUnsigned 64 (token.real * Scalar.ofNat scaleNs))
      return some ns
    else
      error (ascii "expected a duration such as 10ms, 250us or 1.5s")
      return none

/-- `rest_of_line`. -/
def restOfLine : ConfigM R Text := do
  let s ← Reporting.get
  let t ← current
  let text := s.source.line t.location.line
  let column := t.location.column.toNat
  let out := if 1 ≤ column ∧ column ≤ text.length then text.drop (column - 1) else []
  while_ (lineRound t.location.line) ()
  return trim (ascii " \t\r") out

/-! ### The sections -/

/-- The first bit rate of `parse_bus`. -/
def parseNominal : ConfigM R Unit := do
  let t ← current
  let u ← current
  if t.kind ≠ .end ∧ t.location.line = u.location.line ∧
      (t.kind = .integer ∨ t.kind = .real ∨ t.kind = .identifier) then
    match ← number with
    | some v =>
      let nominalBitrate ← Reporting.orStop .undefinedCast (toUnsigned 32 v)
      modifyConfig ({ · with nominalBitrate })
    | none => pure ()
  else pure ()

/-- The second bit rate of `parse_bus`. -/
def parseDataRate : ConfigM R Unit := do
  let t ← current
  if t.kind = .integer ∨ t.kind = .real then
    match ← number with
    | some v =>
      let dataBitrate ← Reporting.orStop .undefinedCast (toUnsigned 32 v)
      modifyConfig ({ · with dataBitrate })
    | none => pure ()
  else pure ()

/-- `parse_bus`. -/
def parseBus : ConfigM R Unit := do
  let _ ← advance
  let some bus ← name | skipLine
  modifyConfig ({ · with bus })
  parseNominal
  parseDataRate

/-- `parse_database`. -/
def parseDatabase : ConfigM R Unit := do
  let _ ← advance
  let t ← current
  if t.kind = .string then
    let token ← advance
    modifyConfig ({ · with databasePath := token.value })
  else
    let databasePath ← restOfLine
    modifyConfig ({ · with databasePath })
    if databasePath.isEmpty then error (ascii "database needs a file path") else pure ()

/-- A duration among the options of a message. -/
def setDuration (set : BitVec 64 → TxSpec) (tx : TxSpec) : ConfigM R (TxSpec × Bool) := do
  match ← duration with
  | some ns => return (set (BitVec.ofNat 64 ns), true)
  | none => return (tx, false)

/-- A round of the loop over the options of a message. -/
def txOptionRound (tx : TxSpec) : ConfigM R (TxSpec × Bool) := do
  let t ← current
  if t.kind = .identifier ∧ t.firstOnLine = false then
    if ← matchWord "cycle" then setDuration (fun cycleNs => { tx with cycleNs }) tx
    else if ← matchWord "jitter" then setDuration (fun jitterNs => { tx with jitterNs }) tx
    else if ← matchWord "phase" then setDuration (fun phaseNs => { tx with phaseNs }) tx
    else if ← matchWord "onchange" then return ({ tx with mode := .onChange }, true)
    else if ← matchWord "event" then return ({ tx with mode := .event }, true)
    else
      error (ascii "unknown tx option")
        (ascii "expected one of: cycle, jitter, phase, onchange, event")
      skipLine
      return (tx, false)
  else return (tx, false)

/-- A `signal` line. -/
def parseBinding (tx : TxSpec) : ConfigM R TxSpec := do
  let _ ← advance
  let some signal ← name | do
    skipLine
    return tx
  let expression ← restOfLine
  return { tx with bindings := tx.bindings ++ [bindingOf signal (skipEquals expression)] }

/-- A `counter` line. -/
def parseCounter (tx : TxSpec) : ConfigM R TxSpec := do
  let _ ← advance
  match ← name with
  | some counterSignal => return { tx with counterSignal }
  | none =>
    skipLine
    return tx

/-- The kind of a checksum, if one is named. -/
def checksumKind : ConfigM R ChecksumKind := do
  let t ← current
  if t.kind = .identifier ∧ t.firstOnLine = false then
    let token ← advance
    if token.text = ascii "crc8" ∨ token.text = ascii "crc8sae" then return .crc8Sae
    else if token.text = ascii "xor" ∨ token.text = ascii "xor8" then return .xor8
    else
      warn (ascii "unknown checksum kind '" ++ token.text ++ ascii "'; using crc8")
      return .crc8Sae
  else return .crc8Sae

/-- A `checksum` line. -/
def parseChecksum (tx : TxSpec) : ConfigM R TxSpec := do
  let _ ← advance
  let some checksumSignal ← name | do
    skipLine
    return tx
  let checksum ← checksumKind
  return { tx with checksumSignal, checksum }

/-- A round of the loop over the body of a message. -/
def txBodyRound (tx : TxSpec) : ConfigM R (TxSpec × Bool) := do
  let t ← current
  if t.isWord (ascii "signal") then return (← parseBinding tx, true)
  else if t.isWord (ascii "counter") then return (← parseCounter tx, true)
  else if t.isWord (ascii "checksum") then return (← parseChecksum tx, true)
  else return (tx, false)

/-- `parse_tx`. -/
def parseTx (node : NodeSpec) : ConfigM R NodeSpec := do
  let _ ← advance
  let some message ← name | do
    skipLine
    return node
  let tx ← while_ txOptionRound { message }
  let tx ← while_ txBodyRound tx
  return { node with transmits := node.transmits ++ [tx] }

/-- A round of the loop over the messages of a node. -/
def txRound (node : NodeSpec) : ConfigM R (NodeSpec × Bool) := do
  let t ← current
  if t.isWord (ascii "tx") then return (← parseTx node, true) else return (node, false)

/-- `parse_node`. -/
def parseNode : ConfigM R Unit := do
  let _ ← advance
  let some nodeName ← name | skipLine
  let node ← while_ txRound { name := nodeName }
  modifyConfig fun c => { c with nodes := c.nodes ++ [node] }

/-- A round of the loop over `gear_ratios`. -/
def ratioRound (ratios : List R) : ConfigM R (List R × Bool) := do
  let t ← current
  if (t.kind = .integer ∨ t.kind = .real) ∧ t.firstOnLine = false then
    let token ← advance
    return (ratios ++ [token.real], true)
  else return (ratios, false)

/-- The `gear_ratios` of a plant. -/
def parseRatios : ConfigM R Unit := do
  let _ ← advance
  let ratios ← while_ ratioRound []
  if ratios.isEmpty then error (ascii "gear_ratios needs at least one ratio")
  else modifyConfig fun c => { c with plant := { c.plant with gearRatios := ratios } }

/-- A round of the loop over the keys of a plant. -/
def plantRound (_ : Unit) : ConfigM R (Unit × Bool) := do
  let t ← current
  if t.kind ≠ .identifier then return ((), false)
  else
    match plantKey t.text with
    | some set =>
      let _ ← advance
      match ← number with
      | some v => modifyConfig fun c => { c with plant := set c.plant v }
      | none => pure ()
      return ((), true)
    | none =>
      if t.text = ascii "gear_ratios" then
        parseRatios
        return ((), true)
      else return ((), false)

/-- `parse_plant`. -/
def parsePlant : ConfigM R Unit := do
  let _ ← advance
  modifyConfig ({ · with hasPlant := true })
  let t ← current
  if t.kind = .identifier ∧ t.firstOnLine = false then
    let _ ← advance
  else pure ()
  while_ plantRound ()

/-- A round of the loop over the inputs of an event. -/
def inputRound (event : DriveEvent R) : ConfigM R (DriveEvent R × Bool) := do
  let t ← current
  if t.kind = .identifier ∧ t.firstOnLine = false then
    if ← matchWord "throttle" then
      match ← number with
      | some v => return ({ event with throttlePct := some v }, true)
      | none => return (event, true)
    else if ← matchWord "brake" then
      match ← number with
      | some v => return ({ event with brakeBar := some v }, true)
      | none => return (event, true)
    else if ← matchWord "gear" then
      match ← number with
      | some v =>
        let gear ← Reporting.orStop .undefinedCast (toInt32 v)
        return ({ event with gear := some gear }, true)
      | none => return (event, true)
    else
      error (ascii "unknown drive input") (ascii "expected one of: throttle, brake, gear")
      skipLine
      return (event, false)
  else return (event, false)

/-- A round of the loop over the events of a drive. -/
def driveRound (_ : Unit) : ConfigM R (Unit × Bool) := do
  if ← matchWord "at" then
    match ← duration with
    | none => skipLine
    | some atNs =>
      let event ← while_ inputRound { atNs }
      modifyConfig fun c => { c with drive := c.drive ++ [event] }
    return ((), true)
  else return ((), false)

/-- `parse_drive`. -/
def parseDrive : ConfigM R Unit := do
  let _ ← advance
  while_ driveRound ()

/-- The kind of a fault and what belongs to it; `none` where the line is skipped. -/
def parseFaultKind (kind : Text) (fault : Fault R) : ConfigM R (Option (Fault R)) := do
  if kind = ascii "drop" then
    let v ← number
    return some { fault with kind := .dropFrames, probability := v.getD fault.probability }
  else if kind = ascii "bitflip" then
    let v ← number
    return some { fault with kind := .bitFlip, probability := v.getD fault.probability }
  else if kind = ascii "delay" then
    match ← duration with
    | some delayNs => return some { fault with kind := .delayMessage, delayNs }
    | none => return none
  else if kind = ascii "freeze" then
    match ← name with
    | some signal => return some { fault with kind := .freezeSignal, signal }
    | none => return none
  else if kind = ascii "range" ∨ kind = ascii "out_of_range" then
    match ← name with
    | some signal =>
      let v ← number
      return some { fault with kind := .outOfRange, signal, value := v.getD fault.value }
    | none => return none
  else if kind = ascii "stop" then return some { fault with kind := .stopNode }
  else
    error (ascii "unknown fault kind '" ++ kind ++ ascii "'")
      (ascii "expected one of: drop, bitflip, delay, freeze, range, stop")
    return none

/-- The message a fault is for. -/
def parseFaultId (fault : Fault R) : ConfigM R (Fault R × Bool) := do
  match ← number with
  | none => return (fault, false)
  | some raw =>
    let packed ← Reporting.orStop .undefinedCast (toUnsigned 32 raw)
    let packed := BitVec.ofNat 32 packed
    match if kStandardIdMax < packed then CanId.extended packed else CanId.standard packed with
    | .ok id => return ({ fault with id, hasId := true }, true)
    | .error _ =>
      error (ascii "message identifier is out of range")
      return (fault, false)

/-- A round of the loop over the options of a fault. -/
def faultOptionRound (fault : Fault R) : ConfigM R (Fault R × Bool) := do
  let t ← current
  if t.kind = .identifier ∧ t.firstOnLine = false then
    if ← matchWord "node" then
      match ← name with
      | some node => return ({ fault with node }, true)
      | none => return (fault, false)
    else if ← matchWord "message" then parseFaultId fault
    else if ← matchWord "id" then parseFaultId fault
    else if ← matchWord "active" then return ({ fault with active := true }, true)
    else
      error (ascii "unknown fault option") (ascii "expected one of: node, message, active")
      skipLine
      return (fault, false)
  else return (fault, false)

/-- `parse_fault`. -/
def parseFault : ConfigM R Unit := do
  let _ ← advance
  let some faultName ← name | skipLine
  let t ← current
  if t.kind ≠ .identifier then
    error (ascii "expected a fault kind")
    skipLine
  else
    let kind ← advance
    match ← parseFaultKind kind.text
      { name := faultName, value := Scalar.lit 0, probability := Scalar.lit 0 } with
    | none => skipLine
    | some fault =>
      let fault ← while_ faultOptionRound fault
      modifyConfig fun c => { c with faults := c.faults ++ [fault] }

/-- The section of a word. -/
def parseSection (word : Text) : ConfigM R Unit :=
  if word = ascii "bus" then parseBus
  else if word = ascii "database" then parseDatabase
  else if word = ascii "node" then parseNode
  else if word = ascii "plant" then parsePlant
  else if word = ascii "drive" then parseDrive
  else if word = ascii "fault" then parseFault
  else do
    error (ascii "unknown section '" ++ word ++ ascii "'")
      (ascii "expected one of: bus, database, node, plant, drive, fault")
    skipLine

/-- A round of `run`. -/
def runRound (_ : Unit) : ConfigM R (Unit × Bool) := do
  let t ← current
  if t.kind = .end then return ((), false)
  else if t.kind ≠ .identifier then
    error (ascii "expected a section keyword")
    skipLine
    return ((), true)
  else
    parseSection t.text
    return ((), true)

/-- `run`. -/
def run : ConfigM R Unit := while_ runRound ()

end ConfigParser

/-! ### Configuration texts -/

variable {G : Type} [Engine G R]

/-- `Vehicle::field_names`. -/
def Vehicle.fieldNames : List Text :=
  ["engine_rpm", "speed_mps", "speed_kmh", "wheel_rpm", "gear", "throttle_pct", "brake_bar",
    "engine_torque_nm", "coolant_temp_c", "fuel_rate_lph", "distance_m", "accel_mps2"].map ascii

/-- What `parse_config_string` reports of a binding. -/
def checkBinding (G R : Type) [Scalar R] [Engine G R] (b : Binding) : List Diagnostic :=
  if !b.plantField.isEmpty then
    match ({} : Vehicle R).read b.plantField with
    | some _ => []
    | none =>
      [{ severity := .error, code := .parseUndefinedReference, location := {},
         message := ascii "unknown plant field 'plant." ++ b.plantField ++ ascii "'",
         note := ascii "valid fields: " ++ Vehicle.fieldNames.flatMap fun f => f ++ ascii " " }]
  else
    match (buildSource b.expression : Result (SignalSource G R)) with
    | .ok _ => []
    | .error e =>
      [{ severity := .error, code := e.code, location := {},
         message := ascii "signal '" ++ b.signal ++ ascii "': " ++ ascii e.message,
         token := b.expression }]

/-- The bindings of a configuration. -/
def SimConfig.bindings (config : SimConfig R) : List Binding :=
  config.nodes.flatMap fun node => node.transmits.flatMap fun tx => tx.bindings

/-- The check of every binding in `parse_config_string`. -/
def checkBindings (G : Type) {R : Type} [Scalar R] [Engine G R] (config : SimConfig R) :
    List Diagnostic :=
  config.bindings.flatMap (checkBinding G R)

/-- `ConfigParseResult`; the diagnostics are those of the sink, in their order. -/
structure ConfigParseResult (R : Type) [Scalar R] where
  config : SimConfig R
  diagnostics : List Diagnostic

/-- `has_errors`. -/
def hasErrors (diagnostics : List Diagnostic) : Bool := diagnostics.any (·.severity = .error)

/-- `ok`. -/
def ConfigParseResult.ok (r : ConfigParseResult R) : Bool := !hasErrors r.diagnostics

/-- `parse_config_string` on top of a configuration, which is the default one in the source. -/
def parseConfigOver (G : Type) {R : Type} [Scalar R] [Engine G R] (config : SimConfig R)
    (text filename : Text) : Except ConfigStop (ConfigParseResult R) :=
  let source := Source.normalise text filename
  let (tokens, lexed) := tokenise source
  match ConfigParser.run { source, tokens, config } with
  | .error e => .error e
  | .ok (_, s, parsed) =>
    .ok { config := s.config, diagnostics := lexed ++ parsed ++ checkBindings G s.config }

/-- `parse_config_string`. -/
def parseConfigString (G : Type) {R : Type} [Scalar R] [Engine G R] (text filename : Text) :
    Except ConfigStop (ConfigParseResult R) :=
  parseConfigOver G {} text filename

end Sim
end Canforge
