/-
# The bus abstraction

`transport/include/canforge/transport/IBus.hpp` and `transport/src/IBus.cpp`:
the worst-case time of a frame on the wire (`frame_timing`), acceptance filters
and the statistics every backend keeps.  Times, bit counts and counters are
natural numbers; none of the sums here comes near the width of its type.
-/

import Canforge.Core.Frame

namespace Canforge
namespace Transport

open Canforge.Core

/-! ### Time on the wire -/

/-- `BusTiming`. -/
structure BusTiming where
  nominalBitrate : ℕ := 500000
  dataBitrate : ℕ := 2000000
  deriving DecidableEq, Repr

/-- `FrameTiming`. -/
structure FrameTiming where
  arbitrationBits : ℕ := 0
  dataBits : ℕ := 0
  stuffBits : ℕ := 0
  nanoseconds : ℕ := 0
  deriving DecidableEq, Repr

/-- `total_bits`. -/
def FrameTiming.totalBits (t : FrameTiming) : ℕ := t.arbitrationBits + t.dataBits

/-- `worst_case_stuff_bits`. -/
def worstCaseStuffBits (bits : ℕ) : ℕ := if bits = 0 then 0 else (bits - 1) / 4

/-- The fixed-form bits after the CRC sequence: its delimiter, the acknowledgement, the end
of the frame and the space behind it. -/
def kTrailer : ℕ := 1 + 1 + 1 + 7 + 3

/-- `bits` at `bitrate`; `0` when no bitrate is configured. -/
def bitsToNs (bits bitrate : ℕ) : ℕ := if bitrate = 0 then 0 else bits * 1000000000 / bitrate

/-- `classic_timing`. -/
def classicTiming (frame : FdFrame) (timing : BusTiming) : FrameTiming :=
  let payloadBits := (if frame.isRemote then 0 else frame.size) * 8
  let stuffable := (if frame.id.isExtended then 54 else 34) + payloadBits
  let stuffBits := worstCaseStuffBits stuffable
  let arbitrationBits := stuffable + kTrailer + stuffBits
  { stuffBits, arbitrationBits, dataBits := 0,
    nanoseconds := bitsToNs arbitrationBits timing.nominalBitrate }

/-- `fd_timing`. -/
def fdTiming (frame : FdFrame) (timing : BusTiming) : FrameTiming :=
  let length := frame.size
  let payloadBits := length * 8
  let arbitrationCore := if frame.id.isExtended then 37 else 17
  let crcBits := if 16 < length then 21 else 17
  let crcField := crcBits + 4
  let fixedStuff := crcField / 4
  let dynamicStuff := worstCaseStuffBits (arbitrationCore + 1 + 4 + payloadBits)
  let stuffBits := fixedStuff + dynamicStuff
  let arbitrationBits := arbitrationCore + kTrailer
  let dataBits := 1 + 4 + payloadBits + crcField + stuffBits
  let dataRate :=
    if frame.isBrs ∧ timing.dataBitrate ≠ 0 then timing.dataBitrate else timing.nominalBitrate
  { stuffBits, arbitrationBits, dataBits,
    nanoseconds := bitsToNs arbitrationBits timing.nominalBitrate + bitsToNs dataBits dataRate }

/-- `frame_timing`. -/
def frameTiming (frame : FdFrame) (timing : BusTiming) : FrameTiming :=
  if frame.isFd then fdTiming frame timing else classicTiming frame timing

/-! ### Filters -/

/-- `Filter`. -/
structure Filter where
  id : BitVec 32 := 0
  mask : BitVec 32 := 0
  invert : Bool := false
  matchFormat : Bool := true
  deriving DecidableEq, Repr

/-- `accepts`. -/
def Filter.accepts (f : Filter) (candidate : CanId) : Bool :=
  let effective := if f.matchFormat then f.mask else f.mask &&& kExtendedIdMax
  (candidate.packed &&& effective == f.id &&& effective) != f.invert

/-- `accepted_by`. -/
def acceptedBy (filters : List Filter) (id : CanId) : Bool :=
  filters.isEmpty || filters.any (·.accepts id)

/-! ### Statistics -/

/-- `BusStatistics`. -/
structure BusStatistics where
  framesSent : ℕ := 0
  framesReceived : ℕ := 0
  bytesSent : ℕ := 0
  bytesReceived : ℕ := 0
  sendErrors : ℕ := 0
  receiveErrors : ℕ := 0
  errorFrames : ℕ := 0
  arbitrationLosses : ℕ := 0
  dropped : ℕ := 0
  wireBits : ℕ := 0
  firstTimestampNs : ℕ := 0
  lastTimestampNs : ℕ := 0
  deriving DecidableEq, Repr

end Transport
end Canforge
