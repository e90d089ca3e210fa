/-
# The SocketCAN backend

`transport/src/SocketCanBus.cpp`: what `send` hands to `write(2)`, how `receive`
reads what `recvmsg(2)` delivers, and the filters `apply_filters` installs.  The
kernel is a parameter: `write` returns `none` when it took the whole structure
and the `errno` otherwise, and `Arrival` is what a `poll` and a `recvmsg` can
return.  `struct can_frame` and `struct canfd_frame` are `Native`.

The kernel's rule for an installed filter is `CanFilter.accepts`: equality under
the mask, negated by `CAN_INV_FILTER`; a list accepts what one of its entries
accepts.
-/

import Canforge.Transport.Bus

namespace Canforge
namespace Transport

open Canforge.Core

/-! ### Filters -/

/-- `CAN_INV_FILTER`. -/
def canInvFilter : BitVec 32 := 0x20000000#32

/-- `struct can_filter`. -/
structure CanFilter where
  canId : BitVec 32
  canMask : BitVec 32
  deriving DecidableEq, Repr

/-- The kernel's rule for a received identifier word. -/
def CanFilter.accepts (cf : CanFilter) (received : BitVec 32) : Bool :=
  (received &&& cf.canMask == cf.canId &&& cf.canMask) != decide (cf.canId &&& canInvFilter ≠ 0)

/-- The `can_filter` that `apply_filters` builds. -/
def Filter.native (f : Filter) : CanFilter where
  canId := f.id ||| (if f.invert then canInvFilter else 0)
  canMask := f.mask ||| (if f.matchFormat then kEffFlag else 0)

/-- The list that `apply_filters` installs on an open socket. -/
def nativeFilters (filters : List Filter) : List CanFilter :=
  if filters = [] then [⟨0, 0⟩] else filters.map Filter.native

/-- The kernel's rule for an installed list. -/
def kernelAccepts (installed : List CanFilter) (received : BitVec 32) : Bool :=
  installed.any (·.accepts received)

/-! ### Frames -/

/-- `CAN_RTR_FLAG`. -/
def kRtrFlag : BitVec 32 := 0x40000000#32

/-- `CAN_ERR_FLAG`. -/
def kErrFlag : BitVec 32 := 0x20000000#32

/-- `CANFD_BRS`. -/
def canfdBrs : Byte := 0x01

/-- `CANFD_ESI`. -/
def canfdEsi : Byte := 0x02

/-- `CANFD_FDF`. -/
def canfdFdf : Byte := 0x04

/-- What goes over the socket: a `can_frame` or a `canfd_frame`. -/
inductive Native
  | can (canId : BitVec 32) (canDlc : Byte) (data : List Byte)
  | canfd (canId : BitVec 32) (len flags : Byte) (data : List Byte)
  deriving DecidableEq, Repr

/-- `SocketCanBus` on an interface. -/
structure SocketCanBus where
  isOpen : Bool := false
  fdEnabled : Bool := false
  timing : BusTiming := {}
  filters : List Filter := []
  stats : BusStatistics := {}
  deriving DecidableEq, Repr

/-- The structure that `send` fills in. -/
def toNative (frame : FdFrame) : Native :=
  let id := frame.id.packed
  let id := if frame.isRemote then id ||| kRtrFlag else id
  let id := if frame.isErrorFrame then id ||| kErrFlag else id
  let len := BitVec.ofNat 8 frame.size
  if frame.isFd then
    .canfd id len
      (canfdFdf ||| (if frame.isBrs then canfdBrs else 0) ||| (if frame.isEsi then canfdEsi else 0))
      (BasicFrame.store 64 frame.bytes)
  else .can id len (BasicFrame.store 8 frame.bytes)

namespace SocketCanBus

/-- `send`. -/
def send (write : Native → Option ℕ) (s : SocketCanBus) (frame : FdFrame) :
    Result Unit × SocketCanBus :=
  if !s.isOpen then (.error ⟨.transportNotOpen, "the socket is closed", (0, 0)⟩, s)
  else if frame.isFd && !s.fdEnabled then
    (.error ⟨.transportUnsupported, "the socket was not opened with CAN FD support", (0, 0)⟩, s)
  else
    match write (toNative frame) with
    | some errno =>
      (.error ⟨.transportWriteFailed,
        if frame.isFd then "short write on a CAN FD frame" else "short write on a classic CAN frame",
        (errno, 0)⟩,
        { s with stats := { s.stats with sendErrors := s.stats.sendErrors + 1 } })
    | none =>
      (.ok (), { s with stats :=
        { s.stats with
          framesSent := s.stats.framesSent + 1
          bytesSent := s.stats.bytesSent + frame.size
          wireBits := s.stats.wireBits + (frameTiming frame s.timing).totalBits } })

end SocketCanBus

/-- The flags `receive` reads off the structure. -/
def Native.frameFlags : Native → FrameFlags
  | .can canId _ _ =>
    (if canId &&& kErrFlag ≠ 0 then FrameFlags.error else FrameFlags.none) |||
      (if canId &&& kRtrFlag ≠ 0 then FrameFlags.rtr else FrameFlags.none)
  | .canfd canId _ flags _ =>
    (if canId &&& kErrFlag ≠ 0 then FrameFlags.error else FrameFlags.none) ||| FrameFlags.fd |||
      (if flags &&& canfdBrs ≠ 0 then FrameFlags.brs else FrameFlags.none) |||
      (if flags &&& canfdEsi ≠ 0 then FrameFlags.esi else FrameFlags.none)

/-- `raw.can_id`. -/
def Native.canId : Native → BitVec 32
  | .can canId _ _ | .canfd canId _ _ _ => canId

/-- `raw.len`, or `can_dlc`. -/
def Native.length : Native → ℕ
  | .can _ canDlc _ => canDlc.toNat
  | .canfd _ len _ _ => len.toNat

/-- `raw.data`. -/
def Native.data : Native → List Byte
  | .can _ _ data | .canfd _ _ _ data => data

/-- The frame `receive` makes of the structure.  `make` refuses a length past the capacity
before it copies, so what lies behind `data` is never read. -/
def Native.decode (raw : Native) (timestampNs : ℕ) : Result FdFrame := do
  let id ← CanId.fromPacked (raw.canId &&& (kExtendedIdMax ||| kEffFlag))
  BasicFrame.make 64 id ((raw.data ++ List.replicate 256 0).take raw.length) raw.frameFlags
    timestampNs

/-- What `poll` and `recvmsg` return. -/
inductive Arrival
  | timeout
  | interrupted
  | pollFailed (errno : ℕ)
  | recvFailed (errno : ℕ)
  | badSize (got : ℕ)
  | frame (raw : Native) (timestampNs : ℕ)
  deriving DecidableEq, Repr

namespace SocketCanBus

/-- `++stats_.receive_errors`. -/
def receiveError (s : SocketCanBus) : SocketCanBus :=
  { s with stats := { s.stats with receiveErrors := s.stats.receiveErrors + 1 } }

/-- `receive`. -/
def receive (s : SocketCanBus) (arrival : Arrival) : Result FdFrame × SocketCanBus :=
  if !s.isOpen then (.error ⟨.transportNotOpen, "the socket is closed", (0, 0)⟩, s)
  else
    match arrival with
    | .timeout =>
      (.error ⟨.transportTimeout, "no frame arrived before the timeout expired", (0, 0)⟩, s)
    | .interrupted =>
      (.error ⟨.transportTimeout, "interrupted while waiting for a frame", (0, 0)⟩, s)
    | .pollFailed errno =>
      (.error ⟨.transportReadFailed, "poll failed", (errno, 0)⟩, s.receiveError)
    | .recvFailed errno =>
      (.error ⟨.transportReadFailed, "recvmsg failed", (errno, 0)⟩, s.receiveError)
    | .badSize got =>
      (.error ⟨.transportReadFailed, "unexpected frame size from the kernel", (got, 0)⟩,
        s.receiveError)
    | .frame raw timestampNs =>
      let s := if raw.canId &&& kErrFlag ≠ 0 then
          { s with stats := { s.stats with errorFrames := s.stats.errorFrames + 1 } }
        else s
      match raw.decode timestampNs with
      | .error e => (.error e, s.receiveError)
      | .ok frame =>
        (.ok frame, { s with stats :=
          { s.stats with
            framesReceived := s.stats.framesReceived + 1
            bytesReceived := s.stats.bytesReceived + frame.size
            wireBits := s.stats.wireBits + (frameTiming frame s.timing).totalBits
            firstTimestampNs :=
              if s.stats.firstTimestampNs = 0 then timestampNs else s.stats.firstTimestampNs
            lastTimestampNs := timestampNs } })

end SocketCanBus

end Transport
end Canforge
