/-
# The UDS client

`Client` of `uds/src/Uds.cpp`: one request and its answer at a time over an ISO-TP
sender and receiver that share an address.  `poll` is cut where the source's
comments cut it: the end of a request that is being sent, the answer that is awaited
(`pollAnswer`), and the TesterPresent keepalive (`keepalive`).
-/

import Canforge.IsoTp.Receiver
import Canforge.Uds.Service

namespace Canforge
namespace Uds

open Canforge.Core IsoTp

/-- `ClientConfig`. -/
structure ClientConfig where
  transport : Config
  p2Ns : ℕ := 50000000
  p2StarNs : ℕ := 5000000000
  maxResponsePending : BitVec 32 := 100
  s3Ns : ℕ := 5000000000
  testerPresentKeepalive : Bool := true

/-- `RequestState`. -/
inductive RequestState
  | idle
  | sending
  | awaitingResponse
  | complete
  | failed
  deriving DecidableEq, Repr

/-- `Response`. -/
structure Response where
  positive : Bool := false
  service : Byte := 0
  nrc : Byte := 0
  data : List Byte := []
  pendingCount : BitVec 32 := 0
  deriving DecidableEq

/-- `Client`.  The session is the underlying value of its `SessionType`, which the
answer of the server sets without a check. -/
structure Client where
  config : ClientConfig
  sender : Sender
  receiver : Receiver
  pendingRequest : List Byte := []
  requestedService : Byte := 0
  expectResponse : Bool := true
  state : RequestState := .idle
  response : Response := {}
  failure : Error := {}
  deadlineNs : ℕ := 0
  pendingCount : BitVec 32 := 0
  session : Byte := 0x01
  lastActivityNs : ℕ := 0
  keepalives : ℕ := 0

namespace Client

/-- The constructor. -/
def create (config : ClientConfig) : Client where
  config := config
  sender := { config := config.transport }
  receiver := { config := config.transport }

/-- `busy`. -/
def busy (c : Client) : Bool := decide (c.state = .sending ∨ c.state = .awaitingResponse)

/-- `finish`. -/
def finish (c : Client) (response : Response) : Client :=
  { c with response := { response with pendingCount := c.pendingCount }, state := .complete }

/-- `fail`. -/
def fail (c : Client) (error : Error) : Client := { c with failure := error, state := .failed }

/-- `begin_transfer`. -/
def beginTransfer (c : Client) (now : ℕ) : Client :=
  let c := { c with sender := { config := c.config.transport }, receiver := c.receiver.reset }
  match c.sender.begin c.pendingRequest now with
  | .error e => c.fail e
  | .ok sender =>
    { c with sender, deadlineNs := addNs now c.config.p2Ns, lastActivityNs := now }

/-- `request`; on an error the client stays as it was. -/
def request (c : Client) (payload : List Byte) (now : ℕ) : Result Client :=
  if c.busy then .error { code := .invalidArgument, message := "a request is already in flight" }
  else
    match payload with
    | [] => .error { code := .invalidArgument, message := "a UDS request needs a service id" }
    | service :: _ =>
      .ok ({ c with requestedService := service, expectResponse := !suppresses payload,
                    pendingRequest := payload, response := {}, pendingCount := 0,
                    state := .sending }.beginTransfer now)

/-- `handle_message`. -/
def handleMessage (c : Client) (message : List Byte) (now : ℕ) : Client :=
  let c := { c with lastActivityNs := now }
  match message with
  | [] => c.fail { code := .parseSemantic, message := "empty UDS response" }
  | head :: data =>
    if head = kNegativeResponse then
      if message.length < 3 then
        c.fail { code := .parseSemantic, message := "truncated negative response" }
      else
        let service := message.getD 1 0
        let nrc := message.getD 2 0
        if nrc = Nrc.requestCorrectlyReceivedResponsePending.toByte then
          -- the server is still working
          let c := { c with pendingCount := c.pendingCount + 1 }
          if c.config.maxResponsePending ≠ 0#32 ∧ c.config.maxResponsePending < c.pendingCount then
            c.fail { code := .transportTimeout,
                     message := "the server kept answering responsePending",
                     detail := (c.pendingCount.toNat, 0) }
          else { c with deadlineNs := addNs now c.config.p2StarNs }
        else c.finish { positive := false, service, nrc }
    else if head.toNat ≠ c.requestedService.toNat + kPositiveResponseOffset.toNat then
      c.fail { code := .parseSemantic,
               message := "the response does not answer the request that was sent",
               detail := (head.toNat, c.requestedService.toNat) }
    else
      let session :=
        if c.requestedService = Service.diagnosticSessionControl.toByte ∧ data ≠ [] then
          data.getD 0 0 &&& 0x7F
        else c.session
      { c with session }.finish { positive := true, service := head, data }

/-- The TesterPresent request of the keepalive. -/
def keepalivePayload : List Byte :=
  [Service.testerPresent.toByte, 0x00 ||| kSuppressPositiveResponse]

/-- The end of `poll`: in another session than the default one, and with no request
pending, TesterPresent is due at 40% of S3. -/
def keepalive (c : Client) (out : List FdFrame) (now : ℕ) : Client × List FdFrame :=
  if c.config.testerPresentKeepalive = true ∧ c.state = .complete ∧ c.session ≠ 0x01#8 then
    if addNs c.lastActivityNs (c.config.s3Ns * 2 % 2 ^ 64 / 5) ≤ now then
      match ({ config := c.config.transport } : Sender).begin keepalivePayload now with
      | .error _ => (c, out)
      | .ok keepalive =>
        ({ c with keepalives := c.keepalives + 1, lastActivityNs := now },
          out ++ (keepalive.poll now).2)
    else (c, out)
  else (c, out)

/-- The rest of `poll`, behind the frames `out` of a request. -/
def pollAnswer (c : Client) (out : List FdFrame) (now : ℕ) : Client × List FdFrame :=
  if c.state = .awaitingResponse then
    let (receiver, fc) := c.receiver.poll now
    let c := { c with receiver }
    if receiver.hasMessage then
      ({ c with receiver := receiver.reset }.handleMessage receiver.message now).keepalive
        (out ++ fc) now
    else if receiver.done then
      (c.fail { code := .transportReadFailed, message := "the response could not be reassembled",
                detail := (receiver.result.toNat, 0) }).keepalive (out ++ fc) now
    else if c.deadlineNs ≤ now then
      (c.fail { code := .transportTimeout,
                message := "the server did not answer within P2" }).keepalive (out ++ fc) now
    else c.keepalive (out ++ fc) now
  else c.keepalive out now

/-- `poll`: the client after the call and the frames it returns. -/
def poll (c : Client) (now : ℕ) : Client × List FdFrame :=
  if c.state = .sending then
    let (sender, out) := c.sender.poll now
    let c := { c with sender }
    if sender.done then
      if sender.result ≠ .ok then
        (c.fail { code := .transportWriteFailed,
                  message := "the request could not be transported",
                  detail := (sender.result.toNat, 0) }, out)
      else if c.expectResponse = false then
        (c.finish { positive := true, service := c.requestedService }, out)
      else
        { c with state := .awaitingResponse,
                 deadlineNs := addNs now c.config.p2Ns }.pollAnswer out now
    else c.pollAnswer out now
  else c.pollAnswer [] now

/-- `on_frame`. -/
def onFrame (c : Client) (frame : FdFrame) (now : ℕ) : Client :=
  if c.state = .sending then { c with sender := c.sender.onFrame frame now }
  else if c.state = .awaitingResponse then { c with receiver := c.receiver.onFrame frame now }
  else c

end Client

end Uds
end Canforge
