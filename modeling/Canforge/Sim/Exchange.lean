/-
# A client and a server on a bus

One `Client`, one `UdsServer` and the frames in flight between them, oldest first, on
a bus that loses nothing.  `asked` and `answered` are not part of the code: they
record the requests the client accepted and, for every request the server answered,
the final answer it computed, which is the deferred one behind a `0x78`.

`Regular` is what a caller and the timing have to keep: requests that ask for an
answer, messages that the other end accepts, no poll at or behind a deadline.
`Orderly` adds that ISO-TP can describe the messages and that the client is polled
between two of them.
-/

import Canforge.Sim.Runs
import Canforge.Uds.Turns

namespace Canforge
namespace Sim

open Canforge.Core IsoTp Lib Uds

/-- A client, a server, the frames in flight, and what has been asked and answered. -/
structure Exchange where
  client : Client
  server : UdsServer
  toServer : List FdFrame := []
  toClient : List FdFrame := []
  asked : List (List Byte) := []
  answered : List (List Byte × List Byte) := []

/-- What can happen next. -/
inductive ExchangeEvent
  | request (payload : List Byte) (now : ℕ)
  | pollClient (now : ℕ)
  | pollServer (now : ℕ)
  | deliverToServer (now : ℕ)
  | deliverToClient (now : ℕ)
  | addDtc (dtc : Dtc)

namespace UdsServer

/-- The final answer to a request that was handled: behind `0x78`, the deferred one. -/
def finalAnswer (response : List Byte) (d : Diagnostics) : List Byte :=
  if IsPending response then d.deferredResponse else response

/-- The request that a frame completes with its final answer, if it has one. -/
def answers (s : UdsServer) (frame : FdFrame) (now : ℕ) : List (List Byte × List Byte) :=
  match s.incoming (.frame frame now) with
  | none => []
  | some (request, now) =>
    match s.toDiagnostics.handle request now with
    | none => []
    | some (response, d) => if response = [] then [] else [(request, finalAnswer response d)]

end UdsServer

/-- The other end accepts the message and ISO-TP can describe it. -/
def Fits (config : Config) (message : List Byte) : Prop :=
  message.length ≤ config.maxReceiveLength ∧ message.length < 2 ^ 32

instance (config : Config) (message : List Byte) : Decidable (Fits config message) :=
  inferInstanceAs (Decidable (_ ∧ _))

/-- A poll of the server before the deadline of its active ISO-TP end. -/
def UdsServer.InTime (s : UdsServer) (now : ℕ) : Prop :=
  (s.sending = true → s.sender.state = .waitingFlowControl → now < s.sender.deadlineNs) ∧
    (s.sending = false → s.receiver.state = .receiving → now < s.receiver.deadlineNs)

instance (s : UdsServer) (now : ℕ) : Decidable (s.InTime now) :=
  inferInstanceAs (Decidable ((_ → _ → _) ∧ (_ → _ → _)))

namespace Exchange

/-- A client and a server that have just been built. -/
def start (client : ClientConfig) (server : UdsServerConfig) : Exchange where
  client := .create client
  server := .create server

/-- One event; a read behind the end of the flash ends the run. -/
def step (x : Exchange) : ExchangeEvent → Option Exchange
  | .request payload now =>
    match x.client.request payload now with
    | .ok client => some { x with client, asked := x.asked ++ [payload] }
    | .error _ => some x
  | .pollClient now =>
    let (client, out) := x.client.poll now
    some { x with client, toServer := x.toServer ++ out }
  | .pollServer now =>
    let (server, out) := x.server.poll now
    some { x with server, toClient := x.toClient ++ out }
  | .deliverToServer now =>
    match x.toServer with
    | [] => none
    | f :: fs =>
      (x.server.onFrame f now).map fun server =>
        { x with server, toServer := fs, answered := x.answered ++ x.server.answers f now }
  | .deliverToClient now =>
    match x.toClient with
    | [] => none
    | f :: fs => some { x with client := x.client.onFrame f now, toClient := fs }
  | .addDtc dtc => some { x with server := x.server.addDtc dtc }

/-- The final answer that the next frame to the server completes, if any, meets `p`. -/
def NextAnswer (x : Exchange) (now : ℕ) (p : List Byte → Prop) : Prop :=
  ∀ f ∈ x.toServer.head?.toList, ∀ a ∈ x.server.answers f now, p a.2

instance (x : Exchange) (now : ℕ) (p : List Byte → Prop) [DecidablePred p] :
    Decidable (x.NextAnswer now p) :=
  inferInstanceAs (Decidable (∀ f ∈ _, ∀ a ∈ _, _))

/-- No suppressed answer, no message above the limit of the other end, no `0x78` above
the limit of the client and no poll at or behind a deadline. -/
def Regular (x : Exchange) : ExchangeEvent → Prop
  | .request payload _ =>
    suppresses payload = false ∧ payload.length ≤ x.server.config.transport.maxReceiveLength
  | .pollClient now => x.client.InTime now ∧ ¬ x.client.OutOfPatience
  | .pollServer now => x.server.InTime now
  | .deliverToServer now =>
    x.NextAnswer now fun answer => answer.length ≤ x.client.config.transport.maxReceiveLength
  | .deliverToClient _ => True
  | .addDtc _ => True

/-- Regular, with no message that ISO-TP cannot describe, and no frame reaches a client
with an unread message. -/
def Orderly (x : Exchange) : ExchangeEvent → Prop
  | .request payload _ => suppresses payload = false ∧ Fits x.server.config.transport payload
  | .pollClient now => Regular x (.pollClient now)
  | .pollServer now => Regular x (.pollServer now)
  | .deliverToServer now => x.NextAnswer now (Fits x.client.config.transport)
  | .deliverToClient _ => ¬ x.client.Unread
  | .addDtc _ => True

theorem Orderly.regular {x : Exchange} {e : ExchangeEvent} (h : Orderly x e) : Regular x e := by
  cases e with
  | request payload now => exact ⟨h.1, h.2.1⟩
  | pollClient now => exact h
  | pollServer now => exact h
  | deliverToServer now => exact fun f hf a ha => (h f hf a ha).1
  | deliverToClient now => trivial
  | addDtc dtc => trivial

instance (x : Exchange) : (e : ExchangeEvent) → Decidable (Regular x e)
  | .request _ _ => inferInstanceAs (Decidable (_ ∧ _))
  | .pollClient _ => inferInstanceAs (Decidable (_ ∧ _))
  | .pollServer now => inferInstanceAs (Decidable (x.server.InTime now))
  | .deliverToServer now =>
    inferInstanceAs (Decidable (x.NextAnswer now fun answer =>
      answer.length ≤ x.client.config.transport.maxReceiveLength))
  | .deliverToClient _ => .isTrue trivial
  | .addDtc _ => .isTrue trivial

instance (x : Exchange) : (e : ExchangeEvent) → Decidable (Orderly x e)
  | .request _ _ => inferInstanceAs (Decidable (_ ∧ _))
  | .pollClient now => inferInstanceAs (Decidable (Regular x (.pollClient now)))
  | .pollServer now => inferInstanceAs (Decidable (Regular x (.pollServer now)))
  | .deliverToServer now =>
    inferInstanceAs (Decidable (x.NextAnswer now (Fits x.client.config.transport)))
  | .deliverToClient _ => inferInstanceAs (Decidable (¬ x.client.Unread))
  | .addDtc _ => .isTrue trivial

end Exchange

end Sim
end Canforge
