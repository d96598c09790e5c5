import Hyoui.Daemon.SendQueue
import Hyoui.Daemon.World
/-!
# Clients and what is sent to them

A `ClientHandle` is an attached client: its identity and role, its send queue and its receive
decoder. Every enqueue of the daemon goes through `offer`, which also appends to `offers`, the
history of what the daemon tried to enqueue and what came of it; `tail` is where in it the answer to
the latest tail request begins. No function reads either; the properties of a session are stated
over them.
-/

namespace Hyoui.Daemon

open Hyoui.Protocol

def maxClientsPerDaemon : Nat := 64
def closeFlushTimeout : Nat := millis 500
def maxClosingClients : Nat := maxClientsPerDaemon
def writeBudgetPerPass : Nat := 64 * 1024

inductive Subscription where
  | raw
  | tailFollow (stripAnsi : Bool)
deriving DecidableEq

/-- A frame the daemon enqueues, before it is encoded; a redraw is that of a screen. -/
inductive Outgoing where
  | control (msg : ControlMessage)
  | rawAck (ack : RawAck)
  | output (bytes : Bytes)
  | redraw (screen : Screen)
deriving DecidableEq

structure Offer where
  item : Outgoing
  outcome : EnqueueOutcome
deriving DecidableEq

/-- Where the answer to a tail request begins: how many frames the client had been offered and what the
screen had been fed. `asked` are the bytes of the snapshot, before they are stripped. -/
structure TailStart where
  offered : Nat
  stripAnsi : Bool
  asked : Bytes
  fed : Nat
deriving DecidableEq

structure ClientHandle where
  id : ClientId
  mode : Mode
  leader : Bool
  subscription : Subscription := .raw
  negotiatedCaps : List Cap
  send : SendQueue := {}
  bufferLimit : Nat
  decoder : FrameDecoder := {}
  connectedAtUnixMs : Nat
  offers : List Offer := []
  tail : Option TailStart := none
deriving DecidableEq

structure ClosingClient where
  send : SendQueue
  deadline : Instant
deriving DecidableEq

namespace ClientHandle

def sendSettled (ch : ClientHandle) : Bool := ch.send.isSettled

/-- Some enqueue reported `Overflow`: the frames the client gets have a gap. -/
def overflowed (ch : ClientHandle) : Bool := ch.offers.any (·.outcome = .overflow)

def flushSend (ch : ClientHandle) (script : List WriteResult) : ClientHandle :=
  { ch with send := (ch.send.writeTo writeBudgetPerPass script).1 }

/-- `None` where nothing is left to write: the socket is closed at once. -/
def intoClosing (ch : ClientHandle) (deadline : Instant) : Option ClosingClient :=
  if ch.send.isSettled then none else some { send := ch.send, deadline }

def enqueueForClient (ch : ClientHandle) (item : Outgoing) (payload : Bytes) : ClientHandle × EnqueueOutcome :=
  let (send, outcome) := ch.send.enqueueForClient ch.bufferLimit payload
  ({ ch with send, offers := ch.offers ++ [{ item, outcome }] }, outcome)

def enqueueIgnoringLimit (ch : ClientHandle) (item : Outgoing) (payload : Bytes) : ClientHandle :=
  let outcome := if ch.send.failed then .sendFailed else .sent
  { ch with send := ch.send.enqueueIgnoringLimit payload, offers := ch.offers ++ [{ item, outcome }] }

/-- An enqueue of a frame that may fail to encode. -/
def offer (ch : ClientHandle) (item : Outgoing) : Option Bytes → ClientHandle × Option EnqueueOutcome
  | none => (ch, none)
  | some payload =>
    let (ch, outcome) := ch.enqueueForClient item payload
    (ch, some outcome)

end ClientHandle

variable (W : World)

def sendControl (ch : ClientHandle) (msg : ControlMessage) : ClientHandle × Option EnqueueOutcome :=
  ch.offer (.control msg) (W.controlFrame msg)

def sendRawAck (ch : ClientHandle) (ack : RawAck) : ClientHandle × Option EnqueueOutcome :=
  ch.offer (.rawAck ack) (W.rawAckFrame ack)

def backpressureError (ch : ClientHandle) (queued : Nat) : ControlMessage :=
  .error {
    code := .backpressureDisconnect
    message := "client buffer full"
    details := some [("queued_bytes", queued), ("limit", ch.bufferLimit)] }

def sendBackpressureError (ch : ClientHandle) (queued : Nat) : ClientHandle :=
  match W.controlFrame (backpressureError ch queued) with
  | none => ch
  | some payload =>
    if ch.send.failed then ch else ch.enqueueIgnoringLimit (.control (backpressureError ch queued)) payload

/-- The client's id where it must be disconnected. -/
def handleEnqueueOutcome (r : ClientHandle × EnqueueOutcome) : ClientHandle × Option ClientId :=
  match r.2 with
  | .sent => (r.1, none)
  | .overflow => (sendBackpressureError W r.1 r.1.send.queuedBytes, some r.1.id)
  | .sendFailed => (r.1, none)

/-- One frame for each client that `select` picks one for: the clients, and the ids of those
that overflowed. -/
def broadcastWith (clients : List ClientHandle) (select : ClientHandle → Option (Outgoing × Bytes)) :
    List ClientHandle × List ClientId :=
  let rs := clients.map fun ch =>
    match select ch with
    | none => (ch, none)
    | some (item, payload) => handleEnqueueOutcome W (ch.enqueueForClient item payload)
  (rs.map (·.1), rs.filterMap (·.2))

/-- `broadcast_master_bytes`: output as `raw_data` or, for a tail follower, as `tail.data`. -/
def broadcastMasterBytes (clients : List ClientHandle) (bytes : Bytes) (tsMs : Int) :
    List ClientHandle × List ClientId :=
  broadcastWith W clients fun ch =>
    match ch.subscription with
    | .raw => (rawDataFrame bytes).map fun payload => (.output bytes, payload)
    | .tailFollow strip =>
      let msg := ControlMessage.tailData (if strip then W.stripAnsi bytes else bytes) tsMs
      (W.controlFrame msg).map fun payload => (.control msg, payload)

def broadcastControl (clients : List ClientHandle) (msg : ControlMessage) : List ClientHandle × List ClientId :=
  broadcastWith W clients fun _ => (W.controlFrame msg).map fun payload => (.control msg, payload)

def broadcastControlWithCap (clients : List ClientHandle) (msg : ControlMessage) (requiredCap : Cap) :
    List ClientHandle × List ClientId :=
  broadcastWith W clients fun ch =>
    if requiredCap ∈ ch.negotiatedCaps then (W.controlFrame msg).map fun payload => (.control msg, payload)
    else none

/-! ## Writing -/

def flushClients (clients : List ClientHandle) (scripts : ClientId → List WriteResult) : List ClientHandle :=
  clients.map fun ch => if ch.sendSettled then ch else ch.flushSend (scripts ch.id)

/-- One write pass over a closing client; kept while it still has something to write. -/
def stillWriting (c : ClosingClient) (script : List WriteResult) : Option ClosingClient :=
  let (send, progress, _) := c.send.writeTo writeBudgetPerPass script
  match progress with
  | .blocked | .paused => some { c with send }
  | .drained | .failed => none

/-- `advance_closing`; `scripts` gives each closing client's writes by its position. -/
def advanceClosing (now : Instant) : List ClosingClient → List (List WriteResult) → List ClosingClient
  | [], _ => []
  | c :: cs, scripts =>
    let rest := advanceClosing now cs scripts.tail
    match stillWriting c (scripts.headD []) with
    | some c => if now < c.deadline then c :: rest else rest
    | none => rest

def writeClosing : List ClosingClient → List (List WriteResult) → List ClosingClient
  | [], _ => []
  | c :: cs, scripts =>
    match stillWriting c (scripts.headD []) with
    | some c => c :: writeClosing cs scripts.tail
    | none => writeClosing cs scripts.tail

def admitClosing (closing : List ClosingClient) (c : ClosingClient) : List ClosingClient :=
  if closing.length < maxClosingClients then closing ++ [c] else closing

def retireClient (closing : List ClosingClient) (ch : ClientHandle) (now : Instant) : List ClosingClient :=
  match ch.intoClosing (now + closeFlushTimeout) with
  | some c => admitClosing closing c
  | none => closing

end Hyoui.Daemon
