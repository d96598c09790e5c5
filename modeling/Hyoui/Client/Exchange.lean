import Hyoui.Client.Connection
import Hyoui.Lib.Transition
/-!
# A connection and its daemon

One `ClientConnection`, the socket it reads, and the daemon at the other end. The daemon acks the
`raw_data` frames it was sent, in order and once each, and sends any other frames in between; the
client calls `send_raw_bytes`, `recv_frame` and `send_control` in any order. The socket carries
bytes: a read takes them from `inbox`, and one that times out in the middle of a frame has taken
a part of it. Bytes that are in `inbox` but come too late for a read are bytes that arrive later.
-/

namespace Hyoui.Client

open Hyoui.Lib Hyoui.Protocol

/-! ## Reading the socket -/

/-- How a read of one frame goes: it gets what it waits for, or fails with `consumed` bytes taken. -/
inductive Reading where
  | complete
  | fails (e : IoError) (consumed : Nat)
deriving DecidableEq

/-- The bytes a failed read can have taken: less than the frame that is coming. -/
def partRead (inbox : Bytes) (consumed : Nat) : Prop :=
  match frameLook inbox with
  | .item _ n => consumed < n
  | .bad _ => consumed < sizeHeaderLen + 1
  | .more => consumed ≤ inbox.length

instance (inbox : Bytes) (consumed : Nat) : Decidable (partRead inbox consumed) := by
  unfold partRead
  split <;> infer_instance

/-- How much of the header was read when `decode_from` gives up on it. -/
def refusedHeader : ProtocolError → Nat
  | .unknownType _ => sizeHeaderLen + 1
  | _ => sizeHeaderLen

/-- `Frame::decode_from` on the socket: its result and what is left. `none` is a read that blocks. -/
def socketRead (timed closed : Bool) (inbox : Bytes) : Reading → Option (Except FrameError Frame × Bytes)
  | .complete =>
    match Frame.decodeFrom inbox with
    | .ok (frame, rest) => some (.ok frame, rest)
    | .error (.unexpectedEof what) => if closed then some (.error (.protocol (.unexpectedEof what)), []) else none
    | .error e => some (.error (.protocol e), inbox.drop (refusedHeader e))
  | .fails e consumed =>
    if (e.kind = .timedOut → timed) ∧ partRead inbox consumed then some (.error (.io e), inbox.drop consumed) else none

/-! ## The two parties -/

/-- A call that has returned. `put` says that bytes of it were handed to the socket. -/
inductive Call where
  | sendRawBytes (bytes : Bytes) (put : Bool) (result : Except Error Unit)
  | sendControl (msg : ControlMessage) (put : Bool) (result : Except Error Unit)
  | recvFrame (result : Except Error Frame)

/-- `awaiting` are the bytes of the `send_raw_bytes` that waits for its ack. `written` are the frames on
the wire to the daemon, `acks` and `others` what the daemon sent, all from the start. -/
structure Exchange where
  conn : ClientConnection
  awaiting : Option Bytes := none
  inbox : Bytes := []
  peerOpen : Bool := true
  written : List Frame := []
  acks : List RawAck := []
  others : List Frame := []
  calls : List Call := []

inductive Move where
  | sendRawBytes (bytes : Bytes) (w : Except IoError Unit)
  /-- The wait for an ack goes on without reading. -/
  | await (e : ClientConnection.AckWait)
  /-- The wait for an ack reads a frame. -/
  | awaitRead (r : Reading)
  | recvFrame (r : Reading)
  | sendControl (msg : ControlMessage) (w : Except IoError Unit)
  | setReadTimeout (dur : Option Nat)
  | daemonAcks (body : Bytes)
  | daemonSends (frame : Frame)
  /-- The daemon closes its end, maybe with a frame half sent. -/
  | daemonCloses (part : Bytes)

namespace Exchange

/-- The other end will send no more: it closed, or the socket was shut down. -/
def closed (x : Exchange) : Bool := !x.peerOpen || x.conn.poisoned

/-- The connection after a call. `shutdown` throws away what was not read yet, or keeps it (`discards`). -/
def withConn (discards : Bool) (x : Exchange) (conn : ClientConnection) : Exchange :=
  { x with conn, inbox := if discards && conn.poisoned && !x.conn.poisoned then [] else x.inbox }

/-- Whether `send_raw_bytes` gets as far as the socket. -/
def reachesSocket (conn : ClientConnection) (bytes : Bytes) : Bool :=
  !conn.poisoned && bytes ≠ [] && (Frame.rawData bytes).encodeTo.isOk

def returned (x : Exchange) (call : Call) : Exchange := { x with calls := x.calls ++ [call] }

/-- A turn of the wait for an ack. -/
def awaitTurn (C : Codec) (discards : Bool) (x : Exchange) (bytes : Bytes) (e : ClientConnection.AckWait) : Exchange :=
  match x.conn.awaitAck C e with
  | (none, conn) => x.withConn discards conn
  | (some result, conn) =>
    ({ x with awaiting := none }.withConn discards conn).returned (.sendRawBytes bytes true result)

/-- The frame is on its way to the client. -/
def deliver (x : Exchange) (frame : Frame) : Option Exchange :=
  match frame.encodeTo with
  | .ok wire => if x.closed then none else some { x with inbox := x.inbox ++ wire }
  | .error _ => none

def step (C : Codec) (discards : Bool) (x : Exchange) : Move → Option Exchange
  | .sendRawBytes bytes w =>
    if x.awaiting.isSome then none
    else
      match x.conn.sendRawBytes bytes w with
      | (.returned result, conn) =>
        some ((x.withConn discards conn).returned (.sendRawBytes bytes (reachesSocket x.conn bytes) result))
      | (.awaiting frame, conn) =>
        some { x.withConn discards conn with awaiting := some bytes, written := x.written ++ [frame] }
  | .await (.read _) => none
  | .await e => x.awaiting.map (x.awaitTurn C discards · e)
  | .awaitRead r =>
    match x.awaiting, socketRead x.conn.timed x.closed x.inbox r with
    | some bytes, some (read, inbox) => some ({ x with inbox }.awaitTurn C discards bytes (.read read))
    | _, _ => none
  | .recvFrame r =>
    if x.awaiting.isSome then none
    else
      match x.conn.pendingFrames with
      | frame :: rest => some ({ x with conn.pendingFrames := rest }.returned (.recvFrame (.ok frame)))
      | [] =>
        (socketRead x.conn.timed x.closed x.inbox r).map fun (read, inbox) =>
          { x with inbox }.returned (.recvFrame (x.conn.recvFrame read).1)
  | .sendControl msg w =>
    if x.awaiting.isSome then none
    else
      let (result, frame) := x.conn.sendControl C msg w
      some ({ x with written := x.written ++ frame.toList }.returned
        (.sendControl msg (!x.conn.poisoned && (C.encode msg).isSome) result))
  | .setReadTimeout dur => if x.awaiting.isSome then none else some { x with conn := x.conn.setReadTimeout dur }
  | .daemonAcks body =>
    match C.decodeAck body with
    | some ack =>
      if x.acks.length < x.written.countP Frame.isRawData then
        { x with acks := x.acks ++ [ack] }.deliver (.rawAck body)
      else none
    | none => none
  | .daemonSends frame =>
    if frame.Known ∧ frame.isRawAck = false then { x with others := x.others ++ [frame] }.deliver frame else none
  | .daemonCloses part =>
    if x.closed = false ∧ frameLook part = .more then some { x with inbox := x.inbox ++ part, peerOpen := false }
    else none

end Exchange

/-- A connection after its handshake. -/
def exchange (C : Codec) (discards : Bool) : System Exchange Move where
  init x := ∃ response readDeadline, x = { conn := { response, readDeadline } }
  step x m := x.step C discards m

end Hyoui.Client
