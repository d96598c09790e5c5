import Hyoui.Protocol.Cbor
/-!
# A client's connection

`ClientConnection` owns both ends of one socket to the daemon. Here are its calls up to the
socket: what a read of the socket gave is an argument (`Except FrameError Frame`), and what a write
did is another, so that the same definitions serve a connection with its daemon (`Exchange`) and
the WebSocket bridge.

`send_raw_bytes` is in two parts, before and during its wait for the ack; `recv_control` is the
frames it receives one after the other (`recvControlFrame`).
-/

namespace Hyoui.Protocol

def Frame.isRawData (f : Frame) : Bool := f.ty = typeRawData
def Frame.isRawAck (f : Frame) : Bool := f.ty = typeRawAck

end Hyoui.Protocol

namespace Hyoui.Client

open Hyoui.Protocol

/-! ## Errors -/

/-- The kinds of `std::io::Error` the client tells apart. -/
inductive IoErrorKind where
  | connectionReset
  | brokenPipe
  /-- `TimedOut` or `WouldBlock`: what a read timeout gives. -/
  | timedOut
  | other
deriving DecidableEq

structure IoError where
  kind : IoErrorKind
  message : String
deriving DecidableEq

inductive FrameError where
  | io (e : IoError)
  | protocol (e : ProtocolError)
deriving DecidableEq

inductive Error where
  | io (e : IoError)
  | invalid (what : String)
  | remote (message : String)
  | connectionClosed
deriving DecidableEq

def Error.text : Error → String
  | .io e => "io: " ++ e.message
  | .invalid what => "invalid argument: " ++ what
  | .remote message => message
  | .connectionClosed =>
    "daemon が接続を閉じました。session は既に終わっています (`hyoui list` で確かめてください)"

/-- The daemon refused: the connection is still good. -/
def Error.isRemote : Error → Bool
  | .remote _ => true
  | _ => false

def frameReadError (decodeFailed : String) : FrameError → Error
  | .protocol (.unexpectedEof _) => .connectionClosed
  | .io e => if e.kind = .connectionReset then .connectionClosed else .io e
  | .protocol _ => .invalid decodeFailed

def frameWriteIoError (e : IoError) : Error :=
  if e.kind = .brokenPipe ∨ e.kind = .connectionReset then .connectionClosed else .io e

/-! ## The connection -/

/-- What the CBOR codec makes of bodies and messages. -/
structure Codec where
  encode : ControlMessage → Option Bytes
  decode : Bytes → Option ControlMessage
  decodeAck : Bytes → Option RawAck

/-- `readTimeout` is the read timeout of the socket, in milliseconds. -/
structure ClientConnection where
  response : HandshakeResponse
  readDeadline : Option Nat := none
  readTimeout : Option Nat := none
  pendingFrames : List Frame := []
  poisoned : Bool := false
deriving DecidableEq

namespace ClientConnection

/-- Both directions of the socket are shut down as well: `poisoned` stands for that too. -/
def poison (conn : ClientConnection) : ClientConnection := { conn with poisoned := true }

@[simp] theorem poison_poisoned (conn : ClientConnection) : conn.poison.poisoned = true := rfl
@[simp] theorem poison_pendingFrames (conn : ClientConnection) : conn.poison.pendingFrames = conn.pendingFrames := rfl

/-- Whether a read of the socket can time out. A `DeadlineReader` leaves its timeout on the socket. -/
def timed (conn : ClientConnection) : Bool := conn.readDeadline.isSome || conn.readTimeout.isSome

def setReadTimeout (conn : ClientConnection) (dur : Option Nat) : ClientConnection := { conn with readTimeout := dur }

/-- A write on a socket that was shut down fails, whatever it would do otherwise. -/
def write (conn : ClientConnection) (w : Except IoError Unit) : Except IoError Unit :=
  if conn.poisoned then .error { kind := .brokenPipe, message := "Broken pipe" } else w

/-! ## Receiving -/

/-- `read` is what `Frame::decode_from` gives, if the socket is read at all. -/
def recvFrame (conn : ClientConnection) (read : Except FrameError Frame) : Except Error Frame × ClientConnection :=
  match conn.pendingFrames with
  | frame :: rest => (.ok frame, { conn with pendingFrames := rest })
  | [] => (read.mapError (frameReadError "frame decode failed"), conn)

/-- One turn of the loop of `recv_control`: the frame it received, and the raw bytes it has skipped. `none`
goes on receiving. -/
def recvControlFrame (C : Codec) (raw : Bytes) (frame : Frame) : Option (Except Error ControlMessage) × Bytes :=
  if frame.ty = typeCborControl then
    match C.decode frame.body with
    | some message => (some (.ok message), raw)
    | none => (some (.error (.invalid "control message decode failed")), raw)
  else if frame.ty = typeRawData then (none, raw ++ frame.body)
  else if frame.ty = typeRawAck then (none, raw)
  else (some (.error (.invalid "unexpected frame type")), raw)

/-! ## Sending raw bytes -/

/-- `send_raw_bytes` returns, or has put `frame` on the wire and waits for its ack. -/
inductive SendRaw where
  | returned (result : Except Error Unit)
  | awaiting (frame : Frame)
deriving DecidableEq

/-- `send_raw_bytes`, up to its wait. -/
def sendRawBytes (conn : ClientConnection) (bytes : Bytes) (w : Except IoError Unit) : SendRaw × ClientConnection :=
  if conn.poisoned then
    (.returned (.error (.invalid "connection poisoned after raw_ack failure; reconnect required")), conn)
  else if bytes = [] then (.returned (.ok ()), conn)
  else
    match (Frame.rawData bytes).encodeTo with
    | .error _ => (.returned (.error (.invalid "raw_data frame protocol error")), conn.poison)
    | .ok _ =>
      match conn.write w with
      | .error io => (.returned (.error (frameWriteIoError io)), conn.poison)
      | .ok _ => (.awaiting (.rawData bytes), conn)

/-- What one turn of `recv_raw_ack_inner` meets: its deadline, the outcomes of `poll`, or a frame read. -/
inductive AckWait where
  | deadline
  | pollTimeout
  | pollInterrupted
  | pollFailed (message : String)
  | read (r : Except FrameError Frame)
deriving DecidableEq

end ClientConnection

/-- What `send_raw_bytes` reports for an ack. -/
def ackOutcome (ack : RawAck) : Except Error Unit :=
  match ack.result with
  | .ok => .ok ()
  | .error => .error (.remote (ack.message.getD (ack.code.getD "master write failed")))

namespace ClientConnection

def ackTimeout : Error := .invalid "raw_ack timeout: daemon did not ack within RAW_ACK_TIMEOUT"

/-- One turn of the loop of `recv_raw_ack_inner`; `none` goes on waiting. -/
def recvRawAckInner (C : Codec) (conn : ClientConnection) : AckWait → Option (Except Error Unit) × ClientConnection
  | .deadline | .pollTimeout => (some (.error ackTimeout), conn)
  | .pollInterrupted => (none, conn)
  | .pollFailed message => (some (.error (.io { kind := .other, message })), conn)
  | .read (.error e) => (some (.error (frameReadError "frame decode failed while waiting raw_ack" e)), conn)
  | .read (.ok frame) =>
    if frame.ty = typeRawAck then
      match C.decodeAck frame.body with
      | none => (some (.error (.invalid "raw_ack CBOR decode failed")), conn)
      | some ack => (some (ackOutcome ack), conn)
    else (none, { conn with pendingFrames := conn.pendingFrames ++ [frame] })

/-- Anything but a refusal by the daemon leaves an ack that may still come: the connection is poisoned. -/
def settleSend (conn : ClientConnection) (result : Except Error Unit) : ClientConnection :=
  match result with
  | .error e => if e.isRemote then conn else conn.poison
  | .ok _ => conn

/-- One turn of the wait of `send_raw_bytes`, and what follows its end. -/
def awaitAck (C : Codec) (conn : ClientConnection) (e : AckWait) : Option (Except Error Unit) × ClientConnection :=
  match conn.recvRawAckInner C e with
  | (none, conn) => (none, conn)
  | (some result, conn) => (some result, conn.settleSend result)

/-! ## Sending control messages -/

/-- `send_control`: its result, and the frame it handed to the socket. -/
def sendControl (C : Codec) (conn : ClientConnection) (msg : ControlMessage) (w : Except IoError Unit) :
    Except Error Unit × Option Frame :=
  match C.encode msg with
  | none => (.error (.invalid "control message CBOR encode failed"), none)
  | some body =>
    match (Frame.cborControl body).encodeTo with
    | .error _ => (.error (.invalid "control message frame protocol error"), none)
    | .ok _ =>
      match conn.write w with
      | .error io => (.error (frameWriteIoError io), none)
      | .ok _ => (.ok (), some (.cborControl body))

end ClientConnection

end Hyoui.Client
