import Hyoui.Client.Connection
import Hyoui.Lib.Transition
/-!
# The WebSocket bridge

`bridge_loop` moves what the daemon sends to the browser and what the browser sends to the daemon, on
one `ClientConnection`. It waits in four places: in `poll`, for the ack of raw bytes, for the end of
a leader request, and for the status that ends a resize. A step is what it does from one of these to
the next; between two requests of one drain it passes through `controls`.

What the daemon answers, how the system calls end and when the browser sends something are the
environment's.
-/

namespace Hyoui.Web

open Hyoui.Lib Hyoui.Protocol Hyoui.Client

/-! ## Commands and frames -/

inductive BridgeCmd where
  | bytes (bytes : Bytes)
  | resize (requestId cols rows : Nat)
  | leaderRequest (requestId : Nat)
  | shutdown
deriving DecidableEq

inductive PendingControl where
  | resize (requestId cols rows : Nat)
  | leaderRequest (requestId : Nat)
deriving DecidableEq

structure ErrorInfo where
  code : String
  message : String
deriving DecidableEq

namespace Code

def invalidRequest : String := "invalid-request"
def internalError : String := "internal-error"

end Code

def ErrorInfo.internal (message : String) : ErrorInfo := { code := Code.internalError, message }

inductive AttachMode where
  | rw
  | ro
  | rwNoLeader
  | unknown
deriving DecidableEq

def AttachMode.ofMode : Mode → AttachMode
  | .rw => .rw
  | .ro => .ro
  | .rwNoLeader => .rwNoLeader

inductive ServerFrame where
  | hello (protocol : Nat) (version : String) (buildId : Option String) (caps : List Cap)
      (authExpiresAt : Option String)
  | attachInfo (mode : AttachMode) (leader : Bool)
  | resizeResult (requestId : Nat) (ok : Bool) (error : Option ErrorInfo)
  | leaderResult (requestId : Nat) (ok : Bool) (error : Option ErrorInfo)
deriving DecidableEq

inductive BridgeOutput where
  | bytes (bytes : Bytes)
  | control (frame : ServerFrame)
deriving DecidableEq

def webProtocolVersion : Nat := 1

/-- What the build of the gateway and its caller put into `hello`. -/
structure Gateway where
  version : String
  buildId : Option String
  authExpiresAt : String

/-- The `ok` and `error` of a result frame. -/
def resizeResult (requestId : Nat) : Except ErrorInfo Unit → ServerFrame
  | .ok _ => .resizeResult requestId true none
  | .error e => .resizeResult requestId false (some e)

def leaderResult (requestId : Nat) : Except ErrorInfo Unit → ServerFrame
  | .ok _ => .leaderResult requestId true none
  | .error e => .leaderResult requestId false (some e)

/-! ## The state -/

/-- What the bridge reads from the daemon, hands to it, and sends to the browser. -/
inductive Act where
  | read (frame : Frame)
  | wrote (frame : Frame)
  | output (o : BridgeOutput)
deriving DecidableEq

/-- Which request a resize is part of. -/
inductive Asked where
  | resize (requestId : Nat)
  | leader (requestId : Nat)
deriving DecidableEq

/-- Where the bridge is: `rest` and `shutdown` are what is left of the drain of the input queue, `raw` the
bytes `recv_control` has skipped. -/
inductive Phase where
  | top
  | awaitingAck (rest : List PendingControl) (shutdown : Bool)
  | controls (rest : List PendingControl) (shutdown : Bool)
  | awaitingLeader (requestId : Nat) (raw : Bytes) (rest : List PendingControl) (shutdown : Bool)
  /-- The leader is acquired, the grid is next. -/
  | leading (requestId cols rows : Nat) (rest : List PendingControl) (shutdown : Bool)
  | awaitingResize (asked : Asked) (raw : Bytes) (rest : List PendingControl) (shutdown : Bool)
  | done (result : Except String Unit)
deriving DecidableEq

structure Bridge where
  conn : ClientConnection
  latestGrid : Option (Nat × Nat) := none
  input : List BridgeCmd := []
  /-- The reader task has gone and dropped its sender. -/
  inputClosed : Bool := false
  /-- The WS writer still takes output. -/
  writerOpen : Bool := true
  log : List Act := []
  phase : Phase := .top

namespace Bridge

def finish (b : Bridge) (result : Except String Unit) : Bridge := { b with phase := .done result }

def note (b : Bridge) (acts : List Act) : Bridge := { b with log := b.log ++ acts }

/-- `output_tx.send`; `none` when the writer has gone. -/
def emit (b : Bridge) (o : BridgeOutput) : Option Bridge := if b.writerOpen then some (b.note [.output o]) else none

def sendAttachInfo (b : Bridge) : Option Bridge :=
  b.emit (.control (.attachInfo (.ofMode b.conn.response.mode) b.conn.response.leader))

def setLeader (b : Bridge) (clientId : Option ClientId) : Bridge :=
  { b with conn.response.leader := decide (clientId = some b.conn.response.clientId) }

def setMode (b : Bridge) (mode : Mode) : Bridge := { b with conn.response.mode := mode }

/-- The frame a call of `recv_frame` has read from the socket, if it has read one. -/
def readBy (conn : ClientConnection) (read : Except FrameError Frame) : List Act :=
  match conn.pendingFrames, read with
  | [], .ok frame => [.read frame]
  | _, _ => []

/-! ## Frames at the top of the loop -/

/-- `send_attach_info(..)?` -/
def passAttachInfo (b : Bridge) : Bridge := b.sendAttachInfo.getD (b.finish (.error "WS writer closed"))

def onControl (C : Codec) (b : Bridge) (body : Bytes) : Bridge :=
  match C.decode body with
  | none => b.finish (.error "decode daemon control message")
  | some (.leaderNotify clientId) => (b.setLeader clientId).passAttachInfo
  | some (.modeChange change) =>
    match change.clientMode with
    | none => b
    | some mode => (b.setMode mode).passAttachInfo
  | some _ => b

def onFrame (C : Codec) (b : Bridge) (frame : Frame) : Bridge :=
  if frame.ty = typeRawData then (b.emit (.bytes frame.body)).getD (b.finish (.ok ()))
  else if frame.ty = typeCborControl then b.onControl C frame.body
  else b

/-- The reader is ready: exactly one frame. -/
def onReader (C : Codec) (b : Bridge) (read : Except FrameError Frame) : Bridge :=
  match b.conn.recvFrame read with
  | (.ok frame, conn) => ({ b with conn }.note (readBy b.conn read)).onFrame C frame
  | (.error e, conn) => { b with conn }.finish (.error ("recv_frame: " ++ e.text))

/-! ## The input queue -/

/-- Draining the queue: the bytes, the controls, whether to shut down, and what is left in it. -/
def drain (closed : Bool) : List BridgeCmd → Bytes × List PendingControl × Bool × List BridgeCmd
  | [] => ([], [], closed, [])
  | .shutdown :: rest => ([], [], true, rest)
  | .bytes bytes :: rest =>
    let (batch, controls, shutdown, left) := drain closed rest
    (bytes ++ batch, controls, shutdown, left)
  | .resize requestId cols rows :: rest =>
    let (batch, controls, shutdown, left) := drain closed rest
    (batch, .resize requestId cols rows :: controls, shutdown, left)
  | .leaderRequest requestId :: rest =>
    let (batch, controls, shutdown, left) := drain closed rest
    (batch, .leaderRequest requestId :: controls, shutdown, left)

/-- After `send_raw_bytes`: a refusal is only logged, any other failure ends the bridge. -/
def afterSend (b : Bridge) (result : Except Error Unit) (rest : List PendingControl) (shutdown : Bool) : Bridge :=
  match result with
  | .ok _ => { b with phase := .controls rest shutdown }
  | .error e =>
    if e.isRemote then { b with phase := .controls rest shutdown }
    else b.finish (.error ("send_raw_bytes: " ++ e.text))

def onWake (b : Bridge) (w : Except IoError Unit) : Bridge :=
  let (batch, controls, shutdown, input) := drain b.inputClosed b.input
  let b := { b with input }
  if batch = [] then { b with phase := .controls controls shutdown }
  else
    match b.conn.sendRawBytes batch w with
    | (.returned result, conn) => { b with conn }.afterSend result controls shutdown
    | (.awaiting frame, conn) =>
      { b.note [.wrote frame] with conn, phase := .awaitingAck controls shutdown }

/-- The frame the wait for an ack has read, if it has read one. -/
def readByAck : ClientConnection.AckWait → List Act
  | .read (.ok frame) => [.read frame]
  | _ => []

/-- A turn of the wait for the ack. -/
def onAckWait (C : Codec) (b : Bridge) (e : ClientConnection.AckWait) (rest : List PendingControl) (shutdown : Bool) :
    Bridge :=
  match b.conn.awaitAck C e with
  | (none, conn) => { b.note (readByAck e) with conn }
  | (some result, conn) => { b.note (readByAck e) with conn }.afterSend result rest shutdown

/-! ## Requests -/

/-- How the system calls around a request end: `set_read_timeout` before and after, and two writes. -/
structure Answers where
  set : Except IoError Unit := .ok ()
  write₁ : Except IoError Unit := .ok ()
  write₂ : Except IoError Unit := .ok ()
  clear : Except IoError Unit := .ok ()

def waitTimeout : Nat := 5000

/-- The result frame of a request; without a writer the bridge ends. -/
def answer (b : Bridge) (frame : ServerFrame) (rest : List PendingControl) (shutdown : Bool) : Bridge :=
  match b.emit (.control frame) with
  | some b => { b with phase := .controls rest shutdown }
  | none => b.finish (.ok ())

/-- The result of `resize_on_connection`, for whoever called it. -/
def answerResize (b : Bridge) (asked : Asked) (result : Except ErrorInfo Unit) (rest : List PendingControl)
    (shutdown : Bool) : Bridge :=
  match asked with
  | .resize requestId => b.answer (resizeResult requestId result) rest shutdown
  | .leader requestId =>
    let result := result.mapError fun e => { e with message := "leader acquired but resize failed: " ++ e.message }
    b.answer (leaderResult requestId result) rest shutdown

/-- The read timeout is cleared, and its failure takes the place of the result. -/
def clearTimeout (b : Bridge) (what : String) (clear : Except IoError Unit) (result : Except ErrorInfo Unit) :
    Except ErrorInfo Unit × Bridge :=
  match clear with
  | .error io => (.error (.internal ("clear " ++ what ++ " timeout: " ++ (Error.io io).text)), b)
  | .ok _ => (result, { b with conn := b.conn.setReadTimeout none })

/-- A control message is sent; what was handed to the socket is noted. -/
def send (C : Codec) (b : Bridge) (msg : ControlMessage) (w : Except IoError Unit) : Except Error Unit × Bridge :=
  let (result, frame) := b.conn.sendControl C msg w
  (result, b.note (frame.toList.map .wrote))

def endResize (b : Bridge) (asked : Asked) (clear : Except IoError Unit) (result : Except ErrorInfo Unit)
    (rest : List PendingControl) (shutdown : Bool) : Bridge :=
  let (result, b) := b.clearTimeout "resize" clear result
  b.answerResize asked result rest shutdown

/-- `resize_on_connection`, up to its wait. -/
def resizeOnConnection (C : Codec) (b : Bridge) (asked : Asked) (cols rows : Nat) (a : Answers)
    (rest : List PendingControl) (shutdown : Bool) : Bridge :=
  if cols = 0 ∨ rows = 0 then
    b.answerResize asked (.error
      { code := Code.invalidRequest,
        message := "cols/rows must be > 0 (got cols=" ++ toString cols ++ ", rows=" ++ toString rows ++ ")" })
      rest shutdown
  else if !b.conn.response.leader then
    b.answerResize asked (.error
      { code := ErrorCode.modeNotLeader.asStr, message := "WS attach connection is not the resize leader" })
      rest shutdown
  else
    match a.set with
    | .error io => b.answerResize asked (.error (.internal ("set resize timeout: " ++ (Error.io io).text))) rest shutdown
    | .ok _ =>
      let b := { b with conn := b.conn.setReadTimeout (some waitTimeout) }
      match b.send C (.resize cols rows) a.write₁ with
      | (.error e, b) => b.endResize asked a.clear (.error (.internal ("send resize: " ++ e.text))) rest shutdown
      | (.ok _, b) =>
        match b.send C .statusQuery a.write₂ with
        | (.error e, b) =>
          b.endResize asked a.clear (.error (.internal ("send status query: " ++ e.text))) rest shutdown
        | (.ok _, b) => { b with phase := .awaitingResize asked [] rest shutdown }

/-- After the wait of `leader_on_connection`. -/
def endLeader (b : Bridge) (requestId : Nat) (clear : Except IoError Unit) (result : Except ErrorInfo Unit)
    (rest : List PendingControl) (shutdown : Bool) : Bridge :=
  match b.clearTimeout "leader request" clear result with
  | (.error e, b) => b.answer (leaderResult requestId (.error e)) rest shutdown
  | (.ok _, b) =>
    match b.latestGrid with
    | some (cols, rows) => { b with phase := .leading requestId cols rows rest shutdown }
    | none => b.answer (leaderResult requestId (.ok ())) rest shutdown

/-- `leader_on_connection`, up to its wait. -/
def leaderOnConnection (C : Codec) (b : Bridge) (requestId : Nat) (a : Answers) (rest : List PendingControl)
    (shutdown : Bool) : Bridge :=
  if Cap.leaderRequestV1 ∉ b.conn.response.caps then
    b.answer (leaderResult requestId (.error
      { code := ErrorCode.unsupportedCapability.asStr,
        message := "daemon does not support " ++ Cap.leaderRequestV1.wire })) rest shutdown
  else
    match a.set with
    | .error io =>
      b.answer (leaderResult requestId (.error (.internal ("set leader request timeout: " ++ (Error.io io).text))))
        rest shutdown
    | .ok _ =>
      let b := { b with conn := b.conn.setReadTimeout (some waitTimeout) }
      match b.send C .leaderRequest a.write₁ with
      | (.error e, b) => b.endLeader requestId a.clear (.error (.internal ("send leader.request: " ++ e.text))) rest shutdown
      | (.ok _, b) => { b with phase := .awaitingLeader requestId [] rest shutdown }

/-- The next request of the drain. -/
def onControls (C : Codec) (b : Bridge) (a : Answers) (rest : List PendingControl) (shutdown : Bool) : Bridge :=
  match rest with
  | [] => if shutdown then b.finish (.ok ()) else { b with phase := .top }
  | .resize requestId cols rows :: rest =>
    let b := if cols > 0 ∧ rows > 0 then { b with latestGrid := some (cols, rows) } else b
    b.resizeOnConnection C (.resize requestId) cols rows a rest shutdown
  | .leaderRequest requestId :: rest => b.leaderOnConnection C requestId a rest shutdown

/-! ## The waits of the requests -/

/-- What one turn of a wait came to: it goes on, or ends with a result. -/
abbrev Turn := Option (Except ErrorInfo Unit) × Bridge

/-- The raw bytes skipped before a message go to the browser. -/
def forward (b : Bridge) (raw : Bytes) : Option Bridge := if raw = [] then some b else b.emit (.bytes raw)

/-- A message in the wait of `resize_on_connection`. -/
def resizeMessage (b : Bridge) : ControlMessage → Turn
  | .statusResponse _ => (some (.ok ()), b)
  | .error e => (some (.error { code := e.code.asStr, message := e.message }), b)
  | _ => (none, b)

/-- A message in the wait of `leader_on_connection`. -/
def leaderMessage (b : Bridge) : ControlMessage → Turn
  | .modeChange change =>
    match change.clientMode with
    | none => (none, b)
    | some mode =>
      let b := b.setMode mode
      match b.sendAttachInfo with
      | none => (some (.error (.internal "WS writer closed")), b)
      | some b => (none, b)
  | .leaderNotify clientId =>
    let b := b.setLeader clientId
    match b.sendAttachInfo with
    | none => (some (.error (.internal "WS writer closed")), b)
    | some b => if b.conn.response.leader then (some (.ok ()), b) else (none, b)
  | .error e => (some (.error { code := e.code.asStr, message := e.message }), b)
  | _ => (none, b)

/-- One turn of a wait: a frame is received, and a message handled by `handle` once the raw bytes before
it are forwarded. The bytes still skipped are returned with it. -/
def waitTurn (C : Codec) (b : Bridge) (awaiting : String) (handle : Bridge → ControlMessage → Turn) (raw : Bytes)
    (read : Except FrameError Frame) : Turn × Bytes :=
  let failed (e : Error) (b : Bridge) : Turn × Bytes :=
    ((some (.error (.internal ("await " ++ awaiting ++ " completion: " ++ e.text))), b), [])
  match b.conn.recvFrame read with
  | (.error e, conn) => failed e { b with conn }
  | (.ok frame, conn) =>
    let b := { b.note (readBy b.conn read) with conn }
    match ClientConnection.recvControlFrame C raw frame with
    | (none, raw) => ((none, b), raw)
    | (some (.error e), _) => failed e b
    | (some (.ok message), raw) =>
      match b.forward raw with
      | none => ((some (.error (.internal "WS writer closed")), b), [])
      | some b => (handle b message, [])

def onReceive (C : Codec) (b : Bridge) (read : Except FrameError Frame) (clear : Except IoError Unit) : Option Bridge :=
  match b.phase with
  | .awaitingResize asked raw rest shutdown =>
    match b.waitTurn C "resize" resizeMessage raw read with
    | ((none, b), raw) => some { b with phase := .awaitingResize asked raw rest shutdown }
    | ((some result, b), _) => some (b.endResize asked clear result rest shutdown)
  | .awaitingLeader requestId raw rest shutdown =>
    match b.waitTurn C "leader.request" leaderMessage raw read with
    | ((none, b), raw) => some { b with phase := .awaitingLeader requestId raw rest shutdown }
    | ((some result, b), _) => some (b.endLeader requestId clear result rest shutdown)
  | _ => none

/-! ## Steps -/

/-- How `poll` returns. -/
inductive Poll where
  | interrupted
  | failed (message : String)
  | ready (reader wake : Bool)

inductive Event where
  | browser (cmd : BridgeCmd)
  | readerGone
  | writerGone
  | poll (p : Poll) (read : Except FrameError Frame) (w : Except IoError Unit)
  | ackWait (e : ClientConnection.AckWait)
  | control (a : Answers)
  | receive (read : Except FrameError Frame) (clear : Except IoError Unit)

/-- One pass of the loop from `poll` to where it waits next. -/
def onPoll (C : Codec) (b : Bridge) (p : Poll) (read : Except FrameError Frame) (w : Except IoError Unit) : Bridge :=
  match p with
  | .interrupted => b
  | .failed message => b.finish (.error ("poll: " ++ message))
  | .ready reader wake =>
    let b := if reader then b.onReader C read else b
    if b.phase = .top ∧ wake then b.onWake w else b

def step (C : Codec) (b : Bridge) : Event → Option Bridge
  | .browser cmd => if b.inputClosed then none else some { b with input := b.input ++ [cmd] }
  | .readerGone => some { b with inputClosed := true }
  | .writerGone => some { b with writerOpen := false }
  | .poll p read w => if b.phase = .top then some (b.onPoll C p read w) else none
  | .ackWait e =>
    match b.phase with
    | .awaitingAck rest shutdown => some (b.onAckWait C e rest shutdown)
    | _ => none
  | .control a =>
    match b.phase with
    | .controls rest shutdown => some (b.onControls C a rest shutdown)
    | .leading requestId cols rows rest shutdown =>
      some (b.resizeOnConnection C (.leader requestId) cols rows a rest shutdown)
    | _ => none
  | .receive read clear => b.onReceive C read clear

/-- After the handshake, `hello` and the first `attach.info`. -/
def start (G : Gateway) (response : HandshakeResponse) : Bridge where
  conn := { response }
  log := [.output (.control (.hello webProtocolVersion G.version G.buildId response.caps (some G.authExpiresAt))),
    .output (.control (.attachInfo (.ofMode response.mode) response.leader))]

end Bridge

/-- The bridge of one connection. -/
def bridge (C : Codec) (G : Gateway) (response : HandshakeResponse) : System Bridge Bridge.Event where
  init b := b = .start G response
  step b e := b.step C e

end Hyoui.Web
