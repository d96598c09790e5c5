import Hyoui.Web.Moves
/-!
# The bridge and the daemon beside it

`resize_on_connection` sends the resize and a status query, and takes the next `status.response` for the
barrier behind it; `leader_on_connection` takes the next notice that names this client. Both take the next
`error` for theirs. No message says which one it answers: here every frame of the daemon carries the
written message it answers, and `Settled.Answered` says that a result rests on such frames.
-/

namespace Hyoui.Web

open Hyoui.Lib Hyoui.Protocol Hyoui.Client

/-! ## What the bridge asks and tells -/

def Act.frameWritten : Act → Option Frame
  | .wrote frame => some frame
  | _ => none

/-- The result of a request. -/
def Act.result : Act → Option ServerFrame
  | .output (.control (.resizeResult requestId ok error)) => some (.resizeResult requestId ok error)
  | .output (.control (.leaderResult requestId ok error)) => some (.leaderResult requestId ok error)
  | _ => none

/-- Whether a request is under way, and whether its leader is still to come. -/
def Phase.asks : Phase → Option Bool
  | .awaitingLeader .. => some true
  | .leading .. | .awaitingResize .. => some false
  | _ => none

def PendingControl.asksLeader : PendingControl → Bool
  | .resize .. => false
  | .leaderRequest _ => true

namespace Bridge

def written (b : Bridge) : List Frame := b.log.filterMap Act.frameWritten

def results (b : Bridge) : List ServerFrame := b.log.filterMap Act.result

/-- The request an event starts. -/
def starts (b : Bridge) : Event → Option PendingControl
  | .control _ =>
    match b.phase with
    | .controls (control :: _) _ => some control
    | _ => none
  | _ => none

end Bridge

/-- The message in a control frame. -/
def messageOf (C : Codec) (f : Frame) : Option ControlMessage :=
  if f.ty = typeCborControl then C.decode f.body else none

def isStatus (C : Codec) (f : Frame) : Bool :=
  match messageOf C f with
  | some (.statusResponse _) => true
  | _ => false

/-- The notice that `own` leads. -/
def namesLeader (C : Codec) (own : ClientId) (f : Frame) : Bool := messageOf C f = some (.leaderNotify (some own))

def errorIn (C : Codec) (f : Frame) : Option ErrorInfo :=
  match messageOf C f with
  | some (.error e) => some { code := e.code.asStr, message := e.message }
  | _ => none

/-- What a request takes for its answer, in this wait or in the one after it. -/
def awaited (C : Codec) (own : ClientId) (leader : Bool) (f : Frame) : Bool :=
  isStatus C f || (errorIn C f).isSome || leader && namesLeader C own f

def queryFrame (C : Codec) : Option Frame := (C.encode .statusQuery).map .cborControl

/-! ## The daemon beside the bridge -/

/-- A frame of the daemon, and which of the frames written by the bridge it answers. -/
structure Delivery where
  frame : Frame
  answers : Option Nat := none
deriving DecidableEq

/-- What is on the socket and what the bridge has set aside; `cut` once a read ended inside a frame. -/
structure Wire where
  inbox : List Delivery := []
  aside : List Delivery := []
  cut : Bool := false
deriving DecidableEq

namespace Wire

def flight (w : Wire) : List Delivery := w.aside ++ w.inbox

def read (w : Wire) (cut : Bool) : Except FrameError Frame → Option (Option Delivery × Wire)
  | .error _ => some (none, if cut then { w with inbox := [], cut } else w)
  | .ok frame =>
    match w.inbox with
    | d :: rest => if d.frame = frame then some (some d, { w with inbox := rest }) else none
    | [] => none

def recv (w : Wire) (cut : Bool) (read : Except FrameError Frame) : Option (Option Delivery × Wire) :=
  match w.aside with
  | d :: rest => some (some d, { w with aside := rest })
  | [] => w.read cut read

def setAside (w : Wire) : Option Delivery → Wire
  | some d => if d.frame.ty = typeRawAck then w else { w with aside := w.aside ++ [d] }
  | none => w

/-- The frame an event of the bridge receives; `none` where it reads what is not there. `cut` is of a read
that fails. -/
def deliver (w : Wire) (cut : Bool) : Bridge.Event → Option (Option Delivery × Wire)
  | .poll (.ready true _) read _ | .receive read _ => w.recv cut read
  | .ackWait (.read read) => (w.read cut read).map fun (taken, w) => (none, w.setAside taken)
  | _ => some (none, w)

end Wire

/-- A request that was answered: what the browser was told, which messages were written for it, and the frames
that ended its waits. -/
structure Settled where
  result : ServerFrame
  since : Nat
  upTo : Nat
  ended : List Delivery
deriving DecidableEq

structure Link where
  bridge : Bridge
  wire : Wire := {}
  /-- How many of the written messages the daemon has handled. -/
  handled : Nat := 0
  since : Nat := 0
  ended : List Delivery := []
  settled : List Settled := []

namespace Link

inductive Label where
  | bridge (e : Bridge.Event) (cut : Bool)
  /-- The daemon handles the oldest message it has not handled. -/
  | answer (frames : List Frame)
  | announce (frame : Frame)

/-- Of the frames received in a wait, those that can end it. -/
def ending (C : Codec) (own : ClientId) (phase : Phase) (taken : Option Delivery) : List Delivery :=
  taken.toList.filter fun d => phase.asks.any fun leader => awaited C own leader d.frame

/-- Since when the request is under way and what has ended its waits, after an event. -/
def request (C : Codec) (own : ClientId) (s : Link) (e : Bridge.Event) (taken : Option Delivery) :
    Nat × List Delivery :=
  match s.bridge.starts e with
  | some _ => (s.bridge.written.length, [])
  | none => (s.since, s.ended ++ ending C own s.bridge.phase taken)

def onBridge (C : Codec) (own : ClientId) (s : Link) (e : Bridge.Event) (cut : Bool) : Option Link :=
  match s.bridge.step C e, s.wire.deliver cut e with
  | some bridge, some (taken, wire) =>
    let (since, ended) := s.request C own e taken
    let told := (bridge.log.drop s.bridge.log.length).filterMap Act.result
    some { s with
      bridge, wire, since, ended
      settled := s.settled ++ told.map fun result => { result, since, upTo := bridge.written.length, ended } }
  | _, _ => none

/-- Only a status query is answered with the status. After a cut nothing tells what the bytes read as. -/
def step (C : Codec) (own : ClientId) (s : Link) : Label → Option Link
  | .bridge e cut => s.onBridge C own e cut
  | .answer frames =>
    match s.bridge.written[s.handled]? with
    | none => none
    | some message =>
      if s.wire.cut = false ∧ ∀ f ∈ frames, isStatus C f = true → some message = queryFrame C then
        some { s with
          wire.inbox := s.wire.inbox ++ frames.map fun frame => { frame, answers := some s.handled }
          handled := s.handled + 1 }
      else none
  | .announce frame =>
    if s.wire.cut = true ∨ isStatus C frame = false then
      some { s with wire.inbox := s.wire.inbox ++ [{ frame }] }
    else none

end Link

def link (C : Codec) (G : Gateway) (response : HandshakeResponse) : System Link Link.Label where
  init s := s = { bridge := .start G response }
  step s l := s.step C response.clientId l

/-! ## Answered by its own answer -/

/-- The errors `resize_on_connection` and `leader_on_connection` make themselves. -/
inductive OwnError : ErrorInfo → Prop
  | internal (message : String) : OwnError (.internal message)
  | grid (message : String) : OwnError { code := Code.invalidRequest, message }
  | notLeader : OwnError
      { code := ErrorCode.modeNotLeader.asStr, message := "WS attach connection is not the resize leader" }
  | unsupported : OwnError
      { code := ErrorCode.unsupportedCapability.asStr,
        message := "daemon does not support " ++ Cap.leaderRequestV1.wire }

/-- The error of a resize, as the result of a leader request. -/
def afterLeader (e : ErrorInfo) : ErrorInfo := { e with message := "leader acquired but resize failed: " ++ e.message }

/-- The bridge made the error itself, or it came in one of `ended`. -/
def Caused (C : Codec) (ended : List Delivery) (e : ErrorInfo) : Prop :=
  OwnError e ∨ ∃ d ∈ ended, errorIn C d.frame = some e

/-- What `ended` has to hold for a result. -/
def Fits (C : Codec) (own : ClientId) (ended : List Delivery) : ServerFrame → Prop
  | .resizeResult _ ok error =>
    (ok = true → ∃ d ∈ ended, isStatus C d.frame) ∧ ∀ e, error = some e → Caused C ended e
  | .leaderResult _ ok error =>
    (ok = true → ∃ d ∈ ended, namesLeader C own d.frame) ∧
      ∀ e, error = some e → Caused C ended e ∨ ∃ e', e = afterLeader e' ∧ Caused C ended e'
  | _ => True

/-- A frame that answers one of the messages written from `since` up to `upTo`, a status the query. -/
def Delivery.Replies (C : Codec) (written : List Frame) (since upTo : Nat) (d : Delivery) : Prop :=
  ∃ i, d.answers = some i ∧ since ≤ i ∧ i < upTo ∧ (isStatus C d.frame → written[i]? = queryFrame C)

/-- The result says what the daemon's answers to this request said. -/
structure Settled.Answered (C : Codec) (own : ClientId) (written : List Frame) (x : Settled) : Prop where
  fits : Fits C own x.ended x.result
  replies : ∀ d ∈ x.ended, d.Replies C written x.since x.upTo

/-- Whether what can end a wait of `control` is still on its way when the request starts. -/
def Link.leftOver (C : Codec) (own : ClientId) (s : Link) (control : PendingControl) : Prop :=
  (s.wire.cut = false ∧ s.handled < s.bridge.written.length) ∨
    ∃ d ∈ s.wire.flight, awaited C own control.asksLeader d.frame = true

/-- A request starts with nothing left over, and during its waits the daemon sends nothing unasked that it would
take for its answer. -/
def Link.Timely (C : Codec) (own : ClientId) (s : Link) : Link.Label → Prop
  | .bridge e _ => ∀ control, s.bridge.starts e = some control → ¬ s.leftOver C own control
  | .answer _ => True
  | .announce frame => ∀ leader, s.bridge.phase.asks = some leader → awaited C own leader frame = false

end Hyoui.Web
