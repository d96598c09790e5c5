import Hyoui.Daemon.State
/-!
# The reducer and its effects

Client input goes through a reducer: a message changes the state of a domain and emits effects,
the effects are executed, and their outcomes come back as messages until nothing is left to do.
The tty, child, serve and screen domains have no state and answer every message with nothing, as
the client domain does for `FrameReceived`: the loop's messages to them are left out.
-/

namespace Hyoui.Daemon

open Hyoui.Protocol

def maxCrossDomainDepth : Nat := 64
def maxFeedbackRounds : Nat := 8
def masterWriteIdleTimeoutMs : Nat := 500

inductive TtyWriteErrorKind where
  | idleTimeout
  | io (message : String)
deriving DecidableEq

inductive EffectOutcome where
  | ok
  | ttyWrite (writtenLen requestedLen : Nat) (error : Option TtyWriteErrorKind)
  | failed
deriving DecidableEq

structure PendingWrite where
  seq : Nat
  clientId : ClientId
  bytes : Bytes
deriving DecidableEq

structure PendingAck where
  seq : Nat
  clientId : ClientId
deriving DecidableEq

structure ClientRegistry where
  pendingWrite : Option PendingWrite := none
  pendingAck : Option PendingAck := none
  nextEffectSeq : Nat := 0
deriving DecidableEq

inductive ClientMsg where
  | rawDataReceived (clientId : ClientId) (mode : Mode) (bytes : Bytes)
  | detached (clientId : ClientId)
deriving DecidableEq

/-- The messages the serve loop sends, and the outcomes of effects. -/
inductive DaemonMsg where
  | client (msg : ClientMsg)
  | lock (msg : LockMsg)
  | effectResult (id : EffectId) (outcome : EffectOutcome)
deriving DecidableEq

structure DaemonState where
  clients : ClientRegistry := {}
  lock : LockState := {}
deriving DecidableEq

structure DomainOutput where
  effects : List Effect := []
  cross : List DaemonMsg := []

/-! ## The client reducer -/

namespace ClientRegistry

/-- An effect under the next sequence number. -/
def emit (s : ClientRegistry) (kind : EffectKind) : ClientRegistry × Effect :=
  ({ s with nextEffectSeq := s.nextEffectSeq + 1 }, { id := { domain := .client, seq := s.nextEffectSeq }, kind })

/-- Input refused: it is recorded, and the refusal is acked. -/
def rejectInput (s : ClientRegistry) (clientId : ClientId) (mode : Mode) (lockHolder : Option ClientId)
    (reason : InRejectedReason) (bytes : Bytes) (ack : RawAck) : ClientRegistry × DomainOutput :=
  let (s, recorded) := s.emit (.record (.inRejected clientId mode lockHolder reason bytes))
  let (s, acked) := s.emit (.clientRawAck clientId ack)
  ({ s with pendingAck := some { seq := acked.id.seq, clientId } }, { effects := [recorded, acked] })

def reduceRawData (s : ClientRegistry) (lock : LockState) (clientId : ClientId) (mode : Mode) (bytes : Bytes) :
    ClientRegistry × DomainOutput :=
  if mode = .ro then
    s.rejectInput clientId mode lock.holder .roClient bytes
      (.err codeClientRoRejected "client is read-only; input rejected by daemon")
  else if lock.holder.isSome ∧ lock.holder ≠ some clientId then
    s.rejectInput clientId mode lock.holder .lockNotHeld bytes
      (.err codeClientLockNotHeld "lock is held by another client; input rejected")
  else
    let (s, write) := s.emit (.ttyWrite bytes)
    ({ s with pendingWrite := some { seq := write.id.seq, clientId, bytes } }, { effects := [write] })

def reduce (s : ClientRegistry) (lock : LockState) : ClientMsg → ClientRegistry × DomainOutput
  | .detached clientId => (s, { cross := [.lock (.clientDisconnected clientId)] })
  | .rawDataReceived clientId mode bytes => s.reduceRawData lock clientId mode bytes

/-- Several effects, numbered in order. -/
def emitAll (s : ClientRegistry) : List EffectKind → ClientRegistry × List Effect
  | [] => (s, [])
  | k :: ks =>
    let (s, e) := s.emit k
    let (s, es) := s.emitAll ks
    (s, e :: es)

def timeoutText (writtenLen requestedLen : Nat) : String :=
  s!"master PTY write made no forward progress for {masterWriteIdleTimeoutMs} ms (child is a slow reader); " ++
    s!"disconnecting client (written={writtenLen}/{requestedLen})"

/-- The code and the message of the ack for a write that did not complete. -/
def failedWriteAck (writtenLen requestedLen : Nat) : Option TtyWriteErrorKind → RawAck
  | some .idleTimeout => .err codeMasterWriteTimeout (timeoutText writtenLen requestedLen)
  | some (.io errno) =>
    .err codeMasterWriteError
      s!"master PTY write failed with I/O error {errno} (written={writtenLen}/{requestedLen})"
  | none =>
    .err codeMasterWritePartial
      s!"master PTY write returned partial without error (written={writtenLen}/{requestedLen})"

def writeErrorKind : TtyWriteErrorKind → WriteErrorKind
  | .idleTimeout => .idleTimeout
  | .io message => .ioError message

/-- The records of a PTY write: what reached the child, and what did not. -/
def writeRecords (pw : PendingWrite) (writtenLen requestedLen : Nat) (error : Option TtyWriteErrorKind) :
    List EffectKind :=
  (if writtenLen > 0 then [.record (.bytesIn pw.clientId (pw.bytes.take writtenLen))] else []) ++
    match error with
    | some err =>
      [.record (.inWriteError pw.clientId requestedLen writtenLen (writeErrorKind err) (pw.bytes.drop writtenLen))]
    | none => []

def finishWrite (s : ClientRegistry) (pw : PendingWrite) : EffectOutcome → ClientRegistry × DomainOutput
  | .ttyWrite writtenLen requestedLen error =>
    let (s, records) := s.emitAll (writeRecords pw writtenLen requestedLen error)
    if error.isNone ∧ writtenLen = requestedLen then
      let (s, acked) := s.emit (.clientRawAck pw.clientId .ok)
      ({ s with pendingAck := some { seq := acked.id.seq, clientId := pw.clientId } },
        { effects := records ++ [acked] })
    else
      let notice : List EffectKind :=
        if error = some .idleTimeout then
          [.clientReply pw.clientId
            (.error { code := .masterWriteTimeout, message := timeoutText writtenLen requestedLen })]
        else []
      let (s, rest) := s.emitAll
        ([.clientRawAck pw.clientId (failedWriteAck writtenLen requestedLen error)] ++ notice ++
          [.clientDisconnect pw.clientId])
      (s, { effects := records ++ rest })
  | .ok | .failed =>
    let (s, e) := s.emit (.clientDisconnect pw.clientId)
    (s, { effects := [e] })

def reduceEffectResult (s : ClientRegistry) (seq : Nat) (outcome : EffectOutcome) : ClientRegistry × DomainOutput :=
  match s.pendingWrite.filter (·.seq = seq) with
  | some pw => { s with pendingWrite := none }.finishWrite pw outcome
  | none =>
    match s.pendingAck.filter (·.seq = seq) with
    | some pa =>
      let s := { s with pendingAck := none }
      if outcome = .ok then (s, {})
      else
        let (s, e) := s.emit (.clientDisconnect pa.clientId)
        (s, { effects := [e] })
    | none => (s, {})

end ClientRegistry

/-! ## Dispatch -/

namespace DaemonState

def dispatch (d : DaemonState) : DaemonMsg → DaemonState × DomainOutput
  | .client msg =>
    let (clients, out) := d.clients.reduce d.lock msg
    ({ d with clients }, out)
  | .lock msg =>
    let (lock, effects, _) := d.lock.reduceMsg msg
    ({ d with lock }, { effects })
  | .effectResult id outcome =>
    match id.domain with
    | .client =>
      let (clients, out) := d.clients.reduceEffectResult id.seq outcome
      ({ d with clients }, out)
    | .lock => (d, {})

/-- `drive`, for at most `fuel` messages. Only `detached` has a follow-up, and that has none
(`drive_settles`), so two are enough for any message. -/
def drive (fuel : Nat) (d : DaemonState) (queue : List DaemonMsg) : DaemonState × List Effect :=
  match fuel, queue with
  | 0, _ | _, [] => (d, [])
  | fuel + 1, msg :: queue =>
    let (d, out) := d.dispatch msg
    let queue := queue ++ out.cross
    if queue.length > maxCrossDomainDepth then (d, out.effects)
    else
      let (d, effects) := drive fuel d queue
      (d, out.effects ++ effects)

def handle (d : DaemonState) (msg : DaemonMsg) : DaemonState × List Effect := drive 2 d [msg]

/-- `handle`, message after message. -/
def handleAll (d : DaemonState) : List DaemonMsg → DaemonState × List Effect
  | [] => (d, [])
  | msg :: msgs =>
    let (d, effects) := d.handle msg
    let (d, more) := d.handleAll msgs
    (d, effects ++ more)

end DaemonState

/-! ## Executing effects -/

/-- One step of `write_all_with_idle_timeout`. -/
inductive TtyStep where
  | wrote (n : Nat)
  | interrupted
  | writable
  | idle
  | hangup
  | error (errno : String)
deriving DecidableEq

/-- The PTY write loop over what is left to write: the bytes written and the error. Where the
steps end, the kernel takes the rest. -/
def writeAllWithIdleTimeout (data : Bytes) : List TtyStep → Nat × Option TtyWriteErrorKind
  | [] => (data.length, none)
  | step :: steps =>
    if data.isEmpty then (0, none)
    else match step with
      | .wrote 0 => (0, some (.io "EIO"))
      | .wrote (k + 1) =>
        let n := min (k + 1) data.length
        let (written, error) := writeAllWithIdleTimeout (data.drop n) steps
        (n + written, error)
      | .interrupted => writeAllWithIdleTimeout data steps
      | .writable => writeAllWithIdleTimeout data steps
      | .idle => (0, some .idleTimeout)
      | .hangup => (0, some (.io "EIO"))
      | .error errno => (0, some (.io errno))

/-- The `ExecuteCtx`: the session, the clients to disconnect, and the PTY where it is there to
write to (with the steps its next writes take). -/
structure ExecuteCtx where
  session : Session
  overflowIds : List ClientId := []
  tty : Option (List TtyStep) := none

variable (W : World)

def recordEvent : RecordEntry → RecordEvent
  | .bytesIn clientId bytes => .bytesIn clientId bytes
  | .inWriteError clientId requestedLen writtenLen error unwritten =>
    .inWriteError clientId requestedLen writtenLen error unwritten
  | .inRejected clientId mode lockHolder reason bytes => .inRejected clientId mode lockHolder reason bytes

def replyOutcome (outcome : Option EnqueueOutcome) : EffectOutcome :=
  if outcome = some .sent then .ok else .failed

/-- A send to the client with this id, if it is attached. -/
def ExecuteCtx.sendTo (ctx : ExecuteCtx) (clientId : ClientId)
    (send : ClientHandle → ClientHandle × Option EnqueueOutcome) : ExecuteCtx × EffectOutcome :=
  match ctx.session.clients.findIdx? (·.id = clientId) with
  | none => (ctx, .failed)
  | some idx =>
    let (session, outcome) := ctx.session.sendIgnoring idx send
    ({ ctx with session }, replyOutcome outcome)

/-- One effect: the outcome it reports, where it reports one. `Record` needs the registry and
`TtyWrite` the PTY; both are there exactly for client input. -/
def ExecuteCtx.executeOne (ctx : ExecuteCtx) : EffectKind → ExecuteCtx × Option EffectOutcome
  | .clientReply clientId message =>
    let (ctx, outcome) := ctx.sendTo clientId (sendControl W · message)
    (ctx, some outcome)
  | .clientBroadcast message =>
    let (session, failed) := ctx.session.broadcastControl W message
    ({ ctx with session, overflowIds := ctx.overflowIds ++ failed }, some .ok)
  | .ttyWrite bytes =>
    match ctx.tty with
    | none => (ctx, none)
    | some steps =>
      let (written, error) := writeAllWithIdleTimeout bytes steps
      ({ ctx with session := ctx.session.logs (.ptyWrite (bytes.take written)) },
        some (.ttyWrite written bytes.length error))
  | .clientRawAck clientId ack =>
    let (ctx, outcome) := ctx.sendTo clientId (sendRawAck W · ack)
    (ctx, some outcome)
  | .clientDisconnect clientId => ({ ctx with overflowIds := ctx.overflowIds ++ [clientId] }, none)
  | .record entry =>
    if ctx.tty.isSome then ({ ctx with session := ctx.session.logs (.push (recordEvent entry)) }, none)
    else (ctx, none)

def ExecuteCtx.execute (ctx : ExecuteCtx) : List Effect → ExecuteCtx × List DaemonMsg
  | [] => (ctx, [])
  | e :: es =>
    let (ctx, outcome) := ctx.executeOne W e.kind
    let (ctx, results) := ctx.execute es
    (ctx, match outcome with
      | some outcome => .effectResult e.id outcome :: results
      | none => results)

/-- `execute_with_feedback_ctx`, for at most `rounds` rounds. -/
def feedbackRounds : Nat → DaemonState → List Effect → ExecuteCtx → DaemonState × ExecuteCtx
  | 0, d, _, ctx => (d, ctx)
  | _, d, [], ctx => (d, ctx)
  | rounds + 1, d, e :: es, ctx =>
    let (ctx, feedback) := ctx.execute W (e :: es)
    let (d, effects) := d.handleAll feedback
    feedbackRounds rounds d effects ctx

def executeWithFeedbackCtx (d : DaemonState) (effects : List Effect) (ctx : ExecuteCtx) : DaemonState × ExecuteCtx :=
  feedbackRounds W maxFeedbackRounds d effects ctx

/-- `execute_with_feedback`: no PTY and no record registry. -/
def executeWithFeedback (d : DaemonState) (effects : List Effect) (s : Session) (overflowIds : List ClientId) :
    DaemonState × Session × List ClientId :=
  let (d, ctx) := executeWithFeedbackCtx W d effects { session := s, overflowIds }
  (d, ctx.session, ctx.overflowIds)

end Hyoui.Daemon
