import Hyoui.Daemon.Accept
/-!
# Handling a client's frame

One handler for each control message a client may send, and `handleClientFrame`, which also
feeds raw input to the reducer. A handler works on the session and on the client at index `idx`;
what it needs from outside (a token, a PTY, the upgrade precheck) is in `FrameEnv`. The replies
it sends are not checked: an overflow of one is in `missed`.
-/

namespace Hyoui.Daemon

open Hyoui.Protocol

/-- How the serve loop ends. -/
inductive RelayOutcome where
  | childExited (code : Option Int)
  | clientDetachedOrKilled
  | error
  | upgradeRequested
deriving DecidableEq

inductive ClientFrameOutcome where
  | continue
  | dropClient
  | dropClients (indices : List Nat) (cancelPending : Bool)
  | terminateSession (outcome : RelayOutcome)
deriving DecidableEq

/-- What the handling of one frame meets outside the daemon. -/
structure FrameEnv where
  tty : List TtyStep := []
  /-- `generate_lock_token`: the token, or the error text. -/
  token : Except String String := .error ""
  /-- `precheck_path`: the error text, where it fails. -/
  precheckPath : String → Option String := fun _ => none
  /-- `precheck_upgrade_target`: the error text, where it fails. -/
  precheckUpgradeTarget : Option String := none
  /-- `kill(child, None)` succeeds. -/
  childAlive : Bool := true
  childPgid : Option Nat := none
  now : Instant := 0
  unixMs : Nat := 0

variable (W : World) (cfg : Config)

abbrev Handled := Session × ClientFrameOutcome

/-! ## Checks shared by the handlers -/

def refuse (s : Session) (idx : Nat) (code : ErrorCode) (message : String) : Session :=
  s.reply W idx (.error { code, message })

/-- A handler behind a check: where it fails the client gets an error and nothing else happens. -/
def guarded (s : Session) (idx : Nat) (ok : ClientHandle → Bool) (code : ErrorCode) (message : String)
    (k : ClientHandle → Handled) : Handled :=
  match s.clients[idx]? with
  | none => (s, .continue)
  | some ch => if ok ch then k ch else (refuse W s idx code message, .continue)

def ensureCap (s : Session) (idx : Nat) (cap : Cap) (message : String) (k : ClientHandle → Handled) : Handled :=
  guarded W s idx (fun ch => cap ∈ ch.negotiatedCaps) .unsupportedCapability message k

def ensureRwMode (s : Session) (idx : Nat) (message : String) (k : ClientHandle → Handled) : Handled :=
  guarded W s idx (fun ch => ch.mode = .rw) .modeNotAllowed message k

def ensureNotRo (s : Session) (idx : Nat) (message : String) (k : ClientHandle → Handled) : Handled :=
  guarded W s idx (fun ch => ch.mode ≠ .ro) .modeNotAllowed message k

def ensureLeader (s : Session) (idx : Nat) (message : String) (k : ClientHandle → Handled) : Handled :=
  guarded W s idx (fun ch => ch.leader) .modeNotLeader message k

/-! ## Detach, kill, signal, resize -/

def detachDenied : String :=
  "detach target=others/all requires rw mode (= read-only client cannot detach other clients)"
def killDenied : String := "kill requires rw mode (= leader-eligible)"
def signalDenied : String := "signal requires rw mode"
def resizeDenied : String := "resize requires leader role"
def signalInvalidText (name : String) : String := s!"invalid signal name: {name}"

def handleDetachTarget (s : Session) (idx : Nat) (target : DetachTarget) : Handled :=
  match target with
  | .myself => (s, .dropClient)
  | .others =>
    ensureNotRo W s idx detachDenied fun _ =>
      let others := (List.range s.clients.length).filter (· ≠ idx)
      (s.reply W idx (.detachAck others.length), .dropClients others true)
  | .all =>
    ensureNotRo W s idx detachDenied fun _ =>
      (s.reply W idx (.detachAck s.clients.length), .dropClients (List.range s.clients.length) true)

def signalShouldContFirst (sig : Signal) : Bool :=
  sig = sigTerm || sig = sigInt || sig = sigHup || sig = sigQuit || sig = sigAbrt

def handleKill (s : Session) (idx : Nat) (signal : Option String) (wait : Bool) : Handled :=
  ensureRwMode W s idx killDenied fun _ =>
    let name := signal.getD "SIGTERM"
    match (if signal.isNone then some sigTerm else W.parseSignal name) with
    | none => (refuse W s idx .signalInvalid (signalInvalidText name), .continue)
    | some sig =>
      let s := if signalShouldContFirst sig then s.logs (.kill sigCont) else s
      let s := s.logs (.kill sig)
      if wait then (s, .terminateSession .clientDetachedOrKilled)
      else (s.reply W idx (.killAck (W.signalName sig)), .continue)

def handleSignal (s : Session) (idx : Nat) (signal : String) : Handled :=
  ensureNotRo W s idx signalDenied fun _ =>
    match W.parseSignal signal with
    | none => (refuse W s idx .signalInvalid (signalInvalidText signal), .continue)
    | some sig => (s.logs (.kill sig), .continue)

def handleResize (s : Session) (idx : Nat) (cols rows : Nat) : Handled :=
  ensureLeader W s idx resizeDenied fun _ =>
    let (cols, rows) := normalizeSize cols rows
    let s := s.logs (.ptyResize cols rows)
    ({ s with screen := s.screen ++ [.resize rows cols] }, .continue)

/-! ## Leader and lock -/

def leaderUnsupported : String := "leader.request requires `leader-request-v1` cap"
def leaderDenied : String := "leader.request requires a writable mode (= rw / rw-no-leader)"
def lockUnsupported : String := "lock.acquire requires `lock` cap"
def lockTokenText (e : String) : String := s!"lock token generation failed (urandom unavailable): {e}; retry later"

def handleLeaderRequest (s : Session) (lock : LockState) (idx : Nat) : Handled :=
  ensureCap W s idx .leaderRequestV1 leaderUnsupported fun _ =>
    ensureNotRo W s idx leaderDenied fun ch =>
      match takeLeader s.clients idx ch with
      | (_, .alreadyLeader clientId) => (s.reply W idx (.leaderNotify (some clientId)), .continue)
      | (clients, .taken clientId modeChanged) =>
        let s := { s with clients }
        let s :=
          if modeChanged then
            s.reply W idx
              (.modeChange { sessionMode := lock.sessionMode, lockHolder := lock.holder, clientMode := some .rw })
          else s
        (s.broadcastControlIgnoring W (.leaderNotify (some clientId)), .continue)

/-- `execute_with_feedback` with an overflow list that nobody looks at. -/
def executeIgnoringOverflow (d : DaemonState) (effects : List Effect) (s : Session) : Session × DaemonState :=
  let (d, s, overflow) := executeWithFeedback W d effects s []
  (s.ignore overflow, d)

abbrev HandledWith := Session × DaemonState × ClientFrameOutcome

/-- A handler that leaves the daemon's domains alone. -/
def withDaemon (d : DaemonState) (h : Handled) : HandledWith := (h.1, d, h.2)

def lockModeError : String := "lock.acquire requires rw mode (= Ro cannot hold lock)"

def handleLockAcquire (env : FrameEnv) (s : Session) (d : DaemonState) (idx : Nat) : HandledWith :=
  match s.clients[idx]? with
  | none => (s, d, .continue)
  | some ch =>
    if .lock ∉ ch.negotiatedCaps then
      (refuse W s idx .unsupportedCapability lockUnsupported, d, .continue)
    else if ch.mode = .ro then (refuse W s idx .modeNotAllowed lockModeError, d, .continue)
    else
      let (lock, effects, events) := d.lock.reduceMsg (.acquire ch.id none)
      let d := { d with lock }
      if events.any fun e => match e with | .tokenRequired _ => true | _ => false then
        match env.token with
        | .error e =>
          let s := s.reply W idx (.lockResponse { result := .denied, token := none, queuePosition := none })
          (refuse W s idx .internalError (lockTokenText e), d, .continue)
        | .ok token =>
          let (lock, effects, events) := d.lock.reduceMsg (.acquire ch.id (some token))
          let s := if events.any fun e => match e with | .acquired _ _ true => true | _ => false then
            s.pushLifecycle (.lockAcquired ch.id) else s
          let (s, d) := executeIgnoringOverflow W { d with lock } effects s
          (s, d, .continue)
      else
        let (s, d) := executeIgnoringOverflow W d effects s
        (s, d, .continue)

/-- No capability is asked for, and none is needed to hold a lock. -/
def handleLockRelease (s : Session) (d : DaemonState) (idx : Nat) (token : String) : HandledWith :=
  match s.clients[idx]? with
  | none => (s, d, .continue)
  | some ch =>
    let (lock, effects, events) := d.lock.reduceMsg (.release ch.id token)
    let s := if events.any fun e => match e with | .released _ _ => true | _ => false then
      s.pushLifecycle (.lockReleased ch.id) else s
    let (s, d) := executeIgnoringOverflow W { d with lock } effects s
    (s, d, .continue)

/-! ## Recording -/

def recordStartUnsupported : String := "record.start.request requires `record-v1` cap"
def recordStopUnsupported : String := "record.stop.request requires `record-v1` cap"
def recordStopAllUnsupported : String := "record.stop.all.request requires `record-v1` cap"
def recordListUnsupported : String := "record.list.request requires `record-v1` cap"
def recordNotFoundText (recordId : Nat) : String := s!"record not found: id={recordId}"

def sessionInfo : SessionInfo := {
  sessionId := cfg.sessionId
  daemonPid := cfg.daemonPid
  daemonBootId := cfg.daemonBootId
  argv := cfg.cmd
  cwd := cfg.cwd.getD "/" }

def recordStartErrorToProtocol : RecordStartError → ErrorCode × String
  | .pathNotAbsolute => (.recordPathNotAbsolute, "record output path must be absolute")
  | .outputAlreadyExists => (.recordOutputAlreadyExists, "record output file already exists")
  | .outputPermissionDenied msg => (.recordOutputPermissionDenied, s!"record output denied: {msg}")
  | .unsupportedDirectionForFormat =>
    (.recordUnsupportedDirectionForFormat, "record raw format requires single direction (stdin or stdout, not both)")
  | .invalidPromptPattern msg => (.recordInvalidPromptPattern, s!"invalid prompt pattern regex: {msg}")
  | .redactionUnimplemented =>
    (.recordRedactionUnimplemented,
      "record input-secrecy=redact-after-prompt is not yet implemented (Phase 5); use record-all or never-record-stdin")
  | .io e => (.internalError, s!"record io error: {e}")

def handleRecordStartRequest (s : Session) (idx : Nat) (req : RecordStartRequest) : Handled :=
  ensureCap W s idx .recordV1 recordStartUnsupported fun ch =>
    let result := W.recordStart s.log req ch.id (sessionInfo cfg)
    let s := s.logs (.recordStart req ch.id (sessionInfo cfg))
    match result with
    | .ok recordId => (s.reply W idx (.recordStartResponse recordId), .continue)
    | .error e =>
      let (code, message) := recordStartErrorToProtocol e
      (refuse W s idx code message, .continue)

def handleRecordStopRequest (s : Session) (idx : Nat) (recordId : Nat) : Handled :=
  ensureCap W s idx .recordV1 recordStopUnsupported fun _ =>
    let found := W.recordStop s.log recordId
    let s := s.logs (.recordStop recordId)
    if found then (s.reply W idx (.recordStopResponse 1), .continue)
    else (refuse W s idx .recordNotFound (recordNotFoundText recordId), .continue)

def handleRecordStopAllRequest (s : Session) (idx : Nat) : Handled :=
  ensureCap W s idx .recordV1 recordStopAllUnsupported fun _ =>
    let stopped := W.recordStopAll s.log
    ((s.logs .recordStopAll).reply W idx (.recordStopResponse stopped), .continue)

def handleRecordListRequest (s : Session) (idx : Nat) : Handled :=
  ensureCap W s idx .recordV1 recordListUnsupported fun _ =>
    (s.reply W idx (.recordListResponse (W.recordList s.log)), .continue)

/-! ## Tail, status, screen -/

def tailUnsupported : String := "tail.request requires `tail-v1` cap, but it was not negotiated at handshake"
def screenDumpUnsupported : String := "screen.dump.request requires `screen-dump-v1` cap"
def screenDumpFormatText : String := "screen.dump format not implemented in MVP (json)"
def screenDumpEncodeText : String := "screen.dump cbor encode failed"
def snapshotUnsupported : String := "screen.snapshot.request requires `state-snapshot-v1` cap"
def snapshotEmptyText : String := "screen.snapshot.request requires at least one include component"
def snapshotEncodeText : String := "snapshot cells cbor encode failed"
def snapshotScrollbackText : String := "snapshot component `scrollback` not implemented in MVP"

/-- The bytes a tail request asks for; `none` where they were evicted and the request is strict. -/
def tailBytes (scrollback : Scrollback) (now : Instant) (req : TailRequest) : Option Bytes :=
  match req.sinceMs with
  | some sinceMs =>
    if req.sinceStrict then scrollback.sinceStrict now (millis sinceMs)
    else some (scrollback.since now (millis sinceMs))
  | none =>
    match req.lastBytes with
    | some lastBytes => some (scrollback.lastNBytes lastBytes)
    | none => some (scrollback.lastNBytes scrollback.totalBytes)

/-- No more of them than the request's `last_bytes`. -/
def tailCut (req : TailRequest) (bytes : Bytes) : Bytes :=
  match req.lastBytes with
  | some n => if bytes.length > n then bytes.drop (bytes.length - n) else bytes
  | none => bytes

def tailSnapshot (req : TailRequest) (bytes : Bytes) : Bytes :=
  let snapshot := tailCut req bytes
  if req.stripAnsi then W.stripAnsi snapshot else snapshot

/-- `clients[idx].subscription = ..`. -/
def Session.subscribe (s : Session) (idx : Nat) (subscription : Subscription) : Session :=
  { s with clients := s.clients.modify idx fun ch => { ch with subscription } }

/-- The answer to a tail request begins here. -/
def Session.startTail (s : Session) (idx : Nat) (stripAnsi : Bool) (asked : Bytes) : Session :=
  { s with clients := s.clients.modify idx fun ch =>
      { ch with tail := some { offered := ch.offers.length, stripAnsi, asked, fed := s.screen.length } } }

def handleTailRequest (env : FrameEnv) (s : Session) (idx : Nat) (req : TailRequest) : Session :=
  match tailBytes s.scrollback env.now req with
  | none => s.reply W idx (.tailEnd .bufferTruncated)
  | some bytes =>
    let snapshot := tailSnapshot W req bytes
    let s := s.startTail idx req.stripAnsi (tailCut req bytes)
    let s := if snapshot.isEmpty then s else s.reply W idx (.tailData snapshot env.unixMs)
    if req.follow then s.subscribe idx (.tailFollow req.stripAnsi) else s.reply W idx (.tailEnd .eof)

def handleTailRequestDispatch (env : FrameEnv) (s : Session) (idx : Nat) (req : TailRequest) : Handled :=
  ensureCap W s idx .tailV1 tailUnsupported fun _ =>
    (handleTailRequest W env s idx req, .continue)

/-- The status deliberately calls no `waitpid`: it reads the `child_stopped` flag. -/
def statusResponse (env : FrameEnv) (s : Session) (lock : LockState) : StatusResponse :=
  let childPid := if env.childAlive then some cfg.childPid else none
  let childStopped := childPid.isSome && s.childStopped
  { sessionId := cfg.sessionId
    childPid
    childPgid := childPid.bind fun _ => env.childPgid
    daemonPid := cfg.daemonPid
    childStopped
    childState := .fromLegacy childPid childStopped
    clients := s.clients.map fun c =>
      { clientId := c.id, mode := c.mode, leader := c.leader, connectedAtUnixMs := c.connectedAtUnixMs }
    scrollbackBytes := s.scrollback.totalBytes
    lockHolder := lock.holder
    cwd := cfg.cwd.getD "/"
    argv := cfg.cmd
    onChildSuspend := some s.childSuspendPolicy
    daemonVersion := cfg.daemonVersion
    tags := cfg.tags }

def handleStatusQuery (env : FrameEnv) (s : Session) (lock : LockState) (idx : Nat) : Handled :=
  (s.reply W idx (.statusResponse (statusResponse cfg env s lock)), .continue)

def handleScreenDumpRequest (s : Session) (idx : Nat) (format : ScreenDumpFormat) (layer : ScreenDumpLayer)
    (serial : Option Nat) : Handled :=
  ensureCap W s idx .screenDumpV1 screenDumpUnsupported fun _ =>
    match W.screenDump s.screen format layer with
    | .ok payload => (s.reply W idx (.screenDumpResponse payload serial), .continue)
    | .error .formatNotImplemented =>
      (refuse W s idx .protocolMalformed screenDumpFormatText, .continue)
    | .error .encodeFailed => (refuse W s idx .internalError screenDumpEncodeText, .continue)

def snapshotResponse (screen : Screen) (components : List SnapshotComponent) (serial : Option Nat) :
    StateSnapshotResponse :=
  let want (c : SnapshotComponent) : Bool := c ∈ components
  { cells := if want .cells then W.snapshotCells screen else none
    cursor := if want .cursor then some (W.snapshotCursor screen) else none
    mode := if want .mode then some (W.snapshotMode screen) else none
    scrollback := none
    windowSize := if want .windowSize then some (W.screenSize screen) else none
    buffer :=
      if want .buffer then some (if (W.snapshotMode screen).alternateScreen then .alternate else .primary) else none
    sequenceNo := if want .sequenceNo then some (W.currentSeqno screen) else none
    serial }

def handleStateSnapshotRequest (s : Session) (idx : Nat) (components : List SnapshotComponent)
    (serial : Option Nat) : Handled :=
  ensureCap W s idx .stateSnapshotV1 snapshotUnsupported fun _ =>
    if components.isEmpty then
      (refuse W s idx .protocolMalformed snapshotEmptyText, .continue)
    else if .cells ∈ components ∧ (W.snapshotCells s.screen).isNone then
      (refuse W s idx .internalError snapshotEncodeText, .continue)
    else if .scrollback ∈ components then
      (refuse W s idx .protocolMalformed snapshotScrollbackText, .continue)
    else (s.reply W idx (.stateSnapshotResponse (snapshotResponse W s.screen components serial)), .continue)

/-! ## Resume, settings, upgrade -/

def resumeUnsupported : String := "session.child.resume.request requires `child-state-v1`"
def setUnsupported : String := "set.request requires `set-v1` cap"
def setDenied : String := "set requires a writable mode (= rw / rw-no-leader)"
def upgradeUnsupported : String := "upgrade.request requires `upgrade-v1` cap"
def upgradeDenied : String := "upgrade requires a writable mode (= rw / rw-no-leader)"
def unexpectedKindText : String := "this kind is daemon→client only or not accepted in this direction"
def setInvalidValueText (value : String) : String :=
  s!"invalid value for on-child-suspend: {value} (expected notify|auto-resume)"
def setInvalidKeyText (key : String) : String := s!"unknown set key: {key}"

/-- The redraw before the child goes on is checked: an overflow drops the client. -/
def handleSessionChildResumeRequest (s : Session) (idx : Nat) : Handled :=
  ensureCap W s idx .childStateV1 resumeUnsupported fun ch =>
    let s := s.pushLifecycle (.resumeRequestReceived ch.id)
    let (s, outcome) := s.offerAt idx (.redraw s.screen) (attachRedrawFrame W s.screen)
    if outcome = some .overflow then (s, .dropClient)
    else ((s.logs (.killPgrp sigCont)).pushLifecycle (.sigcontSent cfg.childPid), .continue)

def handleSetRequest (s : Session) (idx : Nat) (key value : String) : Handled :=
  ensureCap W s idx .setV1 setUnsupported fun _ =>
    ensureNotRo W s idx setDenied fun ch =>
      if key = "on-child-suspend" then
        match ChildSuspendPolicy.fromWire value with
        | none =>
          (refuse W s idx .setInvalidValue (setInvalidValueText value), .continue)
        | some policy =>
          let s := { s with childSuspendPolicy := policy }
          let s := s.pushLifecycle (.policyChanged "on-child-suspend" policy.asStr ch.id)
          (s.reply W idx (.setAck "on-child-suspend" policy.asStr), .continue)
      else (refuse W s idx .setInvalidKey (setInvalidKeyText key), .continue)

/-- The precheck of an upgrade's target: the error text, where it fails. -/
def FrameEnv.precheck (env : FrameEnv) (binaryPath : Option String) : Option String :=
  match binaryPath with
  | some p => env.precheckPath p
  | none => env.precheckUpgradeTarget

def handleUpgradeRequest (env : FrameEnv) (s : Session) (idx : Nat) (binaryPath : Option String) : Handled :=
  ensureCap W s idx .upgradeV1 upgradeUnsupported fun _ =>
    ensureNotRo W s idx upgradeDenied fun _ =>
      match env.precheck binaryPath with
      | some msg => (refuse W s idx (.unknown "upgrade.precheck-failed") msg, .continue)
      | none =>
        let s := { s with upgradeTarget := binaryPath, upgradePending := true }
        let (clients, overflow) := broadcastControlWithCap W s.clients .upgradeAck .upgradeV1
        let s := { s with clients }.ignore overflow
        (s.pushLifecycle (.sessionTerminatedByCondition "upgrade-request-accepted"), .continue)

def rejectUnexpectedKind (s : Session) (idx : Nat) : Handled :=
  (refuse W s idx .protocolUnexpectedKind unexpectedKindText, .continue)

/-! ## Dispatch -/

def handleControlMessage (env : FrameEnv) (s : Session) (d : DaemonState) (idx : Nat) :
    ControlMessage → HandledWith
  | .detach target => withDaemon d (handleDetachTarget W s idx target)
  | .kill signal wait => withDaemon d (handleKill W s idx signal wait)
  | .signal signal => withDaemon d (handleSignal W s idx signal)
  | .resize cols rows => withDaemon d (handleResize W s idx cols rows)
  | .leaderRequest => withDaemon d (handleLeaderRequest W s d.lock idx)
  | .lockAcquire .. => handleLockAcquire W env s d idx
  | .lockRelease token => handleLockRelease W s d idx token
  | .tailRequest req => withDaemon d (handleTailRequestDispatch W env s idx req)
  | .statusQuery => withDaemon d (handleStatusQuery W cfg env s d.lock idx)
  | .screenDumpRequest format layer serial => withDaemon d (handleScreenDumpRequest W s idx format layer serial)
  | .stateSnapshotRequest components serial => withDaemon d (handleStateSnapshotRequest W s idx components serial)
  | .sessionChildResumeRequest => withDaemon d (handleSessionChildResumeRequest W cfg s idx)
  | .recordStartRequest req => withDaemon d (handleRecordStartRequest W cfg s idx req)
  | .recordStopRequest recordId => withDaemon d (handleRecordStopRequest W s idx recordId)
  | .recordStopAllRequest => withDaemon d (handleRecordStopAllRequest W s idx)
  | .recordListRequest => withDaemon d (handleRecordListRequest W s idx)
  | .setRequest key value => withDaemon d (handleSetRequest W s idx key value)
  | .upgradeRequest binaryPath => withDaemon d (handleUpgradeRequest W env s idx binaryPath)
  | .handshakeRequest _ | .handshakeResponse _ | .error _ | .killAck _ | .detachAck _ | .lockResponse _
  | .leaderNotify _ | .modeChange _ | .statusResponse _ | .tailData .. | .tailEnd _ | .screenDumpResponse ..
  | .stateSnapshotResponse _ | .sessionExitNotify .. | .sessionChildStoppedNotify .. | .recordStartResponse _
  | .recordStopResponse _ | .recordListResponse _ | .setAck .. | .upgradeAck =>
    withDaemon d (rejectUnexpectedKind W s idx)

def rawDataRejectedText : String := "raw_data rejected: upgrade in progress (drain awaiting exec)"

/-- Raw input: refused while an upgrade is pending, else through the reducer. -/
def handleRawData (env : FrameEnv) (s : Session) (d : DaemonState) (idx : Nat) (body : Bytes) : HandledWith :=
  match s.clients[idx]? with
  | none => (s, d, .continue)
  | some ch =>
    if s.upgradePending then
      (refuse W s idx (.unknown "upgrade.rejected") rawDataRejectedText, d, .continue)
    else
      let (d, effects) := d.handle (.client (.rawDataReceived ch.id ch.mode body))
      let (d, ctx) := executeWithFeedbackCtx W d effects { session := s, tty := some env.tty }
      let s := ctx.session.ignore (ctx.overflowIds.filter (· ≠ ch.id))
      (s, d, if ch.id ∈ ctx.overflowIds then .dropClient else .continue)

def handleClientFrame (env : FrameEnv) (s : Session) (d : DaemonState) (idx : Nat) (frame : Frame) : HandledWith :=
  if frame.ty = typeRawData then handleRawData W env s d idx frame.body
  else if frame.ty = typeCborControl then
    match W.decode frame.body with
    | some msg => handleControlMessage W cfg env s d idx msg
    | none => (s, d, .continue)
  else (s, d, .dropClient)

end Hyoui.Daemon
