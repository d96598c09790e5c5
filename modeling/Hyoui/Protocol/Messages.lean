import Hyoui.Protocol.Frame
/-!
# Control messages and raw acks

The bodies of `TYPE_CBOR_CONTROL` and `TYPE_RAW_ACK` frames. Their CBOR form is the codec's
(`World.encode`, `World.decode`); here they are the values the daemon builds and reads.
-/

namespace Hyoui.Protocol

abbrev ClientId := Nat

inductive Mode where
  | rw
  | ro
  | rwNoLeader
deriving DecidableEq

/-- The capabilities of `MVP_CAPS`. What a client negotiates is the intersection with them. -/
inductive Cap where
  | data
  | lock
  | tailV1
  | screenDumpV1
  | stateSnapshotV1
  | sessionExitV1
  | childStateV1
  | recordV1
  | setV1
  | upgradeV1
  | leaderRequestV1
deriving DecidableEq

structure HandshakeRequest where
  caps : List String
  mode : Mode
  exclusive : Bool
  detachOthers : Bool
  token : Option String
deriving DecidableEq

structure HandshakeResponse where
  caps : List Cap
  sessionId : String
  clientId : ClientId
  leader : Bool
  mode : Mode
  childStopped : Bool
deriving DecidableEq

inductive ErrorCode where
  | protocolMalformed
  | protocolUnexpectedKind
  | unsupportedCapability
  | handshakeTimeout
  | authTokenMismatch
  | backpressureDisconnect
  | modeNotAllowed
  | modeNotLeader
  | lockDenied
  | lockNotHeld
  | signalInvalid
  | masterWriteTimeout
  | internalError
  | recordPathNotAbsolute
  | recordOutputAlreadyExists
  | recordOutputPermissionDenied
  | recordUnsupportedDirectionForFormat
  | recordInvalidPromptPattern
  | recordLimitExceeded
  | recordNotFound
  | recordRedactionUnimplemented
  | setInvalidKey
  | setInvalidValue
  | unknown (wire : String)
deriving DecidableEq

/-- `details` is a CBOR map; the daemon only builds maps from texts to integers. -/
structure ErrorMessage where
  code : ErrorCode
  message : String
  details : Option (List (String × Nat)) := none
deriving DecidableEq

inductive LockResult where
  | acquired
  | queued
  | denied
  | timeout
deriving DecidableEq

structure LockResponse where
  result : LockResult
  token : Option String
  queuePosition : Option Nat
deriving DecidableEq

inductive SessionMode where
  | rw
  | ro
  | locked
deriving DecidableEq

structure ModeChange where
  sessionMode : SessionMode
  lockHolder : Option ClientId
  clientMode : Option Mode
deriving DecidableEq

inductive ChildSuspendPolicy where
  | notify
  | autoResume
deriving DecidableEq

def ChildSuspendPolicy.asStr : ChildSuspendPolicy → String
  | .notify => "notify"
  | .autoResume => "auto-resume"

def ChildSuspendPolicy.fromWire (s : String) : Option ChildSuspendPolicy :=
  if s = "notify" then some .notify else if s = "auto-resume" then some .autoResume else none

structure ClientInfo where
  clientId : ClientId
  mode : Mode
  leader : Bool
  connectedAtUnixMs : Nat
deriving DecidableEq

inductive ChildLiveState where
  | running
  | stopped
  | exited (code : Option Int)
deriving DecidableEq

def ChildLiveState.fromLegacy (childPid : Option Nat) (childStopped : Bool) : ChildLiveState :=
  match childPid with
  | none => .exited none
  | some _ => if childStopped then .stopped else .running

structure StatusResponse where
  sessionId : String
  childPid : Option Nat
  childPgid : Option Nat
  daemonPid : Nat
  childStopped : Bool
  childState : ChildLiveState
  clients : List ClientInfo
  scrollbackBytes : Nat
  lockHolder : Option ClientId
  cwd : String
  argv : List String
  onChildSuspend : Option ChildSuspendPolicy
  daemonVersion : String
  tags : List (String × String)
deriving DecidableEq

structure TailRequest where
  sinceMs : Option Nat
  sinceStrict : Bool
  follow : Bool
  stripAnsi : Bool
  lastBytes : Option Nat
deriving DecidableEq

inductive TailEndReason where
  | eof
  | bufferTruncated
  | clientCancel
  | childExited
deriving DecidableEq

inductive DetachTarget where
  | myself
  | others
  | all
deriving DecidableEq

inductive ScreenDumpFormat where
  | ansi
  | binary
  | json
  | cbor
  | textPlain
deriving DecidableEq

inductive ScreenDumpLayer where
  | visible
  | scrollback
  | both
deriving DecidableEq

inductive SnapshotComponent where
  | cells
  | cursor
  | mode
  | scrollback
  | windowSize
  | buffer
  | sequenceNo
deriving DecidableEq

structure CursorSnap where
  row : Nat
  col : Nat
  visible : Bool
deriving DecidableEq

structure ModeSnap where
  alternateScreen : Bool
  applicationKeypad : Bool
  applicationCursor : Bool
  bracketedPaste : Bool
  hideCursor : Bool
deriving DecidableEq

inductive BufferKind where
  | primary
  | alternate
deriving DecidableEq

structure StateSnapshotResponse where
  cells : Option Bytes
  cursor : Option CursorSnap
  mode : Option ModeSnap
  scrollback : Option Bytes
  windowSize : Option (Nat × Nat)
  buffer : Option BufferKind
  sequenceNo : Option Nat
  serial : Option Nat
deriving DecidableEq

inductive RecordDirection where
  | stdin
  | stdout
  | both
deriving DecidableEq

inductive RecordFormat where
  | raw
  | jsonl
deriving DecidableEq

inductive InputSecrecy where
  | redactAfterPrompt
  | recordAll
  | neverRecordStdin
deriving DecidableEq

structure RecordStartRequest where
  direction : RecordDirection
  format : RecordFormat
  outputPath : String
  maxBytes : Option Nat
  maxDurationMs : Option Nat
  inputSecrecy : InputSecrecy
  promptPattern : Option String
deriving DecidableEq

structure RecordInfo where
  recordId : Nat
  direction : RecordDirection
  format : RecordFormat
  outputPath : String
  startedUnixMs : Nat
  startedByClientId : ClientId
  rawBytesRecorded : Nat
  fileBytesWritten : Nat
  lastFlushedUnixMs : Nat
deriving DecidableEq

inductive ControlMessage where
  | handshakeRequest (m : HandshakeRequest)
  | handshakeResponse (m : HandshakeResponse)
  | error (m : ErrorMessage)
  | resize (cols rows : Nat)
  | signal (signal : String)
  | lockAcquire (wait : Bool) (timeoutAbsMs timeoutIdleMs : Option Nat) (processBound : Bool)
  | lockResponse (m : LockResponse)
  | lockRelease (token : String)
  | leaderRequest
  | leaderNotify (clientId : Option ClientId)
  | modeChange (m : ModeChange)
  | statusQuery
  | statusResponse (m : StatusResponse)
  | tailRequest (m : TailRequest)
  | tailData (bytes : Bytes) (timestampMs : Int)
  | tailEnd (reason : TailEndReason)
  | detach (target : DetachTarget)
  | detachAck (droppedCount : Nat)
  | kill (signal : Option String) (wait : Bool)
  | killAck (signal : String)
  | screenDumpRequest (format : ScreenDumpFormat) (layer : ScreenDumpLayer) (serial : Option Nat)
  | screenDumpResponse (payload : Bytes) (serial : Option Nat)
  | stateSnapshotRequest (include_ : List SnapshotComponent) (serial : Option Nat)
  | stateSnapshotResponse (m : StateSnapshotResponse)
  | sessionExitNotify (exitStatus : Int) (signal : Option String)
  | sessionChildStoppedNotify (pid : Nat) (signal : Option String)
  | sessionChildResumeRequest
  | recordStartRequest (m : RecordStartRequest)
  | recordStartResponse (recordId : Nat)
  | recordStopRequest (recordId : Nat)
  | recordStopAllRequest
  | recordStopResponse (stopped : Nat)
  | recordListRequest
  | recordListResponse (records : List RecordInfo)
  | setRequest (key value : String)
  | setAck (key value : String)
  | upgradeRequest (binaryPath : Option String)
  | upgradeAck
deriving DecidableEq

inductive RawAckResult where
  | ok
  | error
deriving DecidableEq

structure RawAck where
  result : RawAckResult
  code : Option String
  message : Option String
deriving DecidableEq

def RawAck.ok : RawAck := { result := .ok, code := none, message := none }
def RawAck.err (code message : String) : RawAck := { result := .error, code := some code, message := some message }

def codeMasterWriteTimeout : String := "master.write-timeout"
def codeMasterWriteError : String := "master.write-error"
def codeMasterWritePartial : String := "master.write-partial"
def codeClientRoRejected : String := "client.ro-rejected"
def codeClientLockNotHeld : String := "client.lock-not-held"

end Hyoui.Protocol
