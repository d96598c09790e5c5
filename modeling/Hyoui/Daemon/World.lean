import Hyoui.Protocol.Messages
import Hyoui.Scrollback
/-!
# What the serve loop works with

`Config` is the daemon's configuration. `World` gathers the code the loop calls and this
development takes as given: the CBOR codec, the screen, the record registry's answers, the
signal names. Nothing is assumed about it here; a theorem that needs an encoder to succeed says
so.

A screen is the sequence of operations applied to it, and the record registry is the sequence
of calls made on it (`LogEntry`, in one log with what the daemon does to the child): what either
answers is a function of that history.
-/

namespace Hyoui.Daemon

open Hyoui.Protocol

structure Config where
  sessionId : String := ""
  daemonPid : Nat := 0
  daemonBootId : String := ""
  daemonVersion : String := ""
  childPid : Nat := 0
  cmd : List String := []
  cwd : Option String := none
  tags : List (String × String) := []
  clientBufferBytes : Nat := 8 * 1024 * 1024
  scrollbackBytes : Nat := 1024 * 1024
  «until» : Option Bytes := none
  onChildSuspend : ChildSuspendPolicy := .notify
  timeoutMs : Option Nat := none
  idleTimeoutMs : Option Nat := none
deriving DecidableEq

def sizeMin : Nat := 1
def sizeMax : Nat := 4096

def normalizeSize (cols rows : Nat) : Nat × Nat :=
  (max sizeMin (min cols sizeMax), max sizeMin (min rows sizeMax))

/-! ## The record log -/

inductive InRejectedReason where
  | roClient
  | lockNotHeld
deriving DecidableEq

inductive WriteErrorKind where
  | idleTimeout
  | ioError (message : String)
deriving DecidableEq

inductive LifecycleEvent where
  | childStoppedObserved (sigName : String) (sigNum : Nat) (pid : Nat)
  | resumeRequestReceived (clientId : ClientId)
  | sigcontSent (pid : Nat)
  | childContinuedObserved (sigName : String) (sigNum : Nat) (pid : Nat)
  | clientAttached (clientId : ClientId) (mode : Mode)
  | clientDetached (clientId : ClientId)
  | lockAcquired (clientId : ClientId)
  | lockReleased (clientId : ClientId)
  | recordAborted (recordId : Nat) (reason : String) (detail : Option String)
  | sessionTerminatedByCondition (reason : String)
  | policyChanged (key value : String) (changedByClientId : ClientId)
deriving DecidableEq

inductive RecordEvent where
  | lifecycle (e : LifecycleEvent)
  | bytesIn (clientId : ClientId) (bytes : Bytes)
  | bytesOut (bytes : Bytes)
  | inRejected (clientId : ClientId) (clientMode : Mode) (lockHolder : Option ClientId)
      (reason : InRejectedReason) (bytes : Bytes)
  | inWriteError (clientId : ClientId) (requestedLen writtenLen : Nat) (error : WriteErrorKind)
      (unwrittenBytes : Bytes)
  | inSecretRedacted (clientId : ClientId) (byteCount : Nat) (reason : String)
deriving DecidableEq

structure SessionInfo where
  sessionId : String
  daemonPid : Nat
  daemonBootId : String
  argv : List String
  cwd : String
deriving DecidableEq

inductive RecordStartError where
  | pathNotAbsolute
  | outputAlreadyExists
  | outputPermissionDenied (message : String)
  | unsupportedDirectionForFormat
  | invalidPromptPattern (message : String)
  | redactionUnimplemented
  | io (message : String)
deriving DecidableEq

/-- Signal numbers. -/
abbrev Signal := Nat

def sigHup : Signal := 1
def sigInt : Signal := 2
def sigQuit : Signal := 3
def sigAbrt : Signal := 6
def sigUsr1 : Signal := 10
def sigTerm : Signal := 15
def sigCont : Signal := 18

/-- What the daemon does beside its sockets: calls on the record registry, on the PTY and
signals to the child or its process group. -/
inductive LogEntry where
  | push (e : RecordEvent)
  | recordStart (req : RecordStartRequest) (startedBy : ClientId) (info : SessionInfo)
  | recordStop (id : Nat)
  | recordStopAll
  | ptyWrite (bytes : Bytes)
  | ptyResize (cols rows : Nat)
  | kill (sig : Signal)
  | killPgrp (sig : Signal)
deriving DecidableEq

abbrev Log := List LogEntry

/-! ## The screen -/

inductive ScreenOp where
  | process (bytes : Bytes)
  | resize (rows cols : Nat)
deriving DecidableEq

abbrev Screen := List ScreenOp

inductive ScreenDumpError where
  | formatNotImplemented
  | encodeFailed
deriving DecidableEq

/-- The code the serve loop calls. -/
structure World where
  encode : ControlMessage → Option Bytes
  decode : Bytes → Option ControlMessage
  encodeAck : RawAck → Option Bytes
  stripAnsi : Bytes → Bytes
  syncInProgress : Screen → Bool
  attachRedraw : Screen → Bytes
  screenDump : Screen → ScreenDumpFormat → ScreenDumpLayer → Except ScreenDumpError Bytes
  snapshotCells : Screen → Option Bytes
  snapshotCursor : Screen → CursorSnap
  snapshotMode : Screen → ModeSnap
  screenSize : Screen → Nat × Nat
  currentSeqno : Screen → Nat
  recordStart : Log → RecordStartRequest → ClientId → SessionInfo → Except RecordStartError Nat
  recordStop : Log → Nat → Bool
  recordStopAll : Log → Nat
  recordList : Log → List RecordInfo
  parseSignal : String → Option Signal
  signalName : Signal → String
  /-- The capacity the allocator gives a receive buffer. -/
  alloc : Nat → Nat → Nat

/-- The frame of a control message, where it encodes. -/
def World.controlFrame (W : World) (msg : ControlMessage) : Option Bytes :=
  (W.encode msg).bind fun body => (Frame.cborControl body).encodeTo.toOption

def World.rawAckFrame (W : World) (ack : RawAck) : Option Bytes :=
  (W.encodeAck ack).bind fun body => (Frame.rawAck body).encodeTo.toOption

def rawDataFrame (bytes : Bytes) : Option Bytes := (Frame.rawData bytes).encodeTo.toOption

end Hyoui.Daemon
