import Hyoui.Protocol.Messages
/-!
# The CBOR of some messages

The messages of a session that attaches clients, hands out its lock and is upgraded, in the form
`ciborium` gives them: a map whose first entry is the kind, then the fields that are present.
-/

namespace Hyoui.Protocol

/-! ## Items -/

/-- Major type and argument, in the shortest form. -/
def cborHead (major n : Nat) : Bytes :=
  if n < 24 then [UInt8.ofNat (32 * major + n)]
  else if n < 2 ^ 8 then [UInt8.ofNat (32 * major + 24), UInt8.ofNat n]
  else if n < 2 ^ 16 then [UInt8.ofNat (32 * major + 25), UInt8.ofNat (n / 2 ^ 8), UInt8.ofNat n]
  else if n < 2 ^ 32 then UInt8.ofNat (32 * major + 26) :: (toLeBytes n).reverse
  else UInt8.ofNat (32 * major + 27) :: ((toLeBytes (n / 2 ^ 32)).reverse ++ (toLeBytes n).reverse)

def cborUint (n : Nat) : Bytes := cborHead 0 n

def cborText (s : String) : Bytes := cborHead 3 s.utf8ByteSize ++ s.toUTF8.toList

def cborArray (items : List Bytes) : Bytes := cborHead 4 items.length ++ items.flatten

def cborMap (fields : List (String × Bytes)) : Bytes :=
  cborHead 5 fields.length ++ fields.flatMap fun f => cborText f.1 ++ f.2

def cborBool (b : Bool) : Bytes := [if b then 0xf5 else 0xf4]

/-! ## Values -/

def Mode.wire : Mode → String
  | .rw => "rw"
  | .ro => "ro"
  | .rwNoLeader => "rw-no-leader"

def Cap.wire : Cap → String
  | .data => "data"
  | .lock => "lock"
  | .tailV1 => "tail-v1"
  | .screenDumpV1 => "screen-dump-v1"
  | .stateSnapshotV1 => "state-snapshot-v1"
  | .sessionExitV1 => "session-exit-v1"
  | .childStateV1 => "child-state-v1"
  | .recordV1 => "record-v1"
  | .setV1 => "set-v1"
  | .upgradeV1 => "upgrade-v1"
  | .leaderRequestV1 => "leader-request-v1"

def SessionMode.wire : SessionMode → String
  | .rw => "rw"
  | .ro => "ro"
  | .locked => "locked"

def LockResult.wire : LockResult → String
  | .acquired => "acquired"
  | .queued => "queued"
  | .denied => "denied"
  | .timeout => "timeout"

def ErrorCode.asStr : ErrorCode → String
  | .protocolMalformed => "protocol.malformed"
  | .protocolUnexpectedKind => "protocol.unexpected-kind"
  | .unsupportedCapability => "unsupported-capability"
  | .handshakeTimeout => "handshake.timeout"
  | .authTokenMismatch => "auth.token-mismatch"
  | .backpressureDisconnect => "backpressure.disconnect"
  | .modeNotAllowed => "mode.not-allowed"
  | .modeNotLeader => "mode.not-leader"
  | .lockDenied => "lock.denied"
  | .lockNotHeld => "lock.not-held"
  | .signalInvalid => "signal.invalid"
  | .masterWriteTimeout => "master.write-timeout"
  | .internalError => "internal.error"
  | .recordPathNotAbsolute => "record.path-not-absolute"
  | .recordOutputAlreadyExists => "record.output-already-exists"
  | .recordOutputPermissionDenied => "record.output-permission-denied"
  | .recordUnsupportedDirectionForFormat => "record.unsupported-direction-for-format"
  | .recordInvalidPromptPattern => "record.invalid-prompt-pattern"
  | .recordLimitExceeded => "record.limit-exceeded"
  | .recordNotFound => "record.not-found"
  | .recordRedactionUnimplemented => "record.redaction-unimplemented"
  | .setInvalidKey => "set.invalid-key"
  | .setInvalidValue => "set.invalid-value"
  | .unknown wire => wire

/-! ## Messages -/

/-- A field that is left out where it has no value. -/
def optionalField (name : String) (value : Option Bytes) : List (String × Bytes) := value.toList.map (name, ·)

def cborDetails (details : List (String × Nat)) : Bytes := cborMap (details.map fun d => (d.1, cborUint d.2))

/-- A message of the kinds listed here. -/
def ControlMessage.cbor : ControlMessage → Option Bytes
  | .handshakeResponse m => some (cborMap [
      ("kind", cborText "handshake.response"), ("caps", cborArray (m.caps.map (cborText ·.wire))),
      ("session-id", cborText m.sessionId), ("client-id", cborUint m.clientId), ("leader", cborBool m.leader),
      ("mode", cborText m.mode.wire), ("child-stopped", cborBool m.childStopped)])
  | .error m => some (cborMap (
      [("kind", cborText "error"), ("code", cborText m.code.asStr), ("message", cborText m.message)] ++
      optionalField "details" (m.details.map cborDetails)))
  | .lockAcquire wait timeoutAbsMs timeoutIdleMs processBound => some (cborMap (
      [("kind", cborText "lock.acquire"), ("wait", cborBool wait)] ++
      optionalField "timeout-abs-ms" (timeoutAbsMs.map cborUint) ++
      optionalField "timeout-idle-ms" (timeoutIdleMs.map cborUint) ++ [("process-bound", cborBool processBound)]))
  | .lockResponse m => some (cborMap (
      [("kind", cborText "lock.response"), ("result", cborText m.result.wire)] ++
      optionalField "token" (m.token.map cborText) ++ optionalField "queue-position" (m.queuePosition.map cborUint)))
  | .leaderNotify clientId => some (cborMap (
      ("kind", cborText "leader.notify") :: optionalField "client-id" (clientId.map cborUint)))
  | .modeChange m => some (cborMap (
      [("kind", cborText "mode.change"), ("session-mode", cborText m.sessionMode.wire)] ++
      optionalField "lock-holder" (m.lockHolder.map cborUint) ++
      optionalField "client-mode" (m.clientMode.map fun mode => cborText mode.wire)))
  | .sessionChildStoppedNotify pid sig => some (cborMap (
      [("kind", cborText "session.child.stopped.notify"), ("pid", cborUint pid)] ++
      optionalField "signal" (sig.map cborText)))
  | .upgradeRequest binaryPath => some (cborMap (
      ("kind", cborText "upgrade.request") :: optionalField "binary-path" (binaryPath.map cborText)))
  | .upgradeAck => some (cborMap [("kind", cborText "upgrade.ack")])
  | _ => none

def RawAckResult.wire : RawAckResult → String
  | .ok => "ok"
  | .error => "error"

def RawAck.cbor (ack : RawAck) : Bytes := cborMap (
  [("result", cborText ack.result.wire)] ++ optionalField "code" (ack.code.map cborText) ++
  optionalField "message" (ack.message.map cborText))

/-! ## The two notices fit a frame -/

theorem cborHead_length (major n : Nat) : (cborHead major n).length ≤ 9 := by
  unfold cborHead
  split
  · simp
  · split
    · simp
    · split
      · simp
      · split <;> simp [toLeBytes]

theorem leaderNotify_fits (id : Option ClientId) :
    ∃ body, (ControlMessage.leaderNotify id).cbor = some body ∧ body.length ≤ 128 := by
  refine ⟨_, rfl, ?_⟩
  have hk : (cborText "kind").length = 5 := by decide +kernel
  have hv : (cborText "leader.notify").length = 14 := by decide +kernel
  have hc : (cborText "client-id").length = 10 := by decide +kernel
  cases id with
  | none => decide +kernel
  | some n =>
    have hn := cborHead_length 0 n
    have hh := cborHead_length 5 2
    simp [cborMap, optionalField, cborUint, hk, hv, hc]
    omega

theorem modeChange_fits (m : ModeChange) :
    ∃ body, (ControlMessage.modeChange m).cbor = some body ∧ body.length ≤ 128 := by
  refine ⟨_, rfl, ?_⟩
  obtain ⟨sessionMode, lockHolder, clientMode⟩ := m
  have hk : (cborText "kind").length = 5 := by decide +kernel
  have hv : (cborText "mode.change").length = 12 := by decide +kernel
  have hs : (cborText "session-mode").length = 13 := by decide +kernel
  have hl : (cborText "lock-holder").length = 12 := by decide +kernel
  have hc : (cborText "client-mode").length = 12 := by decide +kernel
  have hsm : (cborText sessionMode.wire).length ≤ 7 := by cases sessionMode <;> decide +kernel
  have hlh : ((optionalField "lock-holder" (lockHolder.map cborUint)).flatMap fun f => cborText f.1 ++ f.2).length ≤ 21 := by
    cases lockHolder with
    | none => simp [optionalField]
    | some n =>
      have hn := cborHead_length 0 n
      simp [optionalField, cborUint, hl]
      omega
  have hcm : ((optionalField "client-mode" (clientMode.map fun mode => cborText mode.wire)).flatMap
      fun f => cborText f.1 ++ f.2).length ≤ 25 := by
    cases clientMode with
    | none => simp [optionalField]
    | some mode => cases mode <;> decide +kernel
  have hh := cborHead_length 5 (([("kind", cborText "mode.change"), ("session-mode", cborText sessionMode.wire)] ++
    optionalField "lock-holder" (lockHolder.map cborUint) ++
    optionalField "client-mode" (clientMode.map fun mode => cborText mode.wire)).length)
  simp only [cborMap, List.length_append, List.flatMap_append, List.flatMap_cons, List.flatMap_nil, List.append_nil,
    hk, hv, hs] at hh ⊢
  omega

end Hyoui.Protocol
