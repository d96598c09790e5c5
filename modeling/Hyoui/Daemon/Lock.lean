import Hyoui.Daemon.Broadcast
/-!
# The lock, and who leads

`reduce` is the lock's transition function, `reduceMsg` the effects of a transition: the reply
to the requester and the `mode.change` that tells every client who holds the lock. The two
functions at the end of the module move the leader flag.
-/

namespace Hyoui.Daemon

open Hyoui.Protocol

/-! ## Effects -/

/-- The domains of the daemon's state. Only the client and lock domains emit effects. -/
inductive Domain where
  | client
  | lock
deriving DecidableEq

structure EffectId where
  domain : Domain
  seq : Nat
deriving DecidableEq

inductive RecordEntry where
  | bytesIn (clientId : ClientId) (bytes : Bytes)
  | inWriteError (clientId : ClientId) (requestedLen writtenLen : Nat) (error : WriteErrorKind)
      (unwrittenBytes : Bytes)
  | inRejected (clientId : ClientId) (clientMode : Mode) (lockHolder : Option ClientId)
      (reason : InRejectedReason) (bytes : Bytes)
deriving DecidableEq

/-- `ClientBroadcast` carries a filter too, which `execute` ignores. -/
inductive EffectKind where
  | ttyWrite (bytes : Bytes)
  | clientReply (clientId : ClientId) (message : ControlMessage)
  | clientBroadcast (message : ControlMessage)
  | clientRawAck (clientId : ClientId) (ack : RawAck)
  | clientDisconnect (clientId : ClientId)
  | record (entry : RecordEntry)
deriving DecidableEq

structure Effect where
  id : EffectId
  kind : EffectKind
deriving DecidableEq

/-! ## The lock -/

structure LockState where
  holder : Option ClientId := none
  token : Option String := none
  processBound : Bool := false
  nextEffectSeq : Nat := 0
deriving DecidableEq

def LockState.sessionMode (s : LockState) : SessionMode := if s.holder.isSome then .locked else .rw

inductive LockMsg where
  | acquire (clientId : ClientId) (token : Option String)
  | release (clientId : ClientId) (token : String)
  | clientDisconnected (clientId : ClientId)
deriving DecidableEq

inductive ReleaseReason where
  | explicitRelease
  | processBoundGc
deriving DecidableEq

inductive DenyReason where
  | heldByOther
  | notHolderOrTokenMismatch
deriving DecidableEq

inductive LockEvent where
  | acquired (clientId : ClientId) (token : Option String) (newlyAcquired : Bool)
  | tokenRequired (clientId : ClientId)
  | released (clientId : ClientId) (reason : ReleaseReason)
  | denied (clientId : ClientId) (reason : DenyReason)
deriving DecidableEq

def LockState.reduce (state : LockState) : LockMsg → LockState × List LockEvent
  | .acquire clientId token =>
    if state.holder = some clientId then (state, [.acquired clientId state.token false])
    else if state.holder.isSome then (state, [.denied clientId .heldByOther])
    else match token with
      | some t =>
        ({ state with holder := some clientId, token := some t, processBound := true },
          [.acquired clientId (some t) true])
      | none => (state, [.tokenRequired clientId])
  | .release clientId token =>
    if state.holder = some clientId ∧ state.token = some token then
      ({ state with holder := none, token := none, processBound := false },
        [.released clientId .explicitRelease])
    else (state, [.denied clientId .notHolderOrTokenMismatch])
  | .clientDisconnected clientId =>
    if state.processBound ∧ state.holder = some clientId then
      ({ state with holder := none, token := none, processBound := false },
        [.released clientId .processBoundGc])
    else (state, [])

def LockState.emit (state : LockState) (kind : EffectKind) : LockState × Effect :=
  ({ state with nextEffectSeq := state.nextEffectSeq + 1 },
    { id := { domain := .lock, seq := state.nextEffectSeq }, kind })

def LockState.modeChange (state : LockState) (lockHolder : Option ClientId) : EffectKind :=
  .clientBroadcast (.modeChange { sessionMode := state.sessionMode, lockHolder, clientMode := none })

/-- The effects of one event; `state` is the state after the transition. -/
def LockState.eventEffects (state : LockState) : LockEvent → LockState × List Effect
  | .acquired clientId token newlyAcquired =>
    let (state, reply) :=
      state.emit (.clientReply clientId (.lockResponse { result := .acquired, token, queuePosition := none }))
    if newlyAcquired then
      let (state, notice) := state.emit (state.modeChange (some clientId))
      (state, [reply, notice])
    else (state, [reply])
  | .tokenRequired _ => (state, [])
  | .released _ _ =>
    let (state, notice) := state.emit (state.modeChange none)
    (state, [notice])
  | .denied clientId reason =>
    let message : ControlMessage := match reason with
      | .heldByOther => .lockResponse { result := .denied, token := none, queuePosition := none }
      | .notHolderOrTokenMismatch =>
        .error { code := .lockNotHeld, message := "lock token mismatch or not the lock holder" }
    let (state, reply) := state.emit (.clientReply clientId message)
    (state, [reply])

def LockState.eventsEffects (state : LockState) : List LockEvent → LockState × List Effect
  | [] => (state, [])
  | ev :: evs =>
    let (state, effects) := state.eventEffects ev
    let (state, more) := state.eventsEffects evs
    (state, effects ++ more)

/-- The lock emits no cross-domain messages. -/
def LockState.reduceMsg (state : LockState) (msg : LockMsg) : LockState × List Effect × List LockEvent :=
  let (state, events) := state.reduce msg
  let (state, effects) := state.eventsEffects events
  (state, effects, events)

/-! ## The leader -/

def shouldAssignLeader (clients : List ClientHandle) (newMode : Mode) : Bool :=
  newMode = .rw && !clients.any (·.leader)

/-- The first `Rw` client becomes leader, if nobody is. -/
def elevateNextLeader (clients : List ClientHandle) : List ClientHandle × Option ClientId :=
  if clients.any (·.leader) then (clients, none)
  else
    let rec go : List ClientHandle → List ClientHandle × Option ClientId
      | [] => ([], none)
      | c :: cs =>
        if c.mode = .rw then ({ c with leader := true } :: cs, some c.id)
        else
          let (cs, id) := go cs
          (c :: cs, id)
    go clients

inductive LeaderTakeover where
  | alreadyLeader (clientId : ClientId)
  | taken (clientId : ClientId) (modeChanged : Bool)
deriving DecidableEq

/-- `take_leader` for the client `requester`, at its index in `clients`. -/
def takeLeader (clients : List ClientHandle) (requesterIdx : Nat) (requester : ClientHandle) :
    List ClientHandle × LeaderTakeover :=
  if requester.leader then (clients, .alreadyLeader requester.id)
  else
    let modeChanged : Bool := requester.mode = .rwNoLeader
    let clients := if modeChanged then clients.set requesterIdx { requester with mode := .rw } else clients
    (clients.map fun c => { c with leader := c.id = requester.id }, .taken requester.id modeChanged)

end Hyoui.Daemon
