import Hyoui.Daemon.Reducer
/-!
# Handshakes

A worker thread reads the handshake of a connection; the serve loop collects the results
(`processPendingHandshakes`), makes each into an attached client and, where the request asks for
it, detaches all others. What a worker delivers, and when, is the environment's choice
(`HandshakePoll`).
-/

namespace Hyoui.Daemon

open Hyoui.Protocol

def handshakeTimeout : Nat := millis 5000
def maxPendingHandshakes : Nat := 16

structure PendingHandshake where
  startedAt : Instant
deriving DecidableEq

/-- What `try_recv` finds: a finished handshake stage (and whether the socket can be made
nonblocking), a failed one, nothing yet (with the clock at that moment), a dead worker. -/
inductive HandshakePoll where
  | ready (req : HandshakeRequest) (intersect : List Cap) (setNonblocking : Bool)
  | failed
  | empty (now : Instant)
  | disconnected
deriving DecidableEq

structure AcceptedClient where
  handle : ClientHandle
  becameLeader : Bool
  detachOthers : Bool

def detachOthersDenied : String :=
  "attach --detach-others denied: read-only client は他 client を奪取できません (= rw / rw-no-leader で attach してください)。"

def exclusiveDenied : String :=
  "attach --exclusive denied: 他に rw client が attach 中、または handshake 進行中の接続があります (= 占有要求を満たせない)。--detach-others で奪取するか、他 client が抜けてから再試行してください。"

variable (W : World) (cfg : Config)

/-- The refusal goes out through the closing list, if it can be enqueued. -/
def rejectClient (handle : ClientHandle) (now : Instant) (message : String) : Option ClosingClient :=
  (sendControl W handle (.error { code := .modeNotAllowed, message })).1.intoClosing (now + closeFlushTimeout)

def finalizeAcceptedClient (req : HandshakeRequest) (intersect : List Cap) (setNonblocking : Bool)
    (clientId : ClientId) (clients : List ClientHandle) (otherPending : Nat) (childStopped : Bool)
    (now : Instant) (unixMs : Nat) : Except (Option ClosingClient) AcceptedClient :=
  if !setNonblocking then .error none
  else
    let handle : ClientHandle := {
      id := clientId
      mode := req.mode
      leader := false
      negotiatedCaps := intersect
      bufferLimit := cfg.clientBufferBytes
      connectedAtUnixMs := unixMs }
    if req.detachOthers ∧ req.mode = .ro then .error (rejectClient W handle now detachOthersDenied)
    else if req.exclusive ∧ ¬ req.detachOthers ∧
        (clients.any (fun c => c.mode = .rw || c.mode = .rwNoLeader) ∨ otherPending > 0) then
      .error (rejectClient W handle now exclusiveDenied)
    else
      let becameLeader := shouldAssignLeader clients req.mode
      let handle := { handle with leader := becameLeader }
      let response : HandshakeResponse := {
        caps := intersect
        sessionId := cfg.sessionId
        clientId
        leader := becameLeader
        mode := req.mode
        childStopped }
      match sendControl W handle (.handshakeResponse response) with
      | (handle, some .sent) => .ok { handle, becameLeader, detachOthers := req.detachOthers }
      | _ => .error none

/-! ## Removing clients -/

/-- `clients.remove(idx)`, the client being retired. -/
def Session.removeClient (s : Session) (idx : Nat) (ch : ClientHandle) (now : Instant) : Session :=
  { s with clients := s.clients.eraseIdx idx, closing := retireClient s.closing ch now }.pushLifecycle
    (.clientDetached ch.id)

/-- Remove the clients at these indices (descending), telling the reducer of each: the effects of
the detachments, and whether a leader was among them. -/
def detachClients (now : Instant) : List Nat → Session → DaemonState → Session × DaemonState × List Effect × Bool
  | [], s, d => (s, d, [], false)
  | idx :: idxs, s, d =>
    match s.clients[idx]? with
    | none => detachClients now idxs s d
    | some ch =>
      let (d, effects) := d.handle (.client (.detached ch.id))
      let (s, d, more, droppedAnyLeader) := detachClients now idxs (s.removeClient idx ch now) d
      (s, d, effects ++ more, ch.leader || droppedAnyLeader)

/-- Elevate a new leader and tell every client: the ids of the clients that overflowed. -/
def Session.announceNextLeader (s : Session) : Session × List ClientId :=
  let (clients, newLeader) := elevateNextLeader s.clients
  { s with clients }.broadcastControl W (.leaderNotify newLeader)

/-! ## Attaching -/

def attachRedrawFrame (screen : Screen) : Option Bytes := rawDataFrame (W.attachRedraw screen)

/-- `send_initial_attach_redraw`. -/
def sendInitialAttachRedraw (ch : ClientHandle) (screen : Screen) : ClientHandle :=
  match attachRedrawFrame W screen with
  | some payload => ch.enqueueIgnoringLimit (.redraw screen) payload
  | none => ch

/-- The notice a new client gets while the lock is held; its outcome is ignored. -/
def noticeLocked (lock : LockState) (missed : List ClientId) (ch : ClientHandle) : ClientHandle × List ClientId :=
  match lock.holder with
  | none => (ch, missed)
  | some holder =>
    let (ch', outcome) :=
      sendControl W ch (.modeChange { sessionMode := .locked, lockHolder := some holder, clientMode := none })
    (ch', if outcome = some .overflow then missed ++ [ch.id] else missed)

/-- A client that has been accepted joins the list. -/
def attachClient (s : Session) (d : DaemonState) (overflowIds : List ClientId) (accepted : AcceptedClient) :
    Session × List ClientId :=
  let (handle, missed) := noticeLocked W d.lock s.missed accepted.handle
  let syncing := W.syncInProgress s.screen
  let handle := if syncing then handle else sendInitialAttachRedraw W handle s.screen
  let s := { s with
    nextClientId := s.nextClientId + 1
    missed
    pendingRedraws := if syncing then s.pendingRedraws ++ [handle.id] else s.pendingRedraws
    clients := s.clients ++ [handle] }
  let s := s.pushLifecycle (.clientAttached handle.id handle.mode)
  if accepted.becameLeader then
    let (s, overflow) := s.broadcastControl W (.leaderNotify (some handle.id))
    (s, overflowIds ++ overflow)
  else (s, overflowIds)

/-- `--detach-others`: everybody but the new client goes. -/
def detachOthers (newId : ClientId) (now : Instant) (s : Session) (d : DaemonState) (overflowIds : List ClientId) :
    Session × DaemonState × List ClientId :=
  let others := (List.range s.clients.length).reverse.filter fun k => (s.clients[k]?).any (·.id ≠ newId)
  let (s, d, detachEffects, droppedAnyLeader) := detachClients now others s d
  let (s, overflowIds) :=
    if droppedAnyLeader then
      let (s, overflow) := s.announceNextLeader W
      (s, overflowIds ++ overflow)
    else (s, overflowIds)
  let (d, s, overflowIds) := executeWithFeedback W d detachEffects s overflowIds
  (s, d, overflowIds)

/-- The loop of `process_pending_handshakes`: `kept` are the entries before the index, `rest`
those from it on, `polls` what the `try_recv` calls find, one after another. -/
def processPendingHandshakes (now : Instant) (unixMs : Nat) (s : Session) (d : DaemonState)
    (kept rest : List PendingHandshake) (polls : List HandshakePoll) (overflowIds : List ClientId) :
    Session × DaemonState × List PendingHandshake × List ClientId :=
  match rest with
  | [] => (s, d, kept, overflowIds)
  | entry :: rest =>
    match polls.headD (.empty entry.startedAt) with
    | .ready req intersect setNonblocking =>
      match finalizeAcceptedClient W cfg req intersect setNonblocking s.nextClientId s.clients
          (kept.length + rest.length) s.childStopped now unixMs with
      | .ok accepted =>
        let (s, overflowIds) := attachClient W s d overflowIds accepted
        if accepted.detachOthers then
          let (s, d, overflowIds) := detachOthers W accepted.handle.id now s d overflowIds
          (s, d, [], overflowIds)
        else processPendingHandshakes now unixMs s d kept rest polls.tail overflowIds
      | .error rejected =>
        let s := match rejected with
          | some c => { s with closing := admitClosing s.closing c }
          | none => s
        processPendingHandshakes now unixMs s d kept rest polls.tail overflowIds
    | .failed | .disconnected => processPendingHandshakes now unixMs s d kept rest polls.tail overflowIds
    | .empty at_ =>
      let kept := if at_ - entry.startedAt ≥ handshakeTimeout then kept else kept ++ [entry]
      processPendingHandshakes now unixMs s d kept rest polls.tail overflowIds

end Hyoui.Daemon
