import Hyoui.Daemon.Child
import Hyoui.Daemon.Lock
/-!
# The state of a session

`Session` is what `Session::serve` owns and lends to every run of the serve loop: the clients,
the closing connections, the flags of `SessionState`, the scrollback and the screen. The kernel's
view of the child stands beside it. `missed` is a history: the clients whose overflow was
reported to a caller that throws the report away. No function reads it.
-/

namespace Hyoui.Daemon

open Hyoui.Protocol

structure Session where
  clients : List ClientHandle := []
  closing : List ClosingClient := []
  nextClientId : ClientId := 0
  childStopped : Bool := false
  childSuspendPolicy : ChildSuspendPolicy := .notify
  upgradePending : Bool := false
  upgradeTarget : Option String := none
  scrollback : Scrollback
  screen : Screen := []
  pendingRedraws : List ClientId := []
  child : ChildProcess := {}
  log : Log := []
  missed : List ClientId := []
deriving DecidableEq

namespace Session

def logs (s : Session) (e : LogEntry) : Session := { s with log := s.log ++ [e] }

def pushLifecycle (s : Session) (e : LifecycleEvent) : Session := s.logs (.push (.lifecycle e))

def clearUpgradePending (s : Session) : Session := { s with upgradePending := false, upgradeTarget := none }

/-- A caller throws away the report that these clients are to be disconnected; those that
overflowed are missed. -/
def ignore (s : Session) (ids : List ClientId) : Session :=
  { s with missed := s.missed ++ ids.filter fun id => s.clients.any fun ch => ch.id = id && ch.overflowed }

/-- An enqueue to the client at index `idx`. -/
def offerAt (s : Session) (idx : Nat) (item : Outgoing) (payload : Option Bytes) : Session × Option EnqueueOutcome :=
  match s.clients[idx]? with
  | none => (s, none)
  | some ch =>
    let (ch, outcome) := ch.offer item payload
    ({ s with clients := s.clients.set idx ch }, outcome)

/-- A send to the client at index `idx` whose outcome the caller does not act on. -/
def sendIgnoring (s : Session) (idx : Nat) (send : ClientHandle → ClientHandle × Option EnqueueOutcome) :
    Session × Option EnqueueOutcome :=
  match s.clients[idx]? with
  | none => (s, none)
  | some ch =>
    let (ch', outcome) := send ch
    let s := { s with clients := s.clients.set idx ch' }
    (if outcome = some .overflow then s.ignore [ch.id] else s, outcome)

variable (W : World)

/-- `let _ = send_control(&clients[idx], msg)`. -/
def reply (s : Session) (idx : Nat) (msg : ControlMessage) : Session :=
  (s.sendIgnoring idx (sendControl W · msg)).1

/-- A broadcast: the session, and the ids of the clients that overflowed. -/
def broadcastControl (s : Session) (msg : ControlMessage) : Session × List ClientId :=
  let (clients, overflow) := Daemon.broadcastControl W s.clients msg
  ({ s with clients }, overflow)

/-- `let _ = broadcast_control(clients, msg)`. -/
def broadcastControlIgnoring (s : Session) (msg : ControlMessage) : Session :=
  let (s, overflow) := s.broadcastControl W msg
  s.ignore overflow

end Session

end Hyoui.Daemon
