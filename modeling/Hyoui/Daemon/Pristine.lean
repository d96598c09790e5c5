import Hyoui.Daemon.Loop
import Hyoui.Protocol.Cbor
/-!
# A pristine session's world

The world of a session whose child has not written anything: the codec of the messages in
`ControlMessage.cbor`, an empty screen, no recordings. Runs on fixed inputs take place here.
-/

namespace Hyoui.Daemon

open Hyoui.Protocol

/-- The requests the codec reads. -/
def clientRequests : List ControlMessage := [.lockAcquire false none none true, .upgradeRequest none]

def World.pristine : World where
  encode := ControlMessage.cbor
  decode body := clientRequests.find? (·.cbor = some body)
  encodeAck ack := some ack.cbor
  stripAnsi bytes := bytes
  syncInProgress _ := false
  attachRedraw _ := []
  screenDump _ _ _ := .error .formatNotImplemented
  snapshotCells _ := none
  snapshotCursor _ := { row := 0, col := 0, visible := true }
  snapshotMode _ := {
    alternateScreen := false
    applicationKeypad := false
    applicationCursor := false
    bracketedPaste := false
    hideCursor := false }
  screenSize _ := (24, 80)
  currentSeqno _ := 0
  recordStart _ _ _ _ := .ok 1
  recordStop _ _ := false
  recordStopAll _ := 0
  recordList _ := []
  parseSignal _ := none
  signalName sig := if sig = 19 then "SIGSTOP" else if sig = 20 then "SIGTSTP" else "SIG?"
  alloc capacity needed := max (2 * capacity) needed

theorem controlFrame_isSome {W : World} {msg : ControlMessage} {body : Bytes} (h : W.encode msg = some body)
    (hfit : (Frame.cborControl body).Fits) : (W.controlFrame msg).isSome := by
  have hok := Frame.encodeTo_fits hfit
  simp only [World.controlFrame, h, Option.bind_some, hok]
  rfl

theorem fits_of_short {body : Bytes} (h : body.length ≤ 128) : (Frame.cborControl body).Fits :=
  le_trans (Nat.add_le_add_left h 1) (by decide)

/-- The two notices always encode. -/
theorem pristine_encodes : Encodes World.pristine where
  leaderNotify id := by
    obtain ⟨body, hbody, hlen⟩ := leaderNotify_fits id
    exact controlFrame_isSome hbody (fits_of_short hlen)
  modeChange m := by
    obtain ⟨body, hbody, hlen⟩ := modeChange_fits m
    exact controlFrame_isSome hbody (fits_of_short hlen)

/-! ## Inputs of its turns -/

/-- A new connection, and nothing else. -/
def acceptInput : IterInput where
  poll := .ready true false (fun _ => false) false
  accept := some 0

def handshakeRequest (mode : Mode) (caps : List Cap) : HandshakeRequest where
  caps := caps.map Cap.wire
  mode := mode
  exclusive := false
  detachOthers := false
  token := none

/-- A poll timeout in which the first pending handshake turns out complete. -/
def handshakeInput (mode : Mode) (caps : List Cap) : IterInput where
  handshakes := [.ready (handshakeRequest mode caps) caps true]

/-- A connection of which the next timeout finds the handshake complete. -/
def attachMoves (mode : Mode) (caps : List Cap) : List Move :=
  [.turn acceptInput, .turn (handshakeInput mode caps)]

/-- The bytes of a client's request. -/
def requestBytes (msg : ControlMessage) : Bytes := (World.pristine.controlFrame msg).getD []

/-- These clients send these bytes. -/
def recvInput (sent : List (ClientId × Bytes)) : IterInput where
  poll := .ready false false (fun id => sent.any (·.1 = id)) false
  recv id := (sent.find? (·.1 = id)).elim .wouldBlock fun s => .bytes s.2
  frameEnv _ := { token := .ok "0123456789abcdeffedcba9876543210" }

/-- The client asks for the lock. -/
def lockInput (id : ClientId) : IterInput := recvInput [(id, requestBytes (.lockAcquire false none none true))]

/-- The loop of a new session. -/
def pristineStart (cfg : Config) (e : EntryInput) : State :=
  enterServeLoop World.pristine cfg e (Session.initial cfg 0 [] {})

theorem pristineStart_reach (cfg : Config) (e : EntryInput) (ok : State → Move → Prop) :
    (loop World.pristine cfg).Reach ok (pristineStart cfg e) := .init ⟨e, 0, [], {}, rfl, rfl⟩

end Hyoui.Daemon
