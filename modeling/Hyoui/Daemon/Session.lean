import Hyoui.Daemon.Control
/-!
# The serve loop

`iterate` is one turn of `serve_loop`, from the top of the loop to the next top or to the loop's
result. Everything the turn meets outside is in `IterInput`: what the sockets take and deliver,
what `poll` reports, the signals, the child, the clock. `Locals` are the loop's local variables;
they start afresh every time the loop is entered (`enterServeLoop`), which `serve` does again
after an upgrade that did not replace the process.
-/

namespace Hyoui.Daemon

open Hyoui.Protocol

def exitDrainBudget : Nat := millis 100
def upgradeFlushBudget : Nat := millis 1000
def clientRecvChunk : Nat := 64 * 1024
def masterReadChunk : Nat := 8192

structure UntilWatcher where
  needle : Bytes
  carry : Bytes := []
deriving DecidableEq

def UntilWatcher.feed (w : UntilWatcher) (chunk : Bytes) : UntilWatcher × Bool :=
  if w.needle.isEmpty then (w, false)
  else
    let window := w.carry ++ chunk
    if window.tails.any (w.needle.isPrefixOf ·) then (w, true)
    else
      let keep := w.needle.length - 1
      ({ w with carry := if window.length > keep then window.drop (window.length - keep) else window }, false)

/-- The local variables of `serve_loop`. -/
structure Locals where
  sigchldPipe : Bool
  pendingHandshakes : List PendingHandshake := []
  lifecycle : ChildLifecycle := {}
  untilWatcher : Option UntilWatcher
  serveStart : Instant
  lastOutput : Instant
  daemonState : DaemonState := {}
  deferredExit : Option RelayOutcome := none
  exitDrainDeadline : Option Instant := none
  masterDrained : Bool := false
  startupOverflow : List ClientId := []
  upgradeFlushDeadline : Option Instant := none
deriving DecidableEq

/-- The state at the top of an iteration. -/
structure State where
  sess : Session
  loc : Locals
deriving DecidableEq

/-- What `poll` reports; `readable` is whether a client's socket has input or has hung up. -/
inductive PollResult where
  | ready (listener master : Bool) (readable : ClientId → Bool) (sigchld : Bool)
  | interrupted
  | timeout
  | error

inductive MasterRead where
  | bytes (b : Bytes)
  | eof
  | eio
  | eagain
  | error
deriving DecidableEq

/-- A `read` of a client's socket; no bytes is end of input. -/
inductive RecvResult where
  | bytes (b : Bytes)
  | wouldBlock
  | error
deriving DecidableEq

/-- Everything one turn of the loop meets outside the daemon. -/
structure IterInput where
  flush : ClientId → List WriteResult := fun _ => []
  closingWrites : List (List WriteResult) := []
  upgradeNow : Instant := 0
  upgradeCheckNow : Instant := 0
  closingNow : Instant := 0
  exitNow : Instant := 0
  timeoutNow : Instant := 0
  poll : PollResult := .timeout
  /-- The drained signals, each with what the child does before it is looked at. -/
  signals : List (Signal × List ChildEvent) := []
  childBeforeObserve : List ChildEvent := []
  observeNow : Instant := 0
  /-- `procstate::is_stopped`. -/
  procStopped : Option Bool := none
  handshakes : List HandshakePoll := []
  handshakeNow : Instant := 0
  unixMs : Nat := 0
  /-- `spawn_handshake_worker`: the start of the new handshake, where one starts. -/
  accept : Option Instant := none
  masterRead : MasterRead := .eagain
  childBeforeRead : List ChildEvent := []
  readNow : Instant := 0
  recv : ClientId → RecvResult := fun _ => .wouldBlock
  frameEnv : ClientId → FrameEnv := fun _ => {}
  dropNow : Instant := 0

variable (W : World) (cfg : Config)

/-! ## The child -/

/-- The session and the clients the notice could not be sent to. -/
def notifyChildStopped (s : Session) (sig : Signal) : Session × List ClientId :=
  let policy := s.childSuspendPolicy
  let s := { s with childStopped := true }.pushLifecycle
    (.childStoppedObserved (W.signalName sig) sig cfg.childPid)
  if policy = .autoResume then (s.logs (.killPgrp sigCont), [])
  else
    let rs := s.clients.map fun ch =>
      if ch.mode = .ro ∨ .childStateV1 ∉ ch.negotiatedCaps then (ch, none)
      else
        let (ch, outcome) :=
          sendControl W ch (.sessionChildStoppedNotify cfg.childPid (some (W.signalName sig)))
        (ch, if outcome = some .sent then none else some ch.id)
    ({ s with clients := rs.map (·.1) }, rs.filterMap (·.2))

def recordChildContinued (s : Session) : Session :=
  { s with childStopped := false }.pushLifecycle (.childContinuedObserved "SIGCONT" sigCont cfg.childPid)

/-- Only the first exit counts. -/
def deferChildExit (l : Locals) (now : Instant) (code : Option Int) : Locals :=
  if l.deferredExit.isNone then
    { l with deferredExit := some (.childExited code), exitDrainDeadline := some (now + exitDrainBudget) }
  else l

/-- The session and the locals in the middle of an iteration, and its `overflow_ids`. -/
structure Work where
  sess : Session
  loc : Locals
  overflow : List ClientId

/-- What a transition of the child means for the clients and the stop flag. -/
def Work.transition (w : Work) : Option ChildTransition → Work
  | some (.stopped sig) =>
    let (sess, failed) := notifyChildStopped W cfg w.sess sig
    { w with sess, overflow := w.overflow ++ failed }
  | some .continued => { w with sess := recordChildContinued cfg w.sess }
  | some (.exited _) | none => w

/-- `poll_with_transition`, with what the child does before it. -/
def Work.pollChild (w : Work) (evs : List ChildEvent) : Work × ChildState × Option ChildTransition :=
  let (lifecycle, child, childState, transition) := w.loc.lifecycle.pollWithTransition (w.sess.child.events evs)
  ({ w with sess := { w.sess with child }, loc := { w.loc with lifecycle } }, childState, transition)

def observeChildTransition (w : Work) (evs : List ChildEvent) (now : Instant) : Work :=
  let (w, childState, transition) := w.pollChild evs
  let w := match childState with
    | .exited code => { w with loc := deferChildExit w.loc now code }
    | .alive | .stopped => w
  w.transition W cfg transition

/-- The signals drained from the self-pipe, in order. -/
def handleSuspendSignals (lifecycle : ChildLifecycle) :
    List (Signal × List ChildEvent) → Session → Session × Option RelayOutcome
  | [], s => (s, none)
  | (sig, evs) :: rest, s =>
    let s := { s with child := s.child.events evs }
    if sig = sigCont then
      if lifecycle.stopped then handleSuspendSignals lifecycle rest (s.logs (.killPgrp sigCont))
      else
        let (child, stopped) := childIsStoppedViaWaitpid s.child
        let s := { s with child }
        handleSuspendSignals lifecycle rest (if stopped then s.logs (.killPgrp sigCont) else s)
    else if sig = sigUsr1 then
      handleSuspendSignals lifecycle rest
        { s.pushLifecycle (.sessionTerminatedByCondition "upgrade-request") with upgradePending := true }
    else if sig = sigTerm ∨ sig = sigInt then
      let reason := if sig = sigInt then "sigint" else "sigterm"
      ((s.pushLifecycle (.sessionTerminatedByCondition reason)).logs (.killPgrp sigTerm),
        some .clientDetachedOrKilled)
    else handleSuspendSignals lifecycle rest s

/-! ## Timeouts -/

/-- Which timeout is due; elapsed times are cut to milliseconds. -/
def evalTimeout (elapsedSinceStart elapsedSinceOutput : Nat) (timeoutMs idleTimeoutMs : Option Nat) : Option String :=
  if timeoutMs.any fun ms => elapsedSinceStart / millis 1 ≥ ms then some "timeout"
  else if idleTimeoutMs.any fun ms => elapsedSinceOutput / millis 1 ≥ ms then some "idle-timeout"
  else none

/-! ## Redraws -/

/-- The redraw of the client with this id, if it is still attached. -/
def redrawClient (screen : Screen) (clients : List ClientHandle) (id : ClientId) : List ClientHandle :=
  match clients.findIdx? (·.id = id) with
  | some i => clients.modify i fun ch => sendInitialAttachRedraw W ch screen
  | none => clients

/-- The first redraw of the clients that attached during a synchronized update, once it is over. -/
def flushPendingRedraws (s : Session) : Session :=
  if W.syncInProgress s.screen ∨ s.pendingRedraws.isEmpty then s
  else { s with pendingRedraws := [], clients := s.pendingRedraws.foldl (redrawClient W s.screen) s.clients }

/-! ## Receiving -/

inductive FrameOrError where
  | frame (f : Frame)
  | error
deriving DecidableEq

/-- The next frame of the decoder, or the error it finds. -/
def takeFrame (ch : ClientHandle) : ClientHandle × Option FrameOrError :=
  match ch.decoder.nextFrame W.alloc with
  | .ok (some frame, decoder) => ({ ch with decoder }, some (.frame frame))
  | .ok (none, decoder) => ({ ch with decoder }, none)
  | .error _ => (ch, some .error)

/-- At most one frame of a client; the socket is read only where no frame is buffered. -/
def receiveClientFrame (ch : ClientHandle) (readable : Bool) (recv : RecvResult) :
    ClientHandle × Option FrameOrError :=
  if ch.decoder.isReady then takeFrame W ch
  else if !readable then (ch, none)
  else match recv with
    | .wouldBlock => (ch, none)
    | .error | .bytes [] => (ch, some .error)
    | .bytes b => takeFrame W { ch with decoder := ch.decoder.push W.alloc (b.take clientRecvChunk) }

/-- The walk over the polled ids: whether the client `id` is readable, and the ids left. -/
def matchRevents (id : ClientId) : List (ClientId × Bool) → Bool × List (ClientId × Bool)
  | [] => (false, [])
  | (polled, readable) :: rest => if polled = id then (readable, rest) else matchRevents id rest

/-- One frame at most from each client, with the client's index. -/
def collectFrames (recv : ClientId → RecvResult) (idx : Nat) :
    List ClientHandle → List (ClientId × Bool) → List ClientHandle × List (Nat × FrameOrError)
  | [], _ => ([], [])
  | ch :: chs, revents =>
    let (readable, revents) := matchRevents ch.id revents
    let (ch, received) := receiveClientFrame W ch readable (recv ch.id)
    let (chs, frames) := collectFrames recv (idx + 1) chs revents
    (ch :: chs, match received with
      | some fre => (idx, fre) :: frames
      | none => frames)

/-! ## One turn -/

/-- What a phase of the turn decides: go on, start the next turn, leave the loop. -/
inductive Flow where
  | go
  | again
  | ret (outcome : RelayOutcome)
deriving DecidableEq

abbrev Turn := State × Option RelayOutcome

/-- Where a turn stands before the clients' frames: it is over, or it only has to drop clients on
a poll timeout, or it goes on with the frames. -/
inductive Stage where
  | done (turn : Turn)
  | tick (w : Work)
  | frames (w : Work) (revents : List (ClientId × Bool))

/-- Leaving the turn before the clients are dropped: `overflow_ids` is lost. -/
def Work.leave (w : Work) (outcome : Option RelayOutcome) : Turn :=
  ({ sess := w.sess.ignore w.overflow, loc := w.loc }, outcome)

/-- The indices of the clients with these ids. -/
def Session.indicesOf (s : Session) (ids : List ClientId) : List Nat :=
  ids.filterMap fun id => s.clients.findIdx? (·.id = id)

/-- The indices sorted, without duplicates, last first. -/
def descending (n : Nat) (indices : List Nat) : List Nat := (List.range n).reverse.filter (· ∈ indices)

/-- The drops of the poll-timeout branch: no word to the reducer. -/
def dropSilently (now : Instant) : List Nat → Session → Session
  | [], s => s
  | idx :: idxs, s =>
    match s.clients[idx]? with
    | none => dropSilently now idxs s
    | some ch => dropSilently now idxs (s.removeClient idx ch now)

def Work.handshakes (w : Work) (inp : IterInput) : Work :=
  let (sess, daemonState, pendingHandshakes, overflow) :=
    processPendingHandshakes W cfg inp.handshakeNow inp.unixMs w.sess w.loc.daemonState []
      w.loc.pendingHandshakes inp.handshakes w.overflow
  { w with
    sess := flushPendingRedraws W sess
    loc := { w.loc with daemonState, pendingHandshakes }
    overflow }

/-- The self-pipe: drain it and handle the signals, where there is one. -/
def Work.drainSignals (w : Work) (inp : IterInput) : Work × Flow :=
  if w.loc.sigchldPipe then
    let (sess, outcome) := handleSuspendSignals w.loc.lifecycle inp.signals w.sess
    let w := { w with sess }
    match outcome with
    | some o => (w, .ret o)
    | none => (w, if w.sess.upgradePending then .again else .go)
  else (w, .go)

def Work.interrupted (w : Work) (inp : IterInput) : Turn :=
  match w.drainSignals inp with
  | (w, .ret o) => w.leave (some o)
  | (w, .again) => w.leave none
  | (w, .go) => (observeChildTransition W cfg w inp.childBeforeObserve inp.observeNow).leave none

/-- The child is looked at on a timeout where nothing else would report it. -/
def Work.timeoutObserve (w : Work) (inp : IterInput) : Work :=
  if ¬ w.loc.sigchldPipe ∨ w.loc.lifecycle.stopped then
    let w := observeChildTransition W cfg w inp.childBeforeObserve inp.observeNow
    if w.loc.lifecycle.stopped ∧ inp.procStopped = some false then
      { w with sess := recordChildContinued cfg w.sess, loc := { w.loc with lifecycle := { stopped := false } } }
    else w
  else w

/-- The end of a timeout turn without buffered frames. -/
def Work.tick (w : Work) (inp : IterInput) : Turn :=
  let drops := descending w.sess.clients.length (w.sess.indicesOf w.overflow)
  ({ sess := dropSilently inp.dropNow drops w.sess, loc := w.loc }, none)

def Work.sigchld (w : Work) (inp : IterInput) (sigchldReady : Bool) : Work × Flow :=
  if sigchldReady then
    match w.drainSignals inp with
    | (w, .go) => (observeChildTransition W cfg w inp.childBeforeObserve inp.observeNow, .go)
    | r => r
  else (w, .go)

/-- A connection is refused where either list is full, and that ends the turn. -/
def Work.listen (w : Work) (inp : IterInput) (listenerReady : Bool) : Work × Flow :=
  if listenerReady then
    if w.sess.clients.length ≥ maxClientsPerDaemon ∨ w.loc.pendingHandshakes.length ≥ maxPendingHandshakes then
      (w, .again)
    else match inp.accept with
      | some startedAt =>
        ({ w with loc := { w.loc with pendingHandshakes := w.loc.pendingHandshakes ++ [{ startedAt }] } }, .go)
      | none => (w, .go)
  else (w, .go)

/-- End of output on the PTY: has the child exited? -/
def Work.masterEof (w : Work) (inp : IterInput) : Work :=
  if w.loc.deferredExit.isSome then { w with loc := { w.loc with masterDrained := true } }
  else
    let (w, childState, transition) := w.pollChild inp.childBeforeRead
    let w := w.transition W cfg transition
    match childState with
    | .exited code => { w with loc := deferChildExit { w.loc with masterDrained := true } inp.readNow code }
    | .stopped | .alive => w

/-- Output of the child goes to the recorders, the scrollback and the screen. -/
def Session.takeOutput (s : Session) (now : Instant) (bytes : Bytes) : Session :=
  { s.logs (.push (.bytesOut bytes)) with
    scrollback := s.scrollback.push now bytes
    screen := s.screen ++ [ScreenOp.process bytes] }

/-- Output goes to the clients as well, and may end the session. -/
def Work.masterBytes (w : Work) (inp : IterInput) (bytes : Bytes) : Work × Flow :=
  let sess := w.sess.takeOutput inp.readNow bytes
  let (clients, overflow) := broadcastMasterBytes W sess.clients bytes inp.unixMs
  let w : Work := {
    sess := { sess with clients }
    loc := { w.loc with lastOutput := inp.readNow }
    overflow := w.overflow ++ overflow }
  match w.loc.deferredExit, w.loc.untilWatcher with
  | none, some watcher =>
    let (watcher, matched) := watcher.feed bytes
    let w := { w with loc := { w.loc with untilWatcher := some watcher } }
    if matched then
      ({ w with sess := (w.sess.pushLifecycle (.sessionTerminatedByCondition "until")).logs (.killPgrp sigTerm) },
        .ret .clientDetachedOrKilled)
    else (w, .go)
  | _, _ => (w, .go)

def Work.master (w : Work) (inp : IterInput) (ptyReady : Bool) : Work × Flow :=
  if ptyReady ∧ ¬ w.loc.masterDrained then
    match inp.masterRead with
    | .eof | .eio | .bytes [] => (w.masterEof W cfg inp, .go)
    | .bytes b => w.masterBytes W inp (b.take masterReadChunk)
    | .eagain => (w, .go)
    | .error => (w, .ret .error)
  else (w, .go)

/-- Where the handling of the collected frames stands. -/
structure FrameRun where
  sess : Session
  daemonState : DaemonState
  pendingHandshakes : List PendingHandshake
  indicesToDrop : List Nat
  shouldReturn : Option RelayOutcome := none

def FrameRun.step (inp : IterInput) (r : FrameRun) (idx : Nat) (fre : FrameOrError) : FrameRun :=
  if r.shouldReturn.isSome then r
  else match fre with
    | .error => { r with indicesToDrop := r.indicesToDrop ++ [idx] }
    | .frame frame =>
      let id := (r.sess.clients[idx]?).elim 0 (·.id)
      let (sess, daemonState, outcome) := handleClientFrame W cfg (inp.frameEnv id) r.sess r.daemonState idx frame
      let r := { r with sess, daemonState }
      match outcome with
      | .continue => r
      | .dropClient => { r with indicesToDrop := r.indicesToDrop ++ [idx] }
      | .dropClients indices cancelPending => { r with
          indicesToDrop := r.indicesToDrop ++ indices
          pendingHandshakes := if cancelPending then [] else r.pendingHandshakes }
      | .terminateSession o => { r with shouldReturn := some o }

def FrameRun.run (inp : IterInput) (r : FrameRun) (frames : List (Nat × FrameOrError)) : FrameRun :=
  frames.foldl (fun r f => r.step W cfg inp f.1 f.2) r

/-- The frames' results: drop the clients, elevate a leader, broadcast the lock's release. -/
def dropClients (inp : IterInput) (r : FrameRun) : Session × DaemonState :=
  let drops := descending r.sess.clients.length r.indicesToDrop
  let (s, d, detachEffects, droppedAnyLeader) := detachClients inp.dropNow drops r.sess r.daemonState
  let s :=
    if droppedAnyLeader then
      let (s, overflow) := s.announceNextLeader W
      s.ignore overflow
    else s
  executeIgnoringOverflow W d detachEffects s

/-- The frame run a turn starts with, once the frames are collected. -/
def Work.frameRun (w : Work) (inp : IterInput) (revents : List (ClientId × Bool)) :
    FrameRun × List (Nat × FrameOrError) :=
  let (clients, frames) := collectFrames W inp.recv 0 w.sess.clients revents
  let sess := { w.sess with clients }
  ({ sess
     daemonState := w.loc.daemonState
     pendingHandshakes := w.loc.pendingHandshakes
     indicesToDrop := sess.indicesOf w.overflow }, frames)

def Work.frames (w : Work) (inp : IterInput) (revents : List (ClientId × Bool)) : Turn :=
  let (r, frames) := w.frameRun W inp revents
  let r := r.run W cfg inp frames
  let (sess, daemonState) := dropClients W inp r
  ({ sess, loc := { w.loc with daemonState, pendingHandshakes := r.pendingHandshakes } }, r.shouldReturn)

/-- The rest of the turn up to the frames, in order: signals, listener, PTY. -/
def Work.afterHandshakes (w : Work) (inp : IterInput) (listenerReady masterReady sigchldReady : Bool)
    (revents : List (ClientId × Bool)) : Stage :=
  match w.sigchld W cfg inp sigchldReady with
  | (w, .ret o) => .done (w.leave (some o))
  | (w, .again) => .done (w.leave none)
  | (w, .go) =>
    match w.listen inp listenerReady with
    | (w, .ret o) => .done (w.leave (some o))
    | (w, .again) => .done (w.leave none)
    | (w, .go) =>
      match w.master W cfg inp masterReady with
      | (w, .ret o) => .done (w.leave (some o))
      | (w, .again) => .done (w.leave none)
      | (w, .go) => .frames w revents

/-- The turn from the result of `poll` on, up to the frames. -/
def Work.afterPoll (w : Work) (inp : IterInput) : Stage :=
  match inp.poll with
  | .error => .done (w.leave (some .error))
  | .interrupted => .done (w.interrupted W cfg inp)
  | .timeout =>
    let buffered := w.sess.clients.any (·.decoder.isReady)
    let w := (w.timeoutObserve W cfg inp).handshakes W cfg inp
    if buffered then w.afterHandshakes W cfg inp false false false [] else .tick w
  | .ready listener master readable sigchld =>
    let revents := w.sess.clients.map fun ch => (ch.id, readable ch.id)
    (w.handshakes W cfg inp).afterHandshakes W cfg inp listener master (sigchld && w.loc.sigchldPipe) revents

/-- An upgrade is pending: write what is queued, for a bounded time, and hand over. -/
def awaitUpgradeFlush (inp : IterInput) (s : Session) (l : Locals) : Turn :=
  let s := { s with closing := writeClosing s.closing inp.closingWrites }
  let deadline := l.upgradeFlushDeadline.getD (inp.upgradeNow + upgradeFlushBudget)
  let l := { l with upgradeFlushDeadline := some deadline }
  if s.clients.all (·.sendSettled) ∧ s.closing.isEmpty ∨ inp.upgradeCheckNow ≥ deadline then
    ({ sess := s, loc := l }, some .upgradeRequested)
  else ({ sess := s, loc := l }, none)

/-- The turn before `poll`: writes, a pending upgrade, the exit deadline, the timeouts. It may be over
then; with the loop it leaves, `startup_overflow` is lost. -/
def beforePoll (inp : IterInput) (st : State) : Except Turn Work :=
  let s := { st.sess with clients := flushClients st.sess.clients inp.flush }
  let l := st.loc
  if s.upgradePending then .error (awaitUpgradeFlush inp s l)
  else
    let s := { s with closing := advanceClosing inp.closingNow s.closing inp.closingWrites }
    match l.exitDrainDeadline.filter (inp.exitNow ≥ ·), l.deferredExit with
    | some _, some o => .error ({ sess := s.ignore l.startupOverflow, loc := { l with deferredExit := none } }, some o)
    | _, _ =>
      match evalTimeout (inp.timeoutNow - l.serveStart) (inp.timeoutNow - l.lastOutput) cfg.timeoutMs
          cfg.idleTimeoutMs with
      | some reason =>
        let s := (s.pushLifecycle (.sessionTerminatedByCondition reason)).logs (.killPgrp sigTerm)
        .error ({ sess := s.ignore l.startupOverflow, loc := l }, some .clientDetachedOrKilled)
      | none => .ok { sess := s, loc := { l with startupOverflow := [] }, overflow := l.startupOverflow }

/-- The turn up to the clients' frames. -/
def beforeFrames (inp : IterInput) (st : State) : Stage :=
  match beforePoll cfg inp st with
  | .error turn => .done turn
  | .ok w => w.afterPoll W cfg inp

/-- One turn of the loop: the next state, and the loop's result where it ends. -/
def iterate (inp : IterInput) (st : State) : Turn :=
  match beforeFrames W cfg inp st with
  | .done turn => turn
  | .tick w => w.tick inp
  | .frames w revents => w.frames W cfg inp revents

/-! ## Entering the loop, and entering it again -/

/-- What entering `serve_loop` meets outside. -/
structure EntryInput where
  sigchldPipe : Bool := true
  now : Instant := 0
  childEvents : List ChildEvent := []

/-- The locals as they are initialised. -/
def Locals.initial (e : EntryInput) : Locals := {
  sigchldPipe := e.sigchldPipe
  untilWatcher := (cfg.until.filter (!·.isEmpty)).map fun needle => { needle }
  serveStart := e.now
  lastOutput := e.now }

def enterServeLoop (e : EntryInput) (s : Session) : State :=
  let w := observeChildTransition W cfg { sess := s, loc := Locals.initial cfg e, overflow := [] }
    e.childEvents e.now
  { sess := w.sess, loc := { w.loc with startupOverflow := w.overflow } }

/-- How an upgrade ends where it does not replace the process and the session goes on. -/
inductive UpgradeFailure where
  | precheckFailed (message : String)
  | execFailed (error : String)
deriving DecidableEq

def UpgradeFailure.reason : UpgradeFailure → String
  | .precheckFailed message => s!"upgrade-precheck-failed: {message}"
  | .execFailed error => s!"upgrade-execve-failed: {error}"

/-- The outer loop of `serve` after a failed upgrade: serve the same session again. -/
def resumeServe (failure : UpgradeFailure) (e : EntryInput) (s : Session) : State :=
  enterServeLoop W cfg e
    ({ s with upgradeTarget := none }.pushLifecycle (.sessionTerminatedByCondition failure.reason)).clearUpgradePending

/-- The session a fresh `serve` starts with; an upgraded daemon brings its scrollback along. -/
def Session.initial (nowMs : Instant) (resumeScrollback : Bytes) (child : ChildProcess) : Session :=
  let scrollback : Scrollback := { maxBytes := cfg.scrollbackBytes }
  { scrollback := if resumeScrollback.isEmpty then scrollback else scrollback.push nowMs resumeScrollback
    screen := if resumeScrollback.isEmpty then [] else [.process resumeScrollback]
    childSuspendPolicy := cfg.onChildSuspend
    child }

end Hyoui.Daemon
