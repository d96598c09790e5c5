import Hyoui.Client.Connection
import Hyoui.Client.CtrlzGuard
import Hyoui.Lib.Transition
/-!
# The relay of an attached client

`relay` passes what is typed to the session and what the session shows to the terminal. While the menu
of a stopped child or the prompt of `select_on_demand` is open, the typed bytes are answers to it.

A turn of its loop is three steps: the poll and the guard's timers, the daemon's frame, the typed bytes.
-/

namespace Hyoui.Client

open Hyoui.Protocol Hyoui.Lib

/-! ## A stopped child, the menu and the prompt -/

inductive OnChildSuspendSetting where
  | autoResumeAlways
  | autoResumeOnAttached
  | showChildActionMenu
deriving DecidableEq

inductive StoppedChildAction where
  | resume
  | menu
  | nothing
deriving DecidableEq

def stoppedChildAction (mode : Mode) (setting : OnChildSuspendSetting) : StoppedChildAction :=
  if mode ≠ .rw then .nothing
  else match setting with
    | .autoResumeAlways | .autoResumeOnAttached => .resume
    | .showChildActionMenu => .menu

inductive MenuAction where
  | resume
  | clientSuspend
  | detach
  | sigint
  | sighup
  | sigkill
deriving DecidableEq

def toAsciiLowercase (b : UInt8) : UInt8 := if 0x41 ≤ b ∧ b ≤ 0x5a then b + 0x20 else b

/-- Only a chunk of one byte is a key of the menu: no part of a paste or of an escape sequence is. -/
def menuActionForInput : Bytes → Option MenuAction
  | [b] =>
    if b = 0x1b then some .resume
    else
      let key := toAsciiLowercase b
      if key = 0x63 then some .resume
      else if key = 0x7a then some .clientSuspend
      else if key = 0x64 then some .detach
      else if key = 0x69 then some .sigint
      else if key = 0x68 then some .sighup
      else if key = 0x6b then some .sigkill
      else none
  | _ => none

inductive X1PromptChoice where
  | clientSuspend
  | clientQuit
  | backToAttach
deriving DecidableEq

def x1PromptChoiceForInput : Bytes → Option X1PromptChoice
  | [b] =>
    if b = ctrlZByte then some .clientSuspend
    else if b = 0x03 then some .clientQuit
    else if b = 0x1b then some .backToAttach
    else none
  | _ => none

/-! ## The state of the relay -/

/-- Who takes what is typed. -/
inductive InputFocus where
  | child
  | childMenu
  | x1Prompt
deriving DecidableEq

inductive RunOutcome where
  | childExited (exitStatus : Int)
  | detached
  | connectionLost
  | stdoutWriteFailed
  | backpressureDisconnected
deriving DecidableEq

structure RelayConfig where
  attach : AttachConfig
  onChildSuspend : OnChildSuspendSetting
  outerTtyRaw : Bool
deriving DecidableEq

/-- What the client writes to the daemon. -/
inductive Sent where
  | raw (bytes : Bytes)
  | control (message : ControlMessage)
deriving DecidableEq

/-- What comes next in a turn. -/
inductive Stage where
  | poll
  | socket
  | input
  | ended (result : Except Error RunOutcome)

/-- `sent` is what the client wrote since the start and `reads` what was typed, with the focus it found:
both are kept for the theorems only. -/
structure Relay where
  ctrlz : CtrlzGuard := {}
  focus : InputFocus := .child
  initialAttachRedrawPending : Bool := false
  response : HandshakeResponse
  stage : Stage := .poll
  sent : List Sent := []
  reads : List (InputFocus × Bytes) := []

/-- What the step meets outside: the time, the rows of the terminal and its size for the daemon, whether writes
to the daemon and to the terminal succeed, and whether the client could stop itself. -/
structure Env where
  now : Instant
  rows : Option Nat := some 24
  size : Option (Nat × Nat) := none
  winch : Bool := false
  written : Bool := true
  stdoutOk : Bool := true
  suspended : Bool := true

namespace Relay

def finish (r : Relay) (result : Except Error RunOutcome) : Relay := { r with stage := .ended result }

def send (r : Relay) (message : ControlMessage) : Relay := { r with sent := r.sent ++ [.control message] }

def forward (r : Relay) (bytes : Bytes) : Relay :=
  if bytes = [] then r else { r with sent := r.sent ++ [.raw bytes] }

def finishDetach (r : Relay) : Relay := (r.send (.detach .myself)).finish (.ok .detached)

section Steps

variable (config : RelayConfig)

/-- The menu is drawn on a raw terminal whose size is known. -/
def drawsMenu (env : Env) : Bool := config.outerTtyRaw && env.rows.isSome

def stoppedAction (r : Relay) : StoppedChildAction := stoppedChildAction r.response.mode config.onChildSuspend

def redrawRequestAllowed (r : Relay) : Bool := r.stoppedAction config = .resume

def suspendClient (r : Relay) (env : Env) (resumeAfterFg : Bool) : Relay :=
  if env.suspended && (resumeAfterFg || r.redrawRequestAllowed config) then r.send .sessionChildResumeRequest else r

/-- What a Ctrl+Z that ran out does. -/
def runCtrlzX1Action (r : Relay) (env : Env) : Relay :=
  match config.attach.ctrlzX1Action with
  | .clientSuspend => { r.suspendClient config env false with stage := .poll }
  | .clientDetach => r.finishDetach
  | .selectOnDemand => { r with focus := .x1Prompt, stage := .poll }

/-- The guard takes a chunk (none of it when only the time has passed); `next` is the stage after it. -/
def guard (r : Relay) (env : Env) (chunk : Bytes) (next : Stage) : Relay :=
  let (outcome, ctrlz) := processCtrlzGuard config.attach r.ctrlz chunk env.now
  let r := { r with ctrlz }
  if outcome.forward ≠ [] ∧ env.written = false then r.finish (.ok .connectionLost)
  else
    let r := r.forward outcome.forward
    if outcome.suspend then r.runCtrlzX1Action config env else { r with stage := next }

inductive PollOutcome where
  | ready
  | interrupted
  | timeout
deriving DecidableEq

/-- The poll and then the timers of the guard, whatever the poll says. -/
def poll (r : Relay) (env : Env) (outcome : Except Error PollOutcome) : Relay :=
  match outcome with
  | .error e => r.finish (.error e)
  | .ok .interrupted => r
  | .ok outcome =>
    let next : Stage := if outcome = .timeout then .poll else .socket
    if r.focus = .child then r.guard config env [] next else { r with stage := next }

/-- A change of the terminal's size is passed on by the leader. -/
def resize (r : Relay) (env : Env) : Relay :=
  match env.size with
  | some (cols, rows) => r.send (.resize cols rows)
  | none => r

/-- Output of the session. The first after the handshake is the redraw of the screen and not a sign that a
stopped child goes on. -/
def rawData (r : Relay) (env : Env) : Relay :=
  let initial := r.initialAttachRedrawPending
  let r := { r with initialAttachRedrawPending := false }
  let r := if r.focus = .childMenu ∧ initial = false then { r with focus := .child } else r
  if r.focus = .x1Prompt then { r with stage := .poll }
  else if env.stdoutOk = false then r.finish (.ok .stdoutWriteFailed)
  else if initial = true ∧ r.focus = .childMenu then
    if r.stoppedAction config = .menu ∧ drawsMenu config env = true then { r with ctrlz := {}, stage := .input }
    else { r with focus := .child, stage := .input }
  else { r with stage := .input }

def leaderNotify (r : Relay) (env : Env) (clientId : Option ClientId) : Relay :=
  let wasLeader := r.response.leader
  let nowLeader : Bool := clientId = some r.response.clientId
  let r := { r with response := { r.response with leader := nowLeader } }
  if wasLeader = false ∧ nowLeader = true then r.resize env else r

def control (r : Relay) (env : Env) (message : Option ControlMessage) : Relay :=
  match message with
  | some (.sessionExitNotify exitStatus _) => r.finish (.ok (.childExited exitStatus))
  | some (.sessionChildStoppedNotify _ _) =>
    let r := { r with stage := .input }
    match r.stoppedAction config with
    | .resume => r.send .sessionChildResumeRequest
    | .menu => if drawsMenu config env = true then { r with ctrlz := {}, focus := .childMenu } else r
    | .nothing => r
  | some (.modeChange change) =>
    { r with response := { r.response with mode := change.clientMode.getD r.response.mode }, stage := .input }
  | some (.leaderNotify clientId) => { r.leaderNotify env clientId with stage := .input }
  | some (.error e) =>
    if e.code = .backpressureDisconnect then r.finish (.ok .backpressureDisconnected) else { r with stage := .input }
  | _ => { r with stage := .input }

inductive SocketEvent where
  | quiet
  | hangup
  | frame (read : Except FrameError Frame)

def socket (C : Codec) (r : Relay) (env : Env) (event : SocketEvent) : Relay :=
  let r := if env.winch = true ∧ r.response.leader = true then r.resize env else r
  match event with
  | .quiet => { r with stage := .input }
  | .hangup => r.finish (.ok .connectionLost)
  | .frame (.error (.protocol (.unexpectedEof _))) => r.finish (.ok .connectionLost)
  | .frame (.error _) => r.finish (.error (.invalid "protocol error from daemon"))
  | .frame (.ok frame) =>
    if frame.ty = typeRawData then r.rawData config env
    else if frame.ty = typeCborControl then r.control config env (C.decode frame.body)
    else if frame.ty = typeRawAck then { r with stage := .input }
    else r.finish (.error (.invalid "unknown frame type from daemon"))

def sendTerminatingSignal (r : Relay) (name : String) : Relay :=
  if name ≠ "SIGKILL" then (r.send (.signal "SIGCONT")).send (.signal name) else r.send (.signal name)

def runMenuAction (r : Relay) (env : Env) (action : MenuAction) : Relay :=
  match action with
  | .detach => r.finishDetach
  | .resume => { r with focus := .child }.send .sessionChildResumeRequest
  | .clientSuspend => { r with focus := .child }.suspendClient config env true
  | .sigint => { r with focus := .child }.sendTerminatingSignal "SIGINT"
  | .sighup => { r with focus := .child }.sendTerminatingSignal "SIGHUP"
  | .sigkill => { r with focus := .child }.sendTerminatingSignal "SIGKILL"

def runX1PromptChoice (r : Relay) (env : Env) (choice : X1PromptChoice) : Relay :=
  match choice with
  | .clientSuspend => { r with focus := .child }.suspendClient config env false
  | .clientQuit => r.finishDetach
  | .backToAttach =>
    let r := { r with focus := .child }
    if r.redrawRequestAllowed config then r.send .sessionChildResumeRequest else r

inductive InputEvent where
  /-- There is no input, or nothing of it is ready, or its read was interrupted. -/
  | quiet
  /-- End of file, seen by the poll or the read, or an error of the read. -/
  | closed
  | read (chunk : Bytes)
deriving DecidableEq

def input (r : Relay) (env : Env) (event : InputEvent) : Relay :=
  match event with
  | .quiet => { r with stage := .poll }
  | .closed | .read [] => r.finishDetach
  | .read chunk =>
    let r := { r with stage := .poll, reads := r.reads ++ [(r.focus, chunk)] }
    match r.focus with
    | .childMenu => match menuActionForInput chunk with
      | some action => r.runMenuAction config env action
      | none => r
    | .x1Prompt => match x1PromptChoiceForInput chunk with
      | some choice => r.runX1PromptChoice config env choice
      | none => r
    | .child => r.guard config env chunk .poll

end Steps

end Relay

/-! ## Its runs -/

inductive RelayEvent where
  | poll (outcome : Except Error Relay.PollOutcome)
  | socket (event : Relay.SocketEvent)
  | input (event : Relay.InputEvent)

/-- The relay of a fresh connection; a child that is already stopped opens the menu at once. -/
def Relay.start (config : RelayConfig) (response : HandshakeResponse) (env : Env) : Relay :=
  let r : Relay := { response }
  if response.childStopped = true ∧ r.stoppedAction config = .menu ∧ Relay.drawsMenu config env = true then
    { r with focus := .childMenu, initialAttachRedrawPending := true }
  else r

def relay (C : Codec) (config : RelayConfig) : System Relay (RelayEvent × Env) where
  init r := ∃ response env, r = Relay.start config response env
  step r
    | (.poll outcome, env) => match r.stage with
      | .poll => some (r.poll config env outcome)
      | _ => none
    | (.socket event, env) => match r.stage with
      | .socket => some (r.socket config C env event)
      | _ => none
    | (.input event, env) => match r.stage with
      | .input => some (r.input config env event)
      | _ => none

/-! ## What the guard lets through -/

section Through

variable {config : AttachConfig} {now : Instant}

theorem foldl_sublist (tokens : List KeyToken) (acc : CtrlzGuardState × GuardOutcome) :
    (tokens.foldl (guardToken config now) acc).2.forward.Sublist (acc.2.forward ++ tokens.flatMap KeyToken.bytes) := by
  induction tokens generalizing acc with
  | nil => simp
  | cons token tokens ih =>
    refine (ih _).trans ?_
    rw [List.flatMap_cons, ← List.append_assoc]
    refine List.Sublist.append_right ?_ _
    obtain ⟨state, outcome⟩ := acc
    cases token with
    | passthrough bytes => exact List.Sublist.refl _
    | ctrlZ bytes =>
      cases state with
      | pending deadline => exact List.Sublist.refl _
      | idle =>
        simp only [guardToken]
        split <;> exact List.sublist_append_left _ _

/-- The guard makes up no byte and changes no order. -/
theorem processCtrlzGuard_sublist (guard : CtrlzGuard) (chunk : Bytes) :
    ((processCtrlzGuard config guard chunk now).1.forward ++
      (processCtrlzGuard config guard chunk now).2.decoder.partialBytes).Sublist (guard.decoder.partialBytes ++ chunk) := by
  cases hon : config.ctrlzGuard with
  | false => simp [processCtrlzGuard, hon, KeyDecoder.takePartial]
  | true =>
    rw [← KeyDecoder.feed_bytes guard.decoder chunk now]
    simp only [processCtrlzGuard, hon]
    exact List.Sublist.append_right (foldl_sublist _ _) _

end Through

/-! ## A suspend that leaves nothing behind -/

def Key.isCtrlZ : Key → Bool
  | .ctrlZ _ => true
  | .byte _ => false

/-- How many presses of Ctrl+Z come after the last other key. -/
def pressesAtEnd (keys : List Key) : Nat := (keys.reverse.takeWhile Key.isCtrlZ).length

/-- The bytes the guard looks at: those held and not given up, and those read. -/
def bytesSeen (guard : CtrlzGuard) (chunk : Bytes) (now : Instant) : Bytes :=
  (if guard.decoder.expired now then [] else guard.decoder.partialBytes) ++ chunk

/-- A held Ctrl+Z has run out or, without a delay, there is a Ctrl+Z among the bytes. -/
def confirms (config : AttachConfig) (guard : CtrlzGuard) (chunk : Bytes) (now : Instant) : Bool :=
  config.ctrlzGuard && (guard.state.due now ||
    (config.ctrlzGuardDelay = 0 && (keyScanner.drain (bytesSeen guard chunk now)).1.any Key.isCtrlZ))

/-- The bytes end with a whole key and, with a delay, not with an odd Ctrl+Z. -/
def endsWhole (config : AttachConfig) (guard : CtrlzGuard) (chunk : Bytes) (now : Instant) : Bool :=
  match keyScanner.drain (bytesSeen guard chunk now) with
  | (keys, .ok rest) => rest = [] && (config.ctrlzGuardDelay = 0 || pressesAtEnd keys % 2 = 0)
  | (_, .error e) => nomatch e

section Leaving

variable {config : AttachConfig} {now : Instant}

theorem pressesAtEnd_append_ctrlZ (keys : List Key) (bytes : Bytes) :
    pressesAtEnd (keys ++ [.ctrlZ bytes]) = pressesAtEnd keys + 1 := by
  simp [pressesAtEnd, List.takeWhile_cons, Key.isCtrlZ]

theorem pressesAtEnd_append_byte (keys : List Key) (b : UInt8) : pressesAtEnd (keys ++ [.byte b]) = 0 := by
  simp [pressesAtEnd, Key.isCtrlZ]

/-- From an idle guard, every second Ctrl+Z in a row leaves it idle. -/
theorem foldl_idle_iff (hdelay : config.ctrlzGuardDelay ≠ 0) (keys : List Key) (outcome : GuardOutcome) :
    ((keys.map Key.token).foldl (guardToken config now) (.idle, outcome)).1 = .idle ↔ pressesAtEnd keys % 2 = 0 := by
  induction keys using List.reverseRecOn with
  | nil => simp [pressesAtEnd]
  | append_singleton keys key ih =>
    rw [List.map_append, List.foldl_append]
    simp only [List.map_cons, List.map_nil, List.foldl_cons, List.foldl_nil]
    generalize (keys.map Key.token).foldl (guardToken config now) (.idle, outcome) = acc at ih
    obtain ⟨state, out⟩ := acc
    cases key with
    | byte b => simp [pressesAtEnd_append_byte, Key.token, guardToken]
    | ctrlZ bytes =>
      rw [pressesAtEnd_append_ctrlZ]
      cases state with
      | idle =>
        have := ih.1 rfl
        simp only [Key.token, guardToken, if_neg hdelay, reduceCtorEq, false_iff]
        omega
      | pending deadline =>
        have : ¬ pressesAtEnd keys % 2 = 0 := fun h => by cases ih.2 h
        simp only [Key.token, guardToken, true_iff]
        omega

/-- Without a delay, a guard that suspends is idle. -/
theorem foldl_idle_of_suspend (hdelay : config.ctrlzGuardDelay = 0) (tokens : List KeyToken)
    {acc : CtrlzGuardState × GuardOutcome} (hacc : acc.2.suspend = true → acc.1 = .idle)
    (h : (tokens.foldl (guardToken config now) acc).2.suspend = true) :
    (tokens.foldl (guardToken config now) acc).1 = .idle := by
  induction tokens generalizing acc with
  | nil => exact hacc h
  | cons token tokens ih =>
    refine ih (fun _ => ?_) h
    obtain ⟨state, out⟩ := acc
    cases token with
    | passthrough bytes => rfl
    | ctrlZ bytes => cases state <;> simp [guardToken, hdelay]

theorem suspend_of_foldl (keys : List Key) {acc : CtrlzGuardState × GuardOutcome}
    (h : ((keys.map Key.token).foldl (guardToken config now) acc).2.suspend = true) :
    acc.2.suspend = true ∨ keys.any Key.isCtrlZ = true := by
  induction keys generalizing acc with
  | nil => exact .inl h
  | cons key keys ih =>
    cases key with
    | ctrlZ bytes => simp [Key.isCtrlZ]
    | byte b => simpa [Key.isCtrlZ, Key.token, guardToken] using ih h

/-- Bytes that are no key neither suspend nor leave a Ctrl+Z held. -/
theorem foldl_given (given : Bytes) (acc : CtrlzGuardState × GuardOutcome) :
    (((given.map Key.byte).map Key.token).foldl (guardToken config now) acc).2.suspend = acc.2.suspend ∧
      (acc.1 = .idle → (((given.map Key.byte).map Key.token).foldl (guardToken config now) acc).1 = .idle) := by
  induction given generalizing acc with
  | nil => exact ⟨rfl, id⟩
  | cons b given ih =>
    obtain ⟨hsuspend, hidle⟩ := ih (guardToken config now acc (.passthrough [b]))
    exact ⟨hsuspend, fun _ => hidle rfl⟩

/-- What the tokens of a feed say: the bytes given up and the keys of the bytes seen. -/
theorem feed_seen (d : KeyDecoder) (chunk : Bytes) (now : Instant) :
    ∃ given : Bytes, (d.feed chunk now).1.flatMap KeyToken.keys = given.map .byte ++
        (keyScanner.drain ((if d.expired now then [] else d.partialBytes) ++ chunk)).1 ∧
      (keyScanner.drain ((if d.expired now then [] else d.partialBytes) ++ chunk)).2 =
        .ok (d.feed chunk now).2.partialBytes := by
  cases hexp : d.expired now with
  | true => exact ⟨d.partialBytes, KeyDecoder.feed_keys_expired _ hexp⟩
  | false => exact ⟨[], KeyDecoder.feed_keys _ hexp⟩

theorem endsWhole_iff {guard : CtrlzGuard} {chunk : Bytes} (hrest : (keyScanner.drain (bytesSeen guard chunk now)).2 =
    .ok (guard.decoder.feed chunk now).2.partialBytes) :
    endsWhole config guard chunk now = true ↔ (guard.decoder.feed chunk now).2.partialBytes = [] ∧
      (config.ctrlzGuardDelay = 0 ∨ pressesAtEnd (keyScanner.drain (bytesSeen guard chunk now)).1 % 2 = 0) := by
  unfold endsWhole
  generalize keyScanner.drain (bytesSeen guard chunk now) = drained at hrest ⊢
  obtain ⟨keys, rest⟩ := drained
  cases hrest
  simp

/-- A call that confirms a suspend and sees whole keys leaves the guard as fresh. -/
theorem guard_fresh {guard : CtrlzGuard} {chunk : Bytes}
    (hsuspend : (processCtrlzGuard config guard chunk now).1.suspend = true)
    (hwhole : confirms config guard chunk now = true → endsWhole config guard chunk now = true) :
    (processCtrlzGuard config guard chunk now).2 = {} := by
  have hon : config.ctrlzGuard = true := by
    by_contra hoff
    rw [Bool.not_eq_true] at hoff
    simp [processCtrlzGuard, hoff] at hsuspend
  obtain ⟨given, hkeys, hrest⟩ := feed_seen guard.decoder chunk now
  generalize hstart : (if guard.state.due now then CtrlzGuardState.idle else guard.state) = start
  have hcall := processCtrlzGuard_on hon hstart chunk
  have hreported := hsuspend
  rw [hcall] at hsuspend ⊢
  rw [foldl_tokens (KeyDecoder.feed_ne _ _ _), hkeys, List.map_append, List.foldl_append] at hsuspend ⊢
  obtain ⟨hdue, hidle⟩ := @foldl_given config now given
    (start, { forward := [], suspend := guard.state.due now })
  generalize ((given.map Key.byte).map Key.token).foldl (guardToken config now)
    (start, { forward := [], suspend := guard.state.due now }) = acc at hsuspend hdue hidle ⊢
  have hacc : acc.2.suspend = true → acc.1 = .idle := by
    intro h
    have hnow : guard.state.due now = true := hdue.symm.trans h
    rw [hnow, if_pos rfl] at hstart
    exact hidle hstart.symm
  have hlate : config.ctrlzGuardDelay ≠ 0 → guard.state.due now = true := by
    intro hdelay
    rwa [suspend_eq_due hon (Nat.pos_of_ne_zero hdelay)] at hreported
  have hconfirms : confirms config guard chunk now = true := by
    rw [confirms, hon, Bool.true_and, Bool.or_eq_true]
    by_cases hdelay : config.ctrlzGuardDelay = 0
    · obtain h | h := suspend_of_foldl _ hsuspend
      · exact .inl (hdue.symm.trans h)
      · right
        rw [hdelay]
        simpa [bytesSeen] using h
    · exact .inl (hlate hdelay)
  obtain ⟨hleft, hparity⟩ := (endsWhole_iff hrest).1 (hwhole hconfirms)
  have hstate : (((keyScanner.drain (bytesSeen guard chunk now)).1.map Key.token).foldl (guardToken config now) acc).1 = .idle := by
    by_cases hdelay : config.ctrlzGuardDelay = 0
    · exact foldl_idle_of_suspend hdelay _ hacc hsuspend
    · obtain ⟨state, outcome⟩ := acc
      obtain rfl : state = .idle := hacc (hdue.trans (hlate hdelay))
      exact (foldl_idle_iff hdelay _ _).2 (hparity.resolve_left hdelay)
  have hdecoder : (guard.decoder.feed chunk now).2 = {} := by
    have hnone := KeyDecoder.deadline_none hleft
    generalize (guard.decoder.feed chunk now).2 = d at hleft hnone
    obtain ⟨held, deadline⟩ := d
    cases hleft
    cases hnone
    rfl
  exact congrArg₂ CtrlzGuard.mk hstate hdecoder

end Leaving

/-! ## Steps -/

namespace Relay

/-- The bytes the child was sent. -/
def forwarded (r : Relay) : Bytes := r.sent.flatMap fun
  | .raw bytes => bytes
  | .control _ => []

/-- The bytes typed to the child. -/
def readByChild (r : Relay) : Bytes := (r.reads.filter (·.1 = .child)).flatMap Prod.snd

/-- While the menu or the prompt is open the guard is as fresh, and what went to the child or is held for it was
typed to the child. -/
structure Apart (r : Relay) : Prop where
  fresh : r.focus ≠ .child → r.ctrlz = {}
  typed : (r.forwarded ++ r.ctrlz.decoder.partialBytes).Sublist r.readByChild

/-- A step that has nothing for the guard. -/
structure Aside (r r' : Relay) : Prop where
  forwarded : r'.forwarded = r.forwarded
  readByChild : r'.readByChild = r.readByChild
  ctrlz : r'.ctrlz = {} ∨ (r'.ctrlz = r.ctrlz ∧ (r'.focus = .child ∨ r'.focus = r.focus))

section Asides

variable {config : RelayConfig} {r r' r'' : Relay} {env : Env}

theorem Aside.refl (r : Relay) : Aside r r := ⟨rfl, rfl, .inr ⟨rfl, .inr rfl⟩⟩

theorem Aside.trans (h : Aside r r') (h' : Aside r' r'') : Aside r r'' := by
  refine ⟨h'.forwarded.trans h.forwarded, h'.readByChild.trans h.readByChild, ?_⟩
  obtain hctrlz' | ⟨hctrlz', hfocus'⟩ := h'.ctrlz
  · exact .inl hctrlz'
  · obtain hctrlz | ⟨hctrlz, hfocus⟩ := h.ctrlz
    · exact .inl (hctrlz'.trans hctrlz)
    · refine .inr ⟨hctrlz'.trans hctrlz, ?_⟩
      obtain hfocus' | hfocus' := hfocus'
      · exact .inl hfocus'
      · rwa [hfocus']

theorem Aside.apart (h : Aside r r') (hr : Apart r) : Apart r' := by
  refine ⟨fun hfocus => ?_, ?_⟩
  · obtain hctrlz | ⟨hctrlz, hchild | hsame⟩ := h.ctrlz
    · exact hctrlz
    · exact absurd hchild hfocus
    · rw [hctrlz, hr.fresh (hsame ▸ hfocus)]
  · rw [h.forwarded, h.readByChild]
    obtain hctrlz | ⟨hctrlz, -⟩ := h.ctrlz
    · rw [hctrlz]
      simpa using (List.sublist_append_left _ _).trans hr.typed
    · rw [hctrlz]
      exact hr.typed

theorem aside_stage (r : Relay) (stage : Stage) : Aside r { r with stage } := ⟨rfl, rfl, .inr ⟨rfl, .inr rfl⟩⟩

theorem aside_child (r : Relay) (stage : Stage) : Aside r { r with focus := .child, stage } :=
  ⟨rfl, rfl, .inr ⟨rfl, .inl rfl⟩⟩

theorem aside_fresh (r : Relay) (focus : InputFocus) (stage : Stage) : Aside r { r with ctrlz := {}, focus, stage } :=
  ⟨rfl, rfl, .inl rfl⟩

theorem aside_send (r : Relay) (message : ControlMessage) : Aside r (r.send message) :=
  ⟨by simp [Relay.forwarded, send], rfl, .inr ⟨rfl, .inr rfl⟩⟩

theorem aside_finishDetach (r : Relay) : Aside r r.finishDetach := (aside_send r _).trans (aside_stage _ _)

theorem aside_suspendClient (r : Relay) (env : Env) (resumeAfterFg : Bool) :
    Aside r (r.suspendClient config env resumeAfterFg) := by
  unfold suspendClient
  split
  · exact aside_send r _
  · exact .refl r

theorem aside_resize (r : Relay) (env : Env) : Aside r (r.resize env) := by
  unfold resize
  split
  · exact aside_send r _
  · exact .refl r

theorem aside_runMenuAction (r : Relay) (env : Env) (action : MenuAction) : Aside r (r.runMenuAction config env action) := by
  have hchild := aside_child r r.stage
  cases action with
  | detach => exact aside_finishDetach r
  | resume => exact hchild.trans (aside_send _ _)
  | clientSuspend => exact hchild.trans (aside_suspendClient _ env true)
  | sigint => exact (hchild.trans (aside_send _ _)).trans (aside_send _ _)
  | sighup => exact (hchild.trans (aside_send _ _)).trans (aside_send _ _)
  | sigkill => exact hchild.trans (aside_send _ _)

theorem aside_runX1PromptChoice (r : Relay) (env : Env) (choice : X1PromptChoice) :
    Aside r (r.runX1PromptChoice config env choice) := by
  have hchild := aside_child r r.stage
  cases choice with
  | clientSuspend => exact hchild.trans (aside_suspendClient _ env false)
  | clientQuit => exact aside_finishDetach r
  | backToAttach =>
    simp only [runX1PromptChoice]
    split
    · exact hchild.trans (aside_send _ _)
    · exact hchild

theorem aside_rawData (r : Relay) (env : Env) : Aside r (r.rawData config env) := by
  simp only [rawData]
  -- The menu closes when the child shows that it goes on.
  generalize hclosed : (if r.focus = .childMenu ∧ r.initialAttachRedrawPending = false then
    { r with initialAttachRedrawPending := false, focus := .child }
    else { r with initialAttachRedrawPending := false } : Relay) = closed
  have hr : Aside r closed := by
    rw [← hclosed]
    split
    · exact ⟨rfl, rfl, .inr ⟨rfl, .inl rfl⟩⟩
    · exact ⟨rfl, rfl, .inr ⟨rfl, .inr rfl⟩⟩
  refine hr.trans ?_
  split
  · exact aside_stage _ _
  · split
    · exact aside_stage _ _
    · split
      · split
        · exact ⟨rfl, rfl, .inl rfl⟩
        · exact aside_child _ _
      · exact aside_stage _ _

theorem aside_leaderNotify (r : Relay) (env : Env) (clientId : Option ClientId) : Aside r (r.leaderNotify env clientId) := by
  have hleader : Aside r
      { r with response := { r.response with leader := decide (clientId = some r.response.clientId) } } :=
    ⟨rfl, rfl, .inr ⟨rfl, .inr rfl⟩⟩
  simp only [leaderNotify]
  split
  · exact hleader.trans (aside_resize _ env)
  · exact hleader

theorem aside_control (r : Relay) (env : Env) (message : Option ControlMessage) : Aside r (r.control config env message) := by
  simp only [control]
  split
  · exact aside_stage _ _
  · split
    · exact (aside_stage r .input).trans (aside_send _ _)
    · split
      · exact aside_fresh r .childMenu .input
      · exact aside_stage _ _
    · exact aside_stage _ _
  · exact ⟨rfl, rfl, .inr ⟨rfl, .inr rfl⟩⟩
  · exact (aside_leaderNotify r env _).trans (aside_stage _ _)
  · split <;> exact aside_stage _ _
  · exact aside_stage _ _

theorem aside_socket (C : Codec) (r : Relay) (env : Env) (event : SocketEvent) : Aside r (r.socket config C env event) := by
  simp only [socket]
  generalize hresized : (if env.winch = true ∧ r.response.leader = true then r.resize env else r) = resized
  have hr : Aside r resized := by
    rw [← hresized]
    split
    · exact aside_resize r env
    · exact .refl r
  refine hr.trans ?_
  split
  · exact aside_stage _ _
  · exact aside_stage _ _
  · exact aside_stage _ _
  · exact aside_stage _ _
  · split
    · exact aside_rawData _ env
    · split
      · exact aside_control _ env _
      · split <;> exact aside_stage _ _

end Asides

/-! ## The guard in the relay -/

/-- When the guard takes these bytes for the child and the prompt would open, they end with a whole key. -/
def wholeAt (config : RelayConfig) (r : Relay) (chunk : Bytes) (now : Instant) : Bool :=
  config.attach.ctrlzX1Action ≠ .selectOnDemand || r.focus ≠ .child ||
    !confirms config.attach r.ctrlz chunk now || endsWhole config.attach r.ctrlz chunk now

/-- The condition on a step under which an opening prompt finds nothing left of what was typed to the child. -/
def leavesNothing (config : RelayConfig) (r : Relay) (e : RelayEvent × Env) : Bool :=
  match e.1 with
  | .poll (.ok .interrupted) => true
  | .poll (.ok _) => r.wholeAt config [] e.2.now
  | .input (.read chunk) => r.wholeAt config chunk e.2.now
  | _ => true

section Guarding

variable {config : RelayConfig} {r : Relay} {env : Env} {chunk : Bytes}

theorem forwarded_forward (r : Relay) (bytes : Bytes) : (r.forward bytes).forwarded = r.forwarded ++ bytes := by
  unfold forward
  split <;> simp_all [Relay.forwarded]

theorem forward_rest (r : Relay) (bytes : Bytes) : (r.forward bytes).ctrlz = r.ctrlz ∧
    (r.forward bytes).focus = r.focus ∧ (r.forward bytes).readByChild = r.readByChild := by
  unfold forward
  split <;> exact ⟨rfl, rfl, rfl⟩

/-- What the action of a Ctrl+Z that ran out needs when it opens the prompt: a fresh guard. -/
theorem apart_runCtrlzX1Action (hr : Apart r) (hfresh : config.attach.ctrlzX1Action = .selectOnDemand → r.ctrlz = {}) :
    Apart (r.runCtrlzX1Action config env) := by
  unfold runCtrlzX1Action
  split
  · exact ((aside_suspendClient r env false).trans (aside_stage _ _)).apart hr
  · exact (aside_finishDetach r).apart hr
  · rename_i hselect
    exact ⟨fun _ => hfresh hselect, hr.typed⟩

theorem apart_guard (hfocus : r.focus = .child)
    (hr : (r.forwarded ++ (r.ctrlz.decoder.partialBytes ++ chunk)).Sublist r.readByChild)
    (hwhole : r.wholeAt config chunk env.now = true) (next : Stage) : Apart (r.guard config env chunk next) := by
  have hthrough := @processCtrlzGuard_sublist config.attach env.now r.ctrlz chunk
  have hfresh : config.attach.ctrlzX1Action = .selectOnDemand →
      (processCtrlzGuard config.attach r.ctrlz chunk env.now).1.suspend = true →
      (processCtrlzGuard config.attach r.ctrlz chunk env.now).2 = {} := by
    intro hselect hsuspend
    refine guard_fresh hsuspend fun hconfirms => ?_
    simpa [wholeAt, hselect, hfocus, hconfirms] using hwhole
  simp only [guard]
  generalize processCtrlzGuard config.attach r.ctrlz chunk env.now = result at hthrough hfresh ⊢
  obtain ⟨outcome, ctrlz⟩ := result
  have hsent := (List.Sublist.append_left hthrough r.forwarded).trans hr
  split
  · refine ⟨fun hne => absurd hfocus hne, ?_⟩
    exact (List.Sublist.append_left (List.sublist_append_right _ _) _).trans hsent
  · obtain ⟨hctrlz, hsame, hread⟩ := forward_rest { r with ctrlz } outcome.forward
    have hpassed : Apart ({ r with ctrlz }.forward outcome.forward) := by
      refine ⟨fun hne => absurd (hsame.trans hfocus) hne, ?_⟩
      rw [forwarded_forward, hctrlz, hread, List.append_assoc]
      exact hsent
    split
    · rename_i hsuspend
      exact apart_runCtrlzX1Action hpassed fun hselect => hctrlz.trans (hfresh hselect hsuspend)
    · exact (aside_stage _ next).apart hpassed

/-- The timers of the guard run only while the child has the focus. -/
theorem apart_timers (hr : Apart r) (hwhole : r.wholeAt config [] env.now = true) (next : Stage) :
    Apart (if r.focus = .child then r.guard config env [] next else { r with stage := next }) := by
  split
  · rename_i hfocus
    exact apart_guard hfocus (by simpa using hr.typed) hwhole next
  · exact (aside_stage _ _).apart hr

theorem apart_poll (hr : Apart r) (outcome : Except Error PollOutcome)
    (hwhole : r.leavesNothing config (.poll outcome, env) = true) : Apart (r.poll config env outcome) := by
  cases outcome with
  | error e => exact (aside_stage _ _).apart hr
  | ok outcome =>
    cases outcome with
    | interrupted => exact hr
    | ready => exact apart_timers hr hwhole _
    | timeout => exact apart_timers hr hwhole _

theorem apart_input (hr : Apart r) (event : InputEvent)
    (hwhole : r.leavesNothing config (.input event, env) = true) : Apart (r.input config env event) := by
  cases event with
  | quiet => exact (aside_stage _ _).apart hr
  | closed => exact (aside_finishDetach r).apart hr
  | read chunk =>
    cases chunk with
    | nil => exact (aside_finishDetach r).apart hr
    | cons b chunk =>
      simp only [input]
      -- What was typed to the menu or the prompt is no byte typed to the child.
      have hother : r.focus ≠ .child →
          Aside r { r with stage := .poll, reads := r.reads ++ [(r.focus, b :: chunk)] } := by
        intro hfocus
        exact ⟨rfl, by simp [readByChild, hfocus], .inr ⟨rfl, .inr rfl⟩⟩
      split
      · rename_i hfocus
        have hr' := hother (by rw [hfocus]; decide)
        split
        · exact (hr'.trans (aside_runMenuAction _ env _)).apart hr
        · exact hr'.apart hr
      · rename_i hfocus
        have hr' := hother (by rw [hfocus]; decide)
        split
        · exact (hr'.trans (aside_runX1PromptChoice _ env _)).apart hr
        · exact hr'.apart hr
      · rename_i hfocus
        refine apart_guard (r := { r with stage := .poll, reads := r.reads ++ [(r.focus, b :: chunk)] }) hfocus ?_ hwhole _
        have hread : readByChild { r with stage := .poll, reads := r.reads ++ [(r.focus, b :: chunk)] } =
            r.readByChild ++ (b :: chunk) := by simp [readByChild, hfocus]
        rw [hread, ← List.append_assoc]
        exact List.Sublist.append_right hr.typed _

theorem apart_start (config : RelayConfig) (response : HandshakeResponse) (env : Env) :
    Apart (start config response env) := by
  simp only [start]
  split <;> exact ⟨fun _ => rfl, List.Sublist.refl _⟩

end Guarding

end Relay

/-- Under the condition on its steps, the relay keeps what is typed to the menu or the prompt apart from what is typed
to the child. -/
theorem relay_apart {C : Codec} {config : RelayConfig} {r : Relay}
    (h : (relay C config).Reach (fun r e => r.leavesNothing config e = true) r) : r.Apart := by
  refine h.inv Relay.Apart ?_ ?_
  · rintro r ⟨response, env, rfl⟩
    exact Relay.apart_start config response env
  · rintro r ⟨event, env⟩ r' - hr hwhole hstep
    cases event with
    | poll outcome =>
      simp only [relay] at hstep
      split at hstep
      · cases hstep
        exact Relay.apart_poll hr outcome hwhole
      · cases hstep
    | socket event =>
      simp only [relay] at hstep
      split at hstep
      · cases hstep
        exact (Relay.aside_socket C r env event).apart hr
      · cases hstep
    | input event =>
      simp only [relay] at hstep
      split at hstep
      · cases hstep
        exact Relay.apart_input hr event hwhole
      · cases hstep

/-- While the menu or the prompt is open the guard holds nothing and asks for no timer, and no byte typed to them
goes to the child, then or later. -/
theorem relay_quiet {C : Codec} {config : RelayConfig} {r : Relay}
    (h : (relay C config).Reach (fun r e => r.leavesNothing config e = true) r) :
    (r.focus ≠ .child → r.ctrlz.state = .idle ∧ r.ctrlz.decoder.partialBytes = [] ∧
      ∀ now, ctrlzGuardPollTimeout r.ctrlz now = none) ∧
    (r.forwarded ++ r.ctrlz.decoder.partialBytes).Sublist r.readByChild := by
  have hr := relay_apart h
  refine ⟨fun hfocus => ?_, hr.typed⟩
  rw [hr.fresh hfocus]
  exact ⟨rfl, rfl, fun _ => rfl⟩

section Prompts

/-- The prompt opens one second after a single Ctrl+Z. -/
def prompting : RelayConfig :=
  { attach := ⟨true, millis 1000, .selectOnDemand⟩, onChildSuspend := .autoResumeOnAttached, outerTtyRaw := true }

def leaderResponse : HandshakeResponse :=
  { caps := [], sessionId := "s", clientId := 1, leader := true, mode := .rw, childStopped := false }

/-- A turn in which this is typed. -/
def typing (chunk : Bytes) (now : Instant) : List (RelayEvent × Env) :=
  [(.poll (.ok .ready), { now }), (.socket .quiet, { now }), (.input (.read chunk), { now })]

def noCodec : Codec := { encode := fun _ => none, decode := fun _ => none, decodeAck := fun _ => none }

theorem prompting_start : (relay noCodec prompting).Reachable (Relay.start prompting leaderResponse { now := 0 }) :=
  .init ⟨leaderResponse, { now := 0 }, rfl⟩

/-- A key, a Ctrl+Z, and one second later an answer that is none. -/
theorem relay_quiet_prompt : ∃ r : Relay, r.focus = .x1Prompt ∧ r.reads.length = 3 ∧
    (r.focus ≠ .child → r.ctrlz.state = .idle ∧ r.ctrlz.decoder.partialBytes = [] ∧
      ∀ now, ctrlzGuardPollTimeout r.ctrlz now = none) ∧
    (r.forwarded ++ r.ctrlz.decoder.partialBytes).Sublist r.readByChild := by
  have hinit : (relay noCodec prompting).Reach (fun r e => r.leavesNothing prompting e = true)
      (Relay.start prompting leaderResponse { now := 0 }) := .init ⟨leaderResponse, { now := 0 }, rfl⟩
  obtain ⟨r, hr, hfocus, hreads⟩ := hinit.exists_run
    (typing [0x61] 5 ++ typing [0x1a] 7 ++ [(.poll (.ok .timeout), { now := millis 1001 })] ++ typing [0x78] (millis 1002))
    (p := fun r => r.focus = .x1Prompt ∧ r.reads.length = 3) (by decide +kernel)
  exact ⟨r, hfocus, hreads, relay_quiet hr⟩

/-- An Escape typed just before the second is over is still held when the prompt is open. -/
theorem prompt_holds_escape : ∃ r, (relay noCodec prompting).Reachable r ∧ r.focus = .x1Prompt ∧
    r.ctrlz.decoder.partialBytes = [0x1b] ∧ (ctrlzGuardPollTimeout r.ctrlz (millis 1000)).isSome = true :=
  prompting_start.exists_run
    (typing [0x1a] 0 ++ typing [0x1b] (millis 995) ++ [(.poll (.ok .timeout), { now := millis 1000 })])
    (p := fun r => r.focus = .x1Prompt ∧ r.ctrlz.decoder.partialBytes = [0x1b] ∧
      (ctrlzGuardPollTimeout r.ctrlz (millis 1000)).isSome = true) (by decide +kernel)

end Prompts

end Hyoui.Client
