import Hyoui.Daemon.Upgrade
import Hyoui.Daemon.Showing
import Hyoui.Daemon.Pristine
/-!
# Upgrades that replace the process

Before it executes the new binary the daemon writes a state file: the settings it was started with
and the bytes of its scrollback. The new process reads them back and serves a session made from them.
What a session was set to while it ran is not in the file.
-/

namespace Hyoui.Daemon

open Hyoui.Protocol Hyoui.Lib

/-! ## The settings of a daemon -/

/-- A daemon process: what it knows without being told. -/
structure Process where
  pid : Nat
  version : String
  bootId : String

structure DaemonConfig extends Config where
  socketPath : String
  cols : Nat := 80
  rows : Nat := 24
  screenInputLogBytes : Nat := 1024 * 1024
  screenVt100ScrollbackRows : Nat := 1000
  expectedToken : Option String := none
  debugDumpPath : Option String := none
deriving DecidableEq

/-- `DaemonConfig::new`, in this process. -/
def DaemonConfig.new (p : Process) (sessionId socketPath : String) (cmd : List String) : DaemonConfig where
  sessionId := sessionId
  daemonPid := p.pid
  daemonBootId := p.bootId
  daemonVersion := p.version
  cmd := cmd
  socketPath := socketPath

/-- The viewport `ScreenState::with_input_log_capacity` starts with, in columns and rows. -/
def DaemonConfig.viewport (cfg : DaemonConfig) : Nat × Nat := normalizeSize cfg.cols cfg.rows

/-- The viewport that is left of `viewport` after these operations. -/
def Screen.viewport (viewport : Nat × Nat) (screen : Screen) : Nat × Nat :=
  screen.foldl (fun viewport op => match op with
    | .process _ => viewport
    | .resize rows cols => normalizeSize cols rows) viewport

/-! ## The state file -/

def stateFormatVersionV1 : Nat := 1

structure UpgradeStateV1 where
  formatVersion : Nat
  hyouiVersion : String
  daemonBootIdPrev : String
  sessionId : String
  socketPath : String
  cmd : List String
  cols : Nat
  rows : Nat
  scrollbackBytes : Nat
  screenInputLogBytes : Nat
  screenVt100ScrollbackRows : Nat
  clientBufferBytes : Nat
  expectedToken : Option String
  «until» : Option Bytes
  debugDumpPath : Option String
  cwd : Option String
  onChildSuspend : String
  timeoutMs : Option Nat
  idleTimeoutMs : Option Nat
  tags : List (String × String)
  childPid : Nat
  scrollback : Bytes
deriving DecidableEq

/-- What `perform_self_exec` writes. -/
def upgradeState (version : String) (cfg : DaemonConfig) (child : Nat) (scrollbackBytes : Bytes) : UpgradeStateV1 where
  formatVersion := stateFormatVersionV1
  hyouiVersion := version
  daemonBootIdPrev := cfg.daemonBootId
  sessionId := cfg.sessionId
  socketPath := cfg.socketPath
  cmd := cfg.cmd
  cols := cfg.cols
  rows := cfg.rows
  scrollbackBytes := cfg.scrollbackBytes
  screenInputLogBytes := cfg.screenInputLogBytes
  screenVt100ScrollbackRows := cfg.screenVt100ScrollbackRows
  clientBufferBytes := cfg.clientBufferBytes
  expectedToken := cfg.expectedToken
  «until» := cfg.until
  debugDumpPath := cfg.debugDumpPath
  cwd := cfg.cwd
  onChildSuspend := cfg.onChildSuspend.asStr
  timeoutMs := cfg.timeoutMs
  idleTimeoutMs := cfg.idleTimeoutMs
  tags := cfg.tags
  childPid := child
  scrollback := scrollbackBytes

/-- `serve` hands over all of the scrollback. -/
def Session.upgradeState (s : Session) (version : String) (cfg : DaemonConfig) : UpgradeStateV1 :=
  Daemon.upgradeState version cfg cfg.childPid (s.scrollback.lastNBytes s.scrollback.totalBytes)

/-- The serializer of the state file. What it writes it reads back. -/
structure StateCodec where
  encode : UpgradeStateV1 → Option Bytes
  decode : Bytes → Option UpgradeStateV1
  decode_encode : ∀ state file, encode state = some file → decode file = some state

inductive StateFileError where
  | openFailed
  | decodeFailed
  | versionMismatch (got : Nat)
deriving DecidableEq

/-- `read_and_consume_state_file`, of a file with this content, if it can be opened. -/
def readStateFile (codec : StateCodec) (file : Option Bytes) : Except StateFileError UpgradeStateV1 :=
  match file with
  | none => .error .openFailed
  | some content =>
    match codec.decode content with
    | none => .error .decodeFailed
    | some state =>
      if state.formatVersion ≠ stateFormatVersionV1 then .error (.versionMismatch state.formatVersion) else .ok state

/-! ## The resumed process -/

def parseOnChildSuspend (s : String) : ChildSuspendPolicy := (ChildSuspendPolicy.fromWire s).getD .notify

/-- What the new process is told in its environment. Opening the state file it names finds `stateFile`. -/
structure UpgradeResumeEnv where
  sessionId : String
  socket : String
  childPid : Nat
  cols : Nat
  rows : Nat
  stateFile : Option (Option Bytes)

def upgradeResume : List String := ["<upgrade-resume>"]

def UpgradeStateV1.config (p : Process) (state : UpgradeStateV1) : DaemonConfig :=
  let cmd := if state.cmd.isEmpty then upgradeResume else state.cmd
  let (cols, rows) := normalizeSize state.cols state.rows
  { DaemonConfig.new p state.sessionId state.socketPath cmd with
    cols, rows
    scrollbackBytes := state.scrollbackBytes
    screenInputLogBytes := state.screenInputLogBytes
    screenVt100ScrollbackRows := state.screenVt100ScrollbackRows
    clientBufferBytes := state.clientBufferBytes
    expectedToken := state.expectedToken
    «until» := state.until
    debugDumpPath := state.debugDumpPath
    cwd := state.cwd
    onChildSuspend := parseOnChildSuspend state.onChildSuspend
    timeoutMs := state.timeoutMs
    idleTimeoutMs := state.idleTimeoutMs
    tags := state.tags }

/-- Without a usable state file: the least that the environment tells. -/
def UpgradeResumeEnv.config (p : Process) (env : UpgradeResumeEnv) : DaemonConfig :=
  let (cols, rows) := normalizeSize env.cols env.rows
  { DaemonConfig.new p env.sessionId env.socket upgradeResume with cols, rows }

/-- `run_upgrade_resume_child`, up to the session it serves: its settings, with the child it takes over,
and the scrollback it begins with. -/
def runUpgradeResumeChild (codec : StateCodec) (p : Process) (env : UpgradeResumeEnv) : DaemonConfig × Bytes :=
  match env.stateFile.map (readStateFile codec) with
  | some (.ok state) => ({ state.config p with childPid := state.childPid }, state.scrollback)
  | some (.error _) | none => ({ env.config p with childPid := env.childPid }, [])

/-- The session the resumed process serves, from `serve` on. -/
def resumedStart (W : World) (cfg : DaemonConfig) (scrollback : Bytes) (nowMs : Instant) (child : ChildProcess)
    (e : EntryInput) : State :=
  enterServeLoop W cfg.toConfig e (Session.initial cfg.toConfig nowMs scrollback child)

/-- What an upgrade promises to keep of the session `s` of a daemon with the settings `cfg`, in the
session of the resumed process that begins with `start`. -/
structure Continues (cfg : DaemonConfig) (s : Session) (W : World) (cfg' : DaemonConfig) (start : State) : Prop where
  viewport : start.sess.screen.viewport cfg'.viewport = s.screen.viewport cfg.viewport
  policy : start.sess.childSuspendPolicy = s.childSuspendPolicy
  scrollback : start.sess.scrollback.stored = s.scrollback.stored
  tags : cfg'.tags = cfg.tags
  timeout : cfg'.timeoutMs = cfg.timeoutMs
  idleTimeout : cfg'.idleTimeoutMs = cfg.idleTimeoutMs
  /-- A strict read over a window from which bytes were evicted before is refused, at any time. -/
  strict : ∀ st, (loopFrom W cfg'.toConfig start).Reachable st → ∀ evicted, s.scrollback.lastEvictedTs = some evicted →
    ∀ now dur, Scrollback.cutoff now dur ≤ evicted → st.sess.scrollback.sinceStrict now dur = none

/-! ## The scrollback of a session -/

section Ring

variable {W : World} {cfg : Config} {inp : IterInput} {top : Screen} {s s' : Session}

/-- The ring is one of the configured size, after some pushes. -/
def Ring (maxBytes : Nat) (s : Scrollback) : Prop := ∃ cs gone, Scrollback.Kept maxBytes cs gone s

theorem Ring.new (maxBytes : Nat) : Ring maxBytes (Scrollback.new maxBytes) := by
  obtain ⟨gone, h⟩ := Scrollback.kept_pushAll maxBytes []
  exact ⟨[], gone, h⟩

theorem Ring.push {maxBytes : Nat} {s : Scrollback} (h : Ring maxBytes s) (ts : Instant) (bytes : Bytes) :
    Ring maxBytes (s.push ts bytes) := by
  obtain ⟨cs, gone, hk⟩ := h
  obtain ⟨gone', hk'⟩ := hk.push ⟨ts, bytes⟩
  exact ⟨_, gone', hk'⟩

/-- All of the bytes of a ring. -/
theorem Ring.lastNBytes {maxBytes : Nat} {s : Scrollback} (h : Ring maxBytes s) :
    s.lastNBytes s.totalBytes = s.stored := by
  obtain ⟨cs, gone, hk⟩ := h
  refine Scrollback.lastNBytes_suffix.eq_of_length ?_
  rw [hk.lastNBytes_length, Nat.min_self, hk.total]
  rfl

theorem Ring.stored_le {maxBytes : Nat} {s : Scrollback} (h : Ring maxBytes s) : s.stored.length ≤ maxBytes := by
  obtain ⟨cs, gone, hk⟩ := h
  have htotal := hk.total
  have hfits := hk.fits
  rw [htotal] at hfits
  exact hfits

theorem Ring.showing {maxBytes : Nat} (h : Ring maxBytes s.scrollback) (hs : Showing W inp top s s') :
    Ring maxBytes s'.scrollback := by
  induction hs with
  | refl => exact h
  | tail _ hstep ih =>
    cases hstep with
    | murmur hm =>
      rw [hm.scrollback]
      exact ih
    | read bytes _ _ _ _ scrollback _ =>
      rw [scrollback]
      exact ih.push _ _
    | resize _ _ _ _ scrollback _ | tail _ _ _ _ scrollback _ | attach _ _ _ _ scrollback _
    | flush _ _ _ _ scrollback _ =>
      rw [scrollback]
      exact ih

theorem initial_ring (cfg : Config) (nowMs : Instant) (resumeScrollback : Bytes) (child : ChildProcess) :
    Ring cfg.scrollbackBytes (Session.initial cfg nowMs resumeScrollback child).scrollback := by
  simp only [Session.initial]
  split
  · exact Ring.new _
  · exact (Ring.new _).push _ _

theorem loop_ring {ok : State → Move → Prop} {st : State} (h : (loop W cfg).Reach ok st) :
    Ring cfg.scrollbackBytes st.sess.scrollback := by
  refine h.inv (fun st => Ring cfg.scrollbackBytes st.sess.scrollback) ?_ ?_
  · rintro st ⟨e, nowMs, resumeScrollback, child, -, rfl⟩
    rw [(enterServeLoop_murmurs cfg e _).scrollback]
    exact initial_ring cfg nowMs resumeScrollback child
  · intro st mv st' hr hring _ hstep
    have hturn : Ring cfg.scrollbackBytes (iterate W cfg mv.input st).1.sess.scrollback :=
      hring.showing (iterate_showing cfg mv.input (loop_ok hr))
    cases mv with
    | turn inp =>
      rw [Move.input, loop_turn hstep] at hturn
      exact hturn
    | retry inp failure e =>
      obtain ⟨st₁, hit, rfl⟩ := loop_retry hstep
      rw [Move.input, hit] at hturn
      rw [(resumeServe_murmurs failure e st₁.sess).scrollback]
      exact hturn

/-- A ring that begins with bytes that fit holds them, and has evicted nothing. -/
theorem initial_scrollback (cfg : Config) (nowMs : Instant) {bytes : Bytes} (child : ChildProcess)
    (hfit : bytes.length ≤ cfg.scrollbackBytes) :
    (Session.initial cfg nowMs bytes child).scrollback.stored = bytes ∧
      (Session.initial cfg nowMs bytes child).scrollback.lastEvictedTs = none := by
  cases bytes with
  | nil => exact ⟨rfl, rfl⟩
  | cons b bs =>
    have hkeep : ¬ cfg.scrollbackBytes ≤ bs.length := Nat.not_le.2 hfit
    simp [Session.initial, Scrollback.push, Scrollback.evict, hkeep, Scrollback.stored]

end Ring

/-! ## What an upgrade keeps -/

section Upgrade

variable {W W' : World} {cfg : DaemonConfig} {st st₁ : State} {inp : IterInput}

theorem normalizeSize_idem (cols rows : Nat) :
    normalizeSize (normalizeSize cols rows).1 (normalizeSize cols rows).2 = normalizeSize cols rows := by
  simp only [normalizeSize, sizeMin, sizeMax, Prod.mk.injEq]
  omega

theorem parseOnChildSuspend_asStr (p : ChildSuspendPolicy) : parseOnChildSuspend p.asStr = p := by
  cases p <;> decide

theorem readStateFile_written (codec : StateCodec) {version : String} {cfg : DaemonConfig} {child : Nat}
    {bytes file : Bytes} (h : codec.encode (upgradeState version cfg child bytes) = some file) :
    readStateFile codec (some file) = .ok (upgradeState version cfg child bytes) := by
  simp only [readStateFile, codec.decode_encode _ _ h]
  rfl

theorem initial_viewport (cfg : Config) (nowMs : Instant) (bytes : Bytes) (child : ChildProcess)
    (viewport : Nat × Nat) : (Session.initial cfg nowMs bytes child).screen.viewport viewport = viewport := by
  simp only [Session.initial]
  split <;> rfl

theorem enterServeLoop_policy (cfg : Config) (e : EntryInput) (s : Session) :
    (enterServeLoop W cfg e s).sess.childSuspendPolicy = s.childSuspendPolicy := by
  obtain ⟨-, clients, child, log, hsess, -⟩ := observe_standing (W := W) cfg
    (w := { sess := s, loc := Locals.initial cfg e, overflow := [] }) e rfl
  simp only [enterServeLoop, hsess]

/-- What the resumed process is served with after the file was written and read back. -/
theorem runUpgradeResumeChild_written {codec : StateCodec} {p : Process} {env : UpgradeResumeEnv} {version : String}
    {s : Session} {file : Bytes} (hwritten : codec.encode (s.upgradeState version cfg) = some file)
    (hread : env.stateFile = some (some file)) :
    runUpgradeResumeChild codec p env =
      ({ (s.upgradeState version cfg).config p with childPid := cfg.childPid },
        s.scrollback.lastNBytes s.scrollback.totalBytes) := by
  simp only [runUpgradeResumeChild, hread, Option.map_some, readStateFile_written codec hwritten]
  rfl

section Written

variable {codec : StateCodec} {p : Process} {env : UpgradeResumeEnv} {version : String} {s : Session} {file : Bytes}

/-- The resumed session has the viewport the daemon was started with. -/
theorem resumed_viewport (hwritten : codec.encode (s.upgradeState version cfg) = some file)
    (hread : env.stateFile = some (some file)) (nowMs : Instant) (child : ChildProcess) (e : EntryInput) :
    (resumedStart W (runUpgradeResumeChild codec p env).1 (runUpgradeResumeChild codec p env).2 nowMs child
      e).sess.screen.viewport (runUpgradeResumeChild codec p env).1.viewport = cfg.viewport := by
  have hsame : (runUpgradeResumeChild codec p env).1.viewport = cfg.viewport := by
    rw [runUpgradeResumeChild_written hwritten hread]
    exact normalizeSize_idem cfg.cols cfg.rows
  rw [resumedStart, (enterServeLoop_murmurs _ e _).screen, initial_viewport, hsame]

theorem resumed_policy (hwritten : codec.encode (s.upgradeState version cfg) = some file)
    (hread : env.stateFile = some (some file)) (nowMs : Instant) (child : ChildProcess) (e : EntryInput) :
    (resumedStart W (runUpgradeResumeChild codec p env).1 (runUpgradeResumeChild codec p env).2 nowMs child
      e).sess.childSuspendPolicy = cfg.onChildSuspend := by
  rw [resumedStart, enterServeLoop_policy, runUpgradeResumeChild_written hwritten hread]
  exact parseOnChildSuspend_asStr cfg.onChildSuspend

end Written

/-- After an upgrade whose state file was written and read back, the session is as before exactly where the
size and the policy are those the daemon was started with, and nothing has been evicted from the scrollback. -/
theorem upgrade_continues_iff {codec : StateCodec} {p : Process} {env : UpgradeResumeEnv} {version : String}
    {file : Bytes} {nowMs : Instant} {child : ChildProcess} {e : EntryInput}
    (h : (loop W cfg.toConfig).Reachable st) (hit : iterate W cfg.toConfig inp st = (st₁, some .upgradeRequested))
    (hwritten : codec.encode (st₁.sess.upgradeState version cfg) = some file)
    (hread : env.stateFile = some (some file)) :
    Continues cfg st₁.sess W' (runUpgradeResumeChild codec p env).1
        (resumedStart W' (runUpgradeResumeChild codec p env).1 (runUpgradeResumeChild codec p env).2 nowMs child e) ↔
      st₁.sess.screen.viewport cfg.viewport = cfg.viewport ∧
        st₁.sess.childSuspendPolicy = cfg.onChildSuspend ∧ st₁.sess.scrollback.lastEvictedTs = none := by
  have hring : Ring cfg.scrollbackBytes st₁.sess.scrollback := by
    have hturn := (loop_ring h).showing (iterate_showing (W := W) cfg.toConfig inp (loop_ok h))
    rwa [hit] at hturn
  have hsize := resumed_viewport (W := W') (p := p) hwritten hread nowMs child e
  have hpolicy := resumed_policy (W := W') (p := p) hwritten hread nowMs child e
  rw [runUpgradeResumeChild_written hwritten hread, hring.lastNBytes] at hsize hpolicy ⊢
  set cfg' : DaemonConfig := { (st₁.sess.upgradeState version cfg).config p with childPid := cfg.childPid }
  set start := resumedStart W' cfg' st₁.sess.scrollback.stored nowMs child e
  obtain ⟨hstored, hfresh⟩ := initial_scrollback cfg'.toConfig nowMs child hring.stored_le
  have hring' : start.sess.scrollback =
      (Session.initial cfg'.toConfig nowMs st₁.sess.scrollback.stored child).scrollback :=
    (enterServeLoop_murmurs cfg'.toConfig e _).scrollback
  constructor
  · intro hk
    refine ⟨hk.viewport.symm.trans hsize, hk.policy.symm.trans hpolicy, ?_⟩
    cases hevicted : st₁.sess.scrollback.lastEvictedTs with
    | none => rfl
    | some evicted =>
      -- a read of nothing but the moment of the eviction
      have hrefused := hk.strict start (.init rfl) evicted hevicted evicted 0 (by simp [Scrollback.cutoff])
      rw [hring', Scrollback.sinceStrict, hfresh] at hrefused
      cases hrefused
  · rintro ⟨hviewport, hset, hkept⟩
    refine ⟨hsize.trans hviewport.symm, hpolicy.trans hset.symm, ?_, rfl, rfl, rfl, ?_⟩
    · rw [hring', hstored]
    · intro _ _ evicted hevicted
      rw [hkept] at hevicted
      cases hevicted

/-! ### A session that is upgraded -/

def cborOption {α : Type} (item : α → Bytes) (value : Option α) : Bytes := value.elim [0xf6] item

/-- The state file in the form `ciborium` gives it. -/
def UpgradeStateV1.cbor (state : UpgradeStateV1) : Bytes := cborMap [
  ("format_version", cborUint state.formatVersion), ("hyoui_version", cborText state.hyouiVersion),
  ("daemon_boot_id_prev", cborText state.daemonBootIdPrev), ("session_id", cborText state.sessionId),
  ("socket_path", cborText state.socketPath), ("cmd", cborArray (state.cmd.map cborText)),
  ("cols", cborUint state.cols), ("rows", cborUint state.rows), ("scrollback_bytes", cborUint state.scrollbackBytes),
  ("screen_input_log_bytes", cborUint state.screenInputLogBytes),
  ("screen_vt100_scrollback_rows", cborUint state.screenVt100ScrollbackRows),
  ("client_buffer_bytes", cborUint state.clientBufferBytes),
  ("expected_token", cborOption cborText state.expectedToken),
  ("until", cborOption (fun needle => cborHead 3 needle.length ++ needle) state.until),
  ("debug_dump_path", cborOption cborText state.debugDumpPath), ("cwd", cborOption cborText state.cwd),
  ("on_child_suspend", cborText state.onChildSuspend), ("timeout_ms", cborOption cborUint state.timeoutMs),
  ("idle_timeout_ms", cborOption cborUint state.idleTimeoutMs),
  ("tags", cborMap (state.tags.map fun t => (t.1, cborText t.2))), ("child_pid", cborUint state.childPid),
  ("scrollback", cborHead 2 state.scrollback.length ++ state.scrollback)]

/-- The codec of one state. -/
def StateCodec.single (state : UpgradeStateV1) : StateCodec where
  encode s := if s = state then some s.cbor else none
  decode file := if file = state.cbor then some state else none
  decode_encode s file h := by
    split at h
    · rename_i hs
      rw [← Option.some.inj h, hs, if_pos rfl]
    · cases h

def demoConfig : DaemonConfig :=
  { DaemonConfig.new ⟨40, "0.9.0", "b0"⟩ "demo" "/run/demo.sock" ["sh"] with childPid := 41 }

def upgraded : Process := ⟨40, "0.9.1", "b1"⟩

/-- The environment of a process that finds this state file. -/
def demoEnv (file : Bytes) : UpgradeResumeEnv where
  sessionId := "demo"
  socket := "/run/demo.sock"
  childPid := 41
  cols := 80
  rows := 24
  stateFile := some (some file)

/-- A signal asks for an upgrade. -/
def askMove : Move := .turn { poll := .ready false false (fun _ => false) true, signals := [(sigUsr1, [])] }

/-- The upgrade is not put off any longer. -/
def upgradeInput : IterInput := { upgradeCheckNow := upgradeFlushBudget }

/-- What the new process makes of the file a session leaves, as its own codec reads it. -/
def demoResumed (s : Session) : DaemonConfig × Bytes :=
  let state := s.upgradeState "0.9.0" demoConfig
  runUpgradeResumeChild (StateCodec.single state) upgraded (demoEnv state.cbor)

theorem single_encodes (state : UpgradeStateV1) : (StateCodec.single state).encode state = some state.cbor := if_pos rfl

theorem upgrade_continues_fresh : ∃ st₁ : State, Continues demoConfig st₁.sess World.pristine (demoResumed st₁.sess).1
    (resumedStart World.pristine (demoResumed st₁.sess).1 (demoResumed st₁.sess).2 0 {} {}) := by
  obtain ⟨st, hreach, hout, hviewport, hpolicy, hevicted⟩ := (pristineStart_reach demoConfig.toConfig {}
    fun _ _ => True).exists_run [askMove]
    (p := fun st => (iterate World.pristine demoConfig.toConfig upgradeInput st).2 = some .upgradeRequested ∧
      (iterate World.pristine demoConfig.toConfig upgradeInput st).1.sess.screen.viewport demoConfig.viewport =
        demoConfig.viewport ∧
      (iterate World.pristine demoConfig.toConfig upgradeInput st).1.sess.childSuspendPolicy =
        demoConfig.onChildSuspend ∧
      (iterate World.pristine demoConfig.toConfig upgradeInput st).1.sess.scrollback.lastEvictedTs = none)
    (by decide +kernel)
  exact ⟨_, (upgrade_continues_iff hreach (Prod.ext rfl hout) (single_encodes _) rfl).2 ⟨hviewport, hpolicy, hevicted⟩⟩

def resizeCbor (cols rows : Nat) : Bytes :=
  cborMap [("kind", cborText "resize"), ("cols", cborUint cols), ("rows", cborUint rows)]

/-- The world of a pristine session, with a resize. -/
def World.resizable : World :=
  { World.pristine with
    decode := fun body => if body = resizeCbor 100 30 then some (.resize 100 30) else World.pristine.decode body }

/-- The leader resizes the terminal. -/
def resizeMove : Move :=
  .turn (recvInput [(0, toLeBytes (1 + (resizeCbor 100 30).length) ++ typeCborControl :: resizeCbor 100 30)])

/-- A resized session is 80 columns wide again after its upgrade. -/
theorem upgrade_reverts_size : ∃ st₁ st : State, (loop World.resizable demoConfig.toConfig).Reachable st ∧
    iterate World.resizable demoConfig.toConfig upgradeInput st = (st₁, some .upgradeRequested) ∧
    st₁.sess.screen.viewport demoConfig.viewport = (100, 30) ∧
    ¬ Continues demoConfig st₁.sess World.resizable (demoResumed st₁.sess).1
      (resumedStart World.resizable (demoResumed st₁.sess).1 (demoResumed st₁.sess).2 0 {} {}) := by
  have hinit : (loop World.resizable demoConfig.toConfig).Reach (fun _ _ => True)
      (enterServeLoop World.resizable demoConfig.toConfig {} (Session.initial demoConfig.toConfig 0 [] {})) :=
    .init ⟨{}, 0, [], {}, rfl, rfl⟩
  obtain ⟨st, hreach, hout, hviewport⟩ := hinit.exists_run (attachMoves .rw [] ++ [resizeMove, askMove])
    (p := fun st => (iterate World.resizable demoConfig.toConfig upgradeInput st).2 = some .upgradeRequested ∧
      (iterate World.resizable demoConfig.toConfig upgradeInput st).1.sess.screen.viewport demoConfig.viewport =
        (100, 30))
    (by decide +kernel)
  refine ⟨_, st, hreach, Prod.ext rfl hout, hviewport, fun hk => ?_⟩
  have hback := hk.viewport
  rw [hviewport] at hback
  set s := (iterate World.resizable demoConfig.toConfig upgradeInput st).1.sess
  have hstart := resumed_viewport (W := World.resizable) (p := upgraded)
    (single_encodes (s.upgradeState "0.9.0" demoConfig)) (rfl : (demoEnv _).stateFile = some (some _)) 0 {} {}
  exact absurd (hback.symm.trans hstart) (by decide)

end Upgrade

end Hyoui.Daemon
