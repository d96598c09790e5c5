import Hyoui.Daemon.LockHolder
/-!
# Upgrades that do not replace the process

A refused request changes nothing but its sender's queue. After an `execve` that failed the loop
is entered again with new local variables: the lock, the pending handshakes, the stop latch, a deferred
exit, what `--until` has seen and the clocks of the timeouts are as at the start of a session, whatever
they were.
-/

namespace Hyoui.Daemon

open Hyoui.Protocol Hyoui.Lib

/-- A client without its queue. -/
def ClientHandle.standing (ch : ClientHandle) : ClientHandle := { ch with send := {}, offers := [] }

/-- What a session is apart from its queues and its log. -/
structure SameSession (cfg : Config) (st st' : State) : Prop where
  clients : st'.sess.clients.map (·.standing) = st.sess.clients.map (·.standing)
  nextClientId : st'.sess.nextClientId = st.sess.nextClientId
  holder : st'.loc.daemonState.lock.holder = st.loc.daemonState.lock.holder
  token : st'.loc.daemonState.lock.token = st.loc.daemonState.lock.token
  screen : st'.sess.screen = st.sess.screen
  scrollback : st'.sess.scrollback = st.sess.scrollback
  pendingRedraws : st'.sess.pendingRedraws = st.sess.pendingRedraws
  childSuspendPolicy : st'.sess.childSuspendPolicy = st.sess.childSuspendPolicy
  childStopped : st'.sess.childStopped = st.sess.childStopped
  pendingHandshakes : st'.loc.pendingHandshakes = st.loc.pendingHandshakes
  latch : st'.loc.lifecycle.stopped = st.loc.lifecycle.stopped
  deferredExit : st'.loc.deferredExit = st.loc.deferredExit
  exitDrainDeadline : st'.loc.exitDrainDeadline = st.loc.exitDrainDeadline
  masterDrained : st'.loc.masterDrained = st.loc.masterDrained
  untilWatcher : st'.loc.untilWatcher = st.loc.untilWatcher
  timeout : cfg.timeoutMs.map (st'.loc.serveStart + millis ·) = cfg.timeoutMs.map (st.loc.serveStart + millis ·)
  idleTimeout : cfg.idleTimeoutMs.map (st'.loc.lastOutput + millis ·) =
    cfg.idleTimeoutMs.map (st.loc.lastOutput + millis ·)

/-- The first look at the child where the loop is entered: the latch, the child's state, and what has changed. -/
def EntryInput.look (e : EntryInput) (child : ChildProcess) : ChildLifecycle × ChildState × Option ChildTransition :=
  let (lifecycle, _, childState, transition) := ({} : ChildLifecycle).pollWithTransition (child.events e.childEvents)
  (lifecycle, childState, transition)

/-- The exit that is deferred on entry, with its deadline: one that the first look finds. -/
def EntryInput.exit (e : EntryInput) (child : ChildProcess) : Option (RelayOutcome × Instant) :=
  match (e.look child).2.1 with
  | .exited code => some (.childExited code, e.now + exitDrainBudget)
  | .alive | .stopped => none

/-- `child_stopped` after a transition. -/
def stoppedAfter (childStopped : Bool) : Option ChildTransition → Bool
  | some (.stopped _) => true
  | some .continued => false
  | some (.exited _) | none => childStopped

/-- The local variables hold what entering the loop gives them: the lock is free, no handshake is pending,
the latch and the deferred exit are what the first look at the child makes them, `--until` has seen nothing, the
PTY is not drained, and a configured timeout has only begun to run. -/
structure AsEntered (cfg : Config) (st : State) (e : EntryInput) : Prop where
  lock : st.loc.daemonState.lock.holder = none
  pendingHandshakes : st.loc.pendingHandshakes = []
  latch : (e.look st.sess.child).1.stopped = st.loc.lifecycle.stopped
  childStopped : stoppedAfter st.sess.childStopped (e.look st.sess.child).2.2 = st.sess.childStopped
  deferredExit : (e.exit st.sess.child).map Prod.fst = st.loc.deferredExit
  exitDrainDeadline : (e.exit st.sess.child).map Prod.snd = st.loc.exitDrainDeadline
  masterDrained : st.loc.masterDrained = false
  untilWatcher : (cfg.until.filter (!·.isEmpty)).map (fun needle => { needle }) = st.loc.untilWatcher
  timeout : cfg.timeoutMs = none ∨ e.now = st.loc.serveStart
  idleTimeout : cfg.idleTimeoutMs = none ∨ e.now = st.loc.lastOutput

section Standing

variable {W : World} {cfg : Config}

theorem offer_standing (ch : ClientHandle) (item : Outgoing) (payload : Option Bytes) :
    (ch.offer item payload).1.standing = ch.standing := by
  cases payload <;> rfl

theorem flushClients_standing (clients : List ClientHandle) (scripts : ClientId → List WriteResult) :
    (flushClients clients scripts).map (·.standing) = clients.map (·.standing) := by
  rw [flushClients, List.map_map]
  refine List.map_congr_left fun ch _ => ?_
  simp only [Function.comp_apply]
  split <;> rfl

/-- A reply changes the queue of one client, and perhaps who is missed. -/
theorem sendIgnoring_standing (s : Session) (idx : Nat) (item : Outgoing) (payload : Option Bytes) :
    ∃ clients missed, (s.sendIgnoring idx (·.offer item payload)).1 = { s with clients, missed } ∧
      clients.map (·.standing) = s.clients.map (·.standing) := by
  unfold Session.sendIgnoring
  split
  · exact ⟨s.clients, s.missed, rfl, rfl⟩
  · rename_i ch hch
    have hset : (s.clients.set idx (ch.offer item payload).1).map (·.standing) = s.clients.map (·.standing) := by
      refine List.ext_getElem? fun i => ?_
      rw [List.map_set, offer_standing, List.getElem?_set]
      split <;> rename_i hi
      · subst hi
        obtain ⟨hlt, -⟩ := List.getElem?_eq_some_iff.1 hch
        rw [List.getElem?_map, hch, List.length_map, if_pos hlt]
        rfl
      · rfl
    dsimp only
    split
    · exact ⟨_, _, rfl, hset⟩
    · exact ⟨_, s.missed, rfl, hset⟩

theorem notifyChildStopped_standing (s : Session) (sig : Signal) :
    ∃ clients log, (notifyChildStopped W cfg s sig).1 = { s with clients, childStopped := true, log } ∧
      clients.map (·.standing) = s.clients.map (·.standing) := by
  unfold notifyChildStopped
  dsimp only
  split
  · exact ⟨s.clients, _, rfl, rfl⟩
  · refine ⟨_, _, rfl, ?_⟩
    rw [List.map_map, List.map_map]
    refine List.map_congr_left fun ch _ => ?_
    simp only [Function.comp_apply]
    split
    · rfl
    · exact offer_standing ch _ _

theorem transition_standing (cfg : Config) (w : Work) (t : Option ChildTransition) :
    (w.transition W cfg t).loc = w.loc ∧
      ∃ clients log, (w.transition W cfg t).sess =
          { w.sess with clients, childStopped := stoppedAfter w.sess.childStopped t, log } ∧
        clients.map (·.standing) = w.sess.clients.map (·.standing) := by
  rcases t with _ | _ | _ | _
  · exact ⟨rfl, w.sess.clients, w.sess.log, rfl, rfl⟩
  · exact ⟨rfl, notifyChildStopped_standing w.sess _⟩
  · exact ⟨rfl, w.sess.clients, _, rfl, rfl⟩
  · exact ⟨rfl, w.sess.clients, w.sess.log, rfl, rfl⟩

/-- The first look at the child sets the latch and defers an exit, and may send notices. -/
theorem observe_standing (cfg : Config) {w : Work} (e : EntryInput) (hloc : w.loc = Locals.initial cfg e) :
    (observeChildTransition W cfg w e.childEvents e.now).loc =
        { Locals.initial cfg e with
          lifecycle := (e.look w.sess.child).1
          deferredExit := (e.exit w.sess.child).map Prod.fst
          exitDrainDeadline := (e.exit w.sess.child).map Prod.snd } ∧
      ∃ clients child log,
        (observeChildTransition W cfg w e.childEvents e.now).sess =
          { w.sess with
            clients, child, log
            childStopped := stoppedAfter w.sess.childStopped (e.look w.sess.child).2.2 } ∧
          clients.map (·.standing) = w.sess.clients.map (·.standing) := by
  have hlifecycle : w.loc.lifecycle = {} := by rw [hloc]; rfl
  unfold observeChildTransition Work.pollChild EntryInput.exit EntryInput.look
  rw [hlifecycle]
  generalize ({} : ChildLifecycle).pollWithTransition (w.sess.child.events e.childEvents) = r
  obtain ⟨lifecycle, child, childState, transition⟩ := r
  dsimp only
  have hmain : ∀ w₁ : Work, w₁.sess = { w.sess with child } →
      ∃ clients child log, (w₁.transition W cfg transition).sess =
          { w.sess with clients, child, log, childStopped := stoppedAfter w.sess.childStopped transition } ∧
        clients.map (·.standing) = w.sess.clients.map (·.standing) := by
    intro w₁ hsess
    obtain ⟨-, clients, log, hs, hst⟩ := transition_standing (W := W) cfg w₁ transition
    rw [hsess] at hs hst
    exact ⟨clients, child, log, hs, hst⟩
  cases childState with
  | exited code =>
    refine ⟨?_, hmain _ rfl⟩
    rw [(transition_standing cfg _ transition).1, hloc]
    rfl
  | alive =>
    refine ⟨?_, hmain _ rfl⟩
    rw [(transition_standing cfg _ transition).1, hloc]
    rfl
  | stopped =>
    refine ⟨?_, hmain _ rfl⟩
    rw [(transition_standing cfg _ transition).1, hloc]
    rfl

end Standing

/-! ## A refused request -/

/-- The handling changed nothing but queues. -/
def AnsweredOnly (s : Session) (h : Handled) : Prop :=
  ∃ clients missed, h = ({ s with clients, missed }, .continue) ∧ clients.map (·.standing) = s.clients.map (·.standing)

section Refused

variable {W : World} {cfg : Config} {s : Session} {d : DaemonState} {idx : Nat}

theorem refuse_answers (code : ErrorCode) (message : String) :
    AnsweredOnly s (refuse W s idx code message, .continue) := by
  obtain ⟨clients, missed, heq, hst⟩ :=
    sendIgnoring_standing s idx (.control (.error { code, message })) (W.controlFrame (.error { code, message }))
  exact ⟨clients, missed, congrArg (·, ClientFrameOutcome.continue) heq, hst⟩

theorem guarded_answers {ok : ClientHandle → Bool} {code : ErrorCode} {message : String} {k : ClientHandle → Handled}
    (h : ∀ ch, AnsweredOnly s (k ch)) : AnsweredOnly s (guarded W s idx ok code message k) := by
  unfold guarded
  split
  · exact ⟨s.clients, s.missed, rfl, rfl⟩
  · split
    · exact h _
    · exact refuse_answers code message

/-- A request whose precheck fails is answered, and that is all. -/
theorem refused_upgrade (env : FrameEnv) (idx : Nat) {binaryPath : Option String} {msg : String}
    (h : env.precheck binaryPath = some msg) : AnsweredOnly s (handleUpgradeRequest W env s idx binaryPath) := by
  refine guarded_answers fun _ => guarded_answers fun _ => ?_
  rw [h]
  exact refuse_answers _ _

end Refused

/-! ## A failed `execve` -/

section Failed

variable {W : World} {cfg : Config} {st st' : State} {inp : IterInput} {failure : UpgradeFailure} {e : EntryInput}

/-- Waiting for the queues writes, and nothing else. -/
theorem pending_iterate (cfg : Config) (inp : IterInput) (hup : st.sess.upgradePending = true) :
    ∃ clients closing deadline,
      (iterate W cfg inp st).1 =
        { sess := { st.sess with clients, closing }, loc := { st.loc with upgradeFlushDeadline := some deadline } } ∧
        clients.map (·.standing) = st.sess.clients.map (·.standing) := by
  have hit : (iterate W cfg inp st).1 = (awaitUpgradeFlush inp
      { st.sess with clients := flushClients st.sess.clients inp.flush } st.loc).1 := by
    simp only [iterate, beforeFrames, beforePoll, hup, if_true]
  rw [hit]
  unfold awaitUpgradeFlush
  dsimp only
  split <;> exact ⟨_, _, _, rfl, flushClients_standing _ _⟩

/-- Entering the loop again keeps the session, and starts with new local variables. -/
theorem resumeServe_standing (cfg : Config) (failure : UpgradeFailure) (e : EntryInput) (s : Session) :
    (∃ startupOverflow, (resumeServe W cfg failure e s).loc =
        { Locals.initial cfg e with
          lifecycle := (e.look s.child).1
          deferredExit := (e.exit s.child).map Prod.fst
          exitDrainDeadline := (e.exit s.child).map Prod.snd
          startupOverflow }) ∧
      ∃ clients child log,
        (resumeServe W cfg failure e s).sess =
          { s with
            clients, child, log
            childStopped := stoppedAfter s.childStopped (e.look s.child).2.2
            upgradePending := false
            upgradeTarget := none } ∧
          clients.map (·.standing) = s.clients.map (·.standing) := by
  unfold resumeServe enterServeLoop
  obtain ⟨hloc, clients, child, log, hs, hst⟩ := observe_standing (W := W) cfg
    (w := { sess := ({ s with upgradeTarget := none }.pushLifecycle
        (.sessionTerminatedByCondition failure.reason)).clearUpgradePending
            loc := Locals.initial cfg e, overflow := [] }) e rfl
  dsimp only
  rw [hloc, hs]
  exact ⟨⟨_, rfl⟩, clients, child, log, rfl, hst⟩

theorem clock_same (limit : Option Nat) (t t' : Instant) :
    limit.map (t' + millis ·) = limit.map (t + millis ·) ↔ limit = none ∨ t' = t := by
  cases limit with
  | none => simp
  | some ms => simp

/-- A failed `execve` keeps the session exactly where the local variables are as entering the loop makes
them. -/
theorem retry_same (h : (loop W cfg).Reachable st) (hup : st.sess.upgradePending = true)
    (hstep : (loop W cfg).step st (.retry inp failure e) = some st') : SameSession cfg st st' ↔ AsEntered cfg st e := by
  obtain ⟨st₁, hit, rfl⟩ := loop_retry hstep
  obtain ⟨clients₁, closing, deadline, hst₁, hsame₁⟩ := pending_iterate (W := W) cfg inp hup
  rw [hit] at hst₁
  dsimp only at hst₁
  obtain ⟨⟨startup, hloc⟩, clients, child, log, hsess, hsame⟩ :=
    resumeServe_standing (W := W) cfg failure e st₁.sess
  generalize resumeServe W cfg failure e st₁.sess = st' at hloc hsess ⊢
  obtain ⟨sess', loc'⟩ := st'
  rw [hst₁] at hloc hsess hsame
  dsimp only at hloc hsess
  subst hloc hsess
  constructor
  · intro hk
    exact ⟨hk.holder.symm, hk.pendingHandshakes.symm, hk.latch, hk.childStopped, hk.deferredExit, hk.exitDrainDeadline,
      hk.masterDrained.symm, hk.untilWatcher, (clock_same _ _ _).1 hk.timeout, (clock_same _ _ _).1 hk.idleTimeout⟩
  · intro hk
    have htoken : st.loc.daemonState.lock.token = none := by
      have hok := (loop_ok h).mid.lock.token
      rw [hk.lock] at hok
      simpa using hok
    exact ⟨hsame.trans hsame₁, rfl, hk.lock.symm, htoken.symm, rfl, rfl, rfl, rfl, hk.childStopped,
      hk.pendingHandshakes.symm, hk.latch, hk.deferredExit, hk.exitDrainDeadline, hk.masterDrained.symm, hk.untilWatcher,
      (clock_same _ _ _).2 hk.timeout, (clock_same _ _ _).2 hk.idleTimeout⟩

/-- An upgrade that does not replace the process. A refused request changes nothing; a failed `execve`
changes nothing if and only if the local variables of the loop are as entering it makes them. -/
theorem upgrade_attempt_keeps_session (h : (loop W cfg).Reachable st) :
    (∀ (env : FrameEnv) (s : Session) (d : DaemonState) (idx : Nat) (binaryPath : Option String) (msg : String),
      env.precheck binaryPath = some msg →
        ∃ s', handleControlMessage W cfg env s d idx (.upgradeRequest binaryPath) = (s', d, .continue) ∧
          s'.upgradePending = s.upgradePending ∧ ∀ l : Locals, SameSession cfg ⟨s, l⟩ ⟨s', l⟩) ∧
    ∀ inp failure e st', st.sess.upgradePending = true → (loop W cfg).step st (.retry inp failure e) = some st' →
      (SameSession cfg st st' ↔ AsEntered cfg st e) := by
  refine ⟨fun env s d idx binaryPath msg hrefused => ?_, fun inp failure e st' hup hstep => retry_same h hup hstep⟩
  obtain ⟨clients, missed, heq, hst⟩ := refused_upgrade (W := W) (s := s) env idx hrefused
  exact ⟨_, congrArg (withDaemon d) heq, rfl, fun l =>
    ⟨hst, rfl, rfl, rfl, rfl, rfl, rfl, rfl, rfl, rfl, rfl, rfl, rfl, rfl, rfl, rfl, rfl⟩⟩

/-- `SIGUSR1` and a failed `execve` in a session without a lock. -/
theorem upgrade_attempt_keeps_session_one :
    ∃ st st', (loop World.pristine {}).step st (.retry { upgradeCheckNow := upgradeFlushBudget } (.execFailed "ENOENT") {}) =
      some st' ∧ SameSession {} st st' := by
  obtain ⟨st, hreach, hup, hlocals, hchild, hstopped, hstep⟩ := (pristineStart_reach {} {} fun _ _ => True).exists_run
    (attachMoves .rw [] ++ failedUpgradeMoves.take 1)
    (p := fun st => st.sess.upgradePending = true ∧ { st.loc with upgradeFlushDeadline := none } = Locals.initial {} {} ∧
      (EntryInput.look {} st.sess.child) = ({}, .alive, none) ∧ st.sess.childStopped = false ∧
      ((loop World.pristine {}).step st
        (.retry { upgradeCheckNow := upgradeFlushBudget } (.execFailed "ENOENT") {})).isSome = true) (by decide +kernel)
  obtain ⟨st', hst'⟩ := Option.isSome_iff_exists.1 hstep
  have hexit : EntryInput.exit {} st.sess.child = none := by rw [EntryInput.exit, hchild]
  refine ⟨st, st', hst', ((upgrade_attempt_keeps_session hreach).2 _ _ _ _ hup hst').2 ?_⟩
  refine ⟨congrArg (·.daemonState.lock.holder) hlocals, congrArg (·.pendingHandshakes) hlocals, ?_, ?_, ?_, ?_,
    congrArg (·.masterDrained) hlocals, (congrArg (·.untilWatcher) hlocals).symm, .inl rfl, .inl rfl⟩
  · rw [hchild]
    exact (congrArg (·.lifecycle.stopped) hlocals).symm
  · rw [hchild]
    rfl
  · rw [hexit]
    exact (congrArg (·.deferredExit) hlocals).symm
  · rw [hexit]
    exact (congrArg (·.exitDrainDeadline) hlocals).symm

/-- The lock is held when an upgrade fails, and free afterwards. -/
theorem failed_upgrade_frees_lock :
    ∃ st st', (loop World.pristine {}).Reachable st ∧ st.sess.upgradePending = true ∧
      (loop World.pristine {}).step st (.retry { upgradeCheckNow := upgradeFlushBudget } (.execFailed "ENOENT") {}) =
        some st' ∧ st.loc.daemonState.lock.holder = some 0 ∧ st'.loc.daemonState.lock.holder = none ∧
      ¬ SameSession {} st st' := by
  obtain ⟨st, hreach, hup, hheld, hstep⟩ := (pristineStart_reach {} {} fun _ _ => True).exists_run
    (lockedMoves ++ failedUpgradeMoves.take 1)
    (p := fun st => st.sess.upgradePending = true ∧ st.loc.daemonState.lock.holder = some 0 ∧
      ((loop World.pristine {}).step st
        (.retry { upgradeCheckNow := upgradeFlushBudget } (.execFailed "ENOENT") {})).map
          (·.loc.daemonState.lock.holder) = some none) (by decide +kernel)
  obtain ⟨st', hst', hfree⟩ := Option.map_eq_some_iff.1 hstep
  exact ⟨st, st', hreach, hup, hst', hheld, hfree, fun hk => nomatch hfree.symm.trans (hk.holder.trans hheld)⟩

end Failed

end Hyoui.Daemon
