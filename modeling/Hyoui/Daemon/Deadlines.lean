import Hyoui.Daemon.Pristine
/-!
# No deadline is slept through

`Work.pollTimeout` is how long a turn may sleep in `poll`. `timed` is the loop with a clock that never goes
back, on a machine that lags by at most `lag`: so long for the work before `poll`, for `poll` to return past its
timeout, and for the work after it. In every such run no turn starts long after a deadline of the loop
(`deadlines_kept`), whatever else wakes it and however long it is left alone.
-/

namespace Hyoui.Daemon

open Hyoui.Protocol Hyoui.Lib

def handshakePollCapMs : Nat := 50
def noSelfpipePollCapMs : Nat := 500
def stoppedChildPollCapMs : Nat := 200

/-! ## How long to sleep -/

/-- `PollTimeout`: milliseconds, or without end. -/
abbrev PollTimeout := Option Nat

def capPollTimeout (current : PollTimeout) (capMs : Nat) : PollTimeout :=
  match current with
  | none => some capMs
  | some ms => if ms > capMs then some capMs else current

def u16Max : Nat := 65535

/-- `u16::try_from(n).unwrap_or(u16::MAX)`. -/
def saturateU16 (n : Nat) : Nat := if n ≤ u16Max then n else u16Max

/-- `as_micros().div_ceil(1000)`. -/
def ceilMillis (rem : Nat) : Nat := (rem / 1000 + 999) / 1000

/-- The milliseconds to the nearest deadline of the two. -/
def timeoutPollCapMs (elapsedSinceStart elapsedSinceOutput : Nat) (timeoutMs idleTimeoutMs : Option Nat) : Option Nat :=
  let overallRem := timeoutMs.map (· - elapsedSinceStart / millis 1)
  let idleRem := idleTimeoutMs.map (· - elapsedSinceOutput / millis 1)
  match overallRem, idleRem with
  | some a, some b => some (min a b)
  | some a, none => some a
  | none, some b => some b
  | none, none => none

def closingDeadline (closing : List ClosingClient) : Option Instant := (closing.map (·.deadline)).min?

def pollTimeoutUntil (rem : Nat) : Nat := saturateU16 (ceilMillis rem)

/-- The readings of the clock in a turn that only its sleep depends on, and when it sleeps and the next turn starts. -/
structure TurnClock where
  flushWaitNow : Instant := 0
  exitCapNow : Instant := 0
  timeoutCapNow : Instant := 0
  closingCapNow : Instant := 0
  polled : Instant
  woken : Instant
  next : Instant

/-- The caps of the timeout of `poll`, in the order in which they are applied. -/
def Work.pollCaps (cfg : Config) (w : Work) (c : TurnClock) : List Nat :=
  (if w.loc.pendingHandshakes.isEmpty then [] else [handshakePollCapMs]) ++
  (if w.loc.sigchldPipe then [] else [noSelfpipePollCapMs]) ++
  (if w.loc.lifecycle.stopped then [stoppedChildPollCapMs] else []) ++
  (w.loc.exitDrainDeadline.toList.map fun deadline => saturateU16 ((deadline - c.exitCapNow) / millis 1)) ++
  ((timeoutPollCapMs (c.timeoutCapNow - w.loc.serveStart) (c.timeoutCapNow - w.loc.lastOutput) cfg.timeoutMs
    cfg.idleTimeoutMs).toList.map saturateU16) ++
  ((closingDeadline w.sess.closing).toList.map fun deadline => pollTimeoutUntil (deadline - c.closingCapNow)) ++
  (if w.sess.clients.any (·.decoder.isReady) then [0] else [])

def Work.pollTimeout (cfg : Config) (w : Work) (c : TurnClock) : PollTimeout := (w.pollCaps cfg c).foldl capPollTimeout none

/-- How long the turn may sleep: in `poll`, or in `poll_writable` where an upgrade is pending. -/
def State.sleep (cfg : Config) (inp : IterInput) (c : TurnClock) (st : State) : PollTimeout :=
  match beforePoll cfg inp st with
  | .ok w => w.pollTimeout cfg c
  | .error (st', _) => st'.loc.upgradeFlushDeadline.map fun deadline => pollTimeoutUntil (deadline - c.flushWaitNow)

section Sleep

variable {timeout : PollTimeout} {ms n : Nat}

/-- The timeout is not without end, and not longer than this. -/
def SleepsAtMost (timeout : PollTimeout) (ms : Nat) : Prop := ∃ t, timeout = some t ∧ t ≤ ms

theorem capPollTimeout_self (timeout : PollTimeout) (ms : Nat) : SleepsAtMost (capPollTimeout timeout ms) ms := by
  cases timeout with
  | none => exact ⟨ms, rfl, Nat.le_refl ms⟩
  | some t =>
    unfold capPollTimeout
    dsimp only
    split
    · exact ⟨ms, rfl, Nat.le_refl ms⟩
    · exact ⟨t, rfl, by omega⟩

/-- A cap only shortens. -/
theorem SleepsAtMost.cap (h : SleepsAtMost timeout ms) (n : Nat) : SleepsAtMost (capPollTimeout timeout n) ms := by
  obtain ⟨t, rfl, hle⟩ := h
  unfold capPollTimeout
  dsimp only
  split
  · exact ⟨n, rfl, by omega⟩
  · exact ⟨t, rfl, hle⟩

theorem SleepsAtMost.caps (h : SleepsAtMost timeout ms) (caps : List Nat) : SleepsAtMost (caps.foldl capPollTimeout timeout) ms := by
  induction caps generalizing timeout with
  | nil => exact h
  | cons n caps ih => exact ih (h.cap n)

/-- Each of the caps holds of the timeout. -/
theorem foldl_caps {caps : List Nat} (timeout : PollTimeout) (h : ms ∈ caps) :
    SleepsAtMost (caps.foldl capPollTimeout timeout) ms := by
  induction caps generalizing timeout with
  | nil => cases h
  | cons n caps ih =>
    rcases List.mem_cons.1 h with rfl | h
    · exact (capPollTimeout_self timeout ms).caps caps
    · exact ih _ h

theorem saturateU16_le (n : Nat) : saturateU16 n ≤ n := by
  unfold saturateU16
  split <;> omega

theorem millis_ceil (rem : Nat) : millis (ceilMillis rem) ≤ rem + millis 1 := by
  unfold ceilMillis millis
  omega

theorem millis_mono {m : Nat} (h : m ≤ n) : millis m ≤ millis n := Nat.mul_le_mul_right _ h

theorem millis_floor (n : Nat) : millis (n / millis 1) ≤ n := by
  unfold millis
  omega

theorem pollTimeoutUntil_le (rem : Nat) : millis (pollTimeoutUntil rem) ≤ rem + millis 1 :=
  le_trans (millis_mono (saturateU16_le _)) (millis_ceil rem)

/-- What is left of so many milliseconds after a while. -/
theorem millis_left (ms elapsed : Nat) : millis (ms - elapsed / millis 1) ≤ millis ms - elapsed + millis 1 := by
  unfold millis
  omega

end Sleep

/-! ## The loop and its clock -/

/-- What a turn reads off the clock before it sleeps, and after. -/
def IterInput.readBefore (inp : IterInput) : List Instant :=
  [inp.upgradeNow, inp.upgradeCheckNow, inp.closingNow, inp.exitNow, inp.timeoutNow]

def IterInput.readAfter (inp : IterInput) : List Instant :=
  [inp.observeNow, inp.handshakeNow, inp.readNow, inp.dropNow] ++ inp.accept.toList

def TurnClock.readBefore (c : TurnClock) : List Instant :=
  [c.flushWaitNow, c.exitCapNow, c.timeoutCapNow, c.closingCapNow]

/-- The clock of a turn from `top` on: it does not go back, the turn sleeps no longer than `sleep`, and all else, with
what `poll` is late, takes `lag` at most each time. -/
structure KeepsTime (lag : Nat) (top : Instant) (inp : IterInput) (sleep : PollTimeout) (c : TurnClock) : Prop where
  before : ∀ t ∈ inp.readBefore ++ c.readBefore, top ≤ t ∧ t ≤ c.polled
  polled : c.polled ≤ top + lag
  slept : c.polled ≤ c.woken ∧ ∀ ms, sleep = some ms → c.woken ≤ c.polled + millis ms + lag
  after : ∀ t ∈ inp.readAfter, c.woken ≤ t ∧ t ≤ c.next
  next : c.woken ≤ c.next ∧ c.next ≤ c.woken + lag

/-- The loop, and when its turn starts. -/
structure Timed where
  state : State
  now : Instant

def timed (W : World) (cfg : Config) (lag : Nat) : System Timed (Move × TurnClock) where
  init p := ∃ e nowMs resumeScrollback child, child.reaped = none ∧
    p.state = enterServeLoop W cfg e (Session.initial cfg nowMs resumeScrollback child) ∧ e.now ≤ p.now ∧ p.now ≤ e.now + lag
  step p mv := ((loop W cfg).step p.state mv.1).map fun state => { state, now := mv.2.next }

/-- The turn keeps its time; the loop is entered again whenever the upgrade has failed. -/
def OnTime (cfg : Config) (lag : Nat) (p : Timed) (mv : Move × TurnClock) : Prop :=
  match mv.1 with
  | .turn inp => KeepsTime lag p.now inp (p.state.sleep cfg inp mv.2) mv.2
  | .retry _ _ e => p.now ≤ e.now ∧ e.now ≤ mv.2.next ∧ mv.2.next ≤ e.now + lag

/-- How long after a deadline a turn may still start: the timeout of `poll` is in milliseconds, and may be rounded up. -/
def lateBy (lag : Nat) : Nat := 3 * lag + millis 1

/-- No turn starts later than that after a deadline: that of the upgrade's flush, and where no upgrade is pending that
of the exit and those of the timeouts. -/
structure Punctual (cfg : Config) (lag : Nat) (st : State) (now : Instant) : Prop where
  flush : ∀ deadline, st.loc.upgradeFlushDeadline = some deadline → now ≤ deadline + lateBy lag
  unflushed : st.sess.upgradePending = false → st.loc.upgradeFlushDeadline = none
  exit : st.sess.upgradePending = false → st.loc.deferredExit.isSome = true →
    ∀ deadline, st.loc.exitDrainDeadline = some deadline → now ≤ deadline + lateBy lag
  timeout : st.sess.upgradePending = false → ∀ ms, cfg.timeoutMs = some ms → now ≤ st.loc.serveStart + millis ms + lateBy lag
  idle : st.sess.upgradePending = false → ∀ ms, cfg.idleTimeoutMs = some ms → now ≤ st.loc.lastOutput + millis ms + lateBy lag

/-- When `poll` has returned at the latest, for what the loop does not wait for otherwise: a handshake, a child nobody
would report, a connection that is being closed, a frame that is there already. -/
structure Wakes (lag : Nat) (top woken : Instant) (w : Work) : Prop where
  handshake : w.loc.pendingHandshakes ≠ [] → woken ≤ top + millis handshakePollCapMs + 2 * lag
  unpiped : w.loc.sigchldPipe = false → woken ≤ top + millis noSelfpipePollCapMs + 2 * lag
  stopped : w.loc.lifecycle.stopped = true → woken ≤ top + millis stoppedChildPollCapMs + 2 * lag
  closing : ∀ c ∈ w.sess.closing, woken ≤ c.deadline + millis 1 + 2 * lag
  buffered : ∀ ch ∈ w.sess.clients, ch.decoder.isReady = true → woken ≤ top + 2 * lag

/-! ## What a turn does to the deadlines -/

/-- The deadlines of the loop are those they were, or were set since. -/
structure Aged (since : Instant) (l l' : Locals) : Prop where
  exit : l'.deferredExit = l.deferredExit ∧ l'.exitDrainDeadline = l.exitDrainDeadline ∨
    ∃ deadline, l'.exitDrainDeadline = some deadline ∧ since ≤ deadline
  output : l'.lastOutput = l.lastOutput ∨ since ≤ l'.lastOutput
  serveStart : l'.serveStart = l.serveStart
  flush : l'.upgradeFlushDeadline = l.upgradeFlushDeadline

/-- The locals the turn leaves, or has come to. -/
def Stage.loc : Stage → Locals
  | .done turn => turn.1.loc
  | .tick w | .frames w _ => w.loc

section Aged

variable {W : World} {cfg : Config} {since now : Instant} {l l' l'' : Locals} {w : Work} {inp : IterInput} {st : State}

theorem Aged.refl (since : Instant) (l : Locals) : Aged since l l := ⟨.inl ⟨rfl, rfl⟩, .inl rfl, rfl, rfl⟩

theorem Aged.trans (h : Aged since l l') (h' : Aged since l' l'') : Aged since l l'' where
  exit := by
    rcases h'.exit with ⟨ho, hd⟩ | hnew
    · rw [ho, hd]
      exact h.exit
    · exact .inr hnew
  output := by
    rcases h'.output with hsame | hnew
    · rw [hsame]
      exact h.output
    · exact .inr hnew
  serveStart := h'.serveStart.trans h.serveStart
  flush := h'.flush.trans h.flush

/-- The other locals do not matter. -/
theorem Aged.same (hexit : l'.deferredExit = l.deferredExit) (hdeadline : l'.exitDrainDeadline = l.exitDrainDeadline)
    (houtput : l'.lastOutput = l.lastOutput) (hstart : l'.serveStart = l.serveStart)
    (hflush : l'.upgradeFlushDeadline = l.upgradeFlushDeadline) : Aged since l l' :=
  ⟨.inl ⟨hexit, hdeadline⟩, .inl houtput, hstart, hflush⟩

theorem deferChildExit_aged (h : since ≤ now) (l : Locals) (code : Option Int) : Aged since l (deferChildExit l now code) := by
  unfold deferChildExit
  split
  · exact ⟨.inr ⟨_, rfl, le_trans h (Nat.le_add_right _ _)⟩, .inl rfl, rfl, rfl⟩
  · exact .refl since l

theorem transition_loc (w : Work) (t : Option ChildTransition) : (w.transition W cfg t).loc = w.loc := by
  unfold Work.transition
  split <;> rfl

variable (W cfg) in
theorem observe_aged (h : since ≤ now) (w : Work) (evs : List ChildEvent) :
    Aged since w.loc (observeChildTransition W cfg w evs now).loc := by
  unfold observeChildTransition
  have hpoll : Aged since w.loc (w.pollChild evs).1.loc := .same rfl rfl rfl rfl rfl
  generalize w.pollChild evs = r at hpoll ⊢
  obtain ⟨w₁, childState, transition⟩ := r
  dsimp only
  rw [transition_loc]
  cases childState with
  | exited code => exact hpoll.trans (deferChildExit_aged h w₁.loc code)
  | alive => exact hpoll
  | stopped => exact hpoll

theorem drainSignals_loc (w : Work) (inp : IterInput) : (w.drainSignals inp).1.loc = w.loc := by
  unfold Work.drainSignals
  split
  · dsimp only
    split <;> rfl
  · rfl

theorem sigchld_aged (h : since ≤ inp.observeNow) (w : Work) (ready : Bool) :
    Aged since w.loc (w.sigchld W cfg inp ready).1.loc := by
  unfold Work.sigchld
  split
  · have hloc := drainSignals_loc w inp
    generalize w.drainSignals inp = r at hloc ⊢
    obtain ⟨w₁, flow⟩ := r
    dsimp only at hloc ⊢
    rw [← hloc]
    cases flow with
    | go => exact observe_aged W cfg h w₁ _
    | again => exact .refl since w₁.loc
    | ret o => exact .refl since w₁.loc
  · exact .refl since w.loc

theorem interrupted_aged (h : since ≤ inp.observeNow) (w : Work) : Aged since w.loc (w.interrupted W cfg inp).1.loc := by
  unfold Work.interrupted
  have hloc := drainSignals_loc w inp
  generalize w.drainSignals inp = r at hloc ⊢
  obtain ⟨w₁, flow⟩ := r
  dsimp only at hloc ⊢
  rw [← hloc]
  cases flow with
  | go => exact observe_aged W cfg h w₁ _
  | again => exact .refl since w₁.loc
  | ret o => exact .refl since w₁.loc

variable (W cfg) in
theorem timeoutObserve_aged (h : since ≤ inp.observeNow) (w : Work) : Aged since w.loc (w.timeoutObserve W cfg inp).loc := by
  unfold Work.timeoutObserve
  split
  · have hobs : Aged since w.loc (observeChildTransition W cfg w inp.childBeforeObserve inp.observeNow).loc :=
      observe_aged W cfg h w _
    dsimp only
    split
    · exact hobs.trans (.same rfl rfl rfl rfl rfl)
    · exact hobs
  · exact .refl since w.loc

variable (W cfg inp) in
theorem handshakes_aged (w : Work) : Aged since w.loc (w.handshakes W cfg inp).loc := .same rfl rfl rfl rfl rfl

theorem listen_aged (w : Work) (ready : Bool) : Aged since w.loc (w.listen inp ready).1.loc := by
  unfold Work.listen
  split
  · split
    · exact .refl since w.loc
    · split
      · exact .same rfl rfl rfl rfl rfl
      · exact .refl since w.loc
  · exact .refl since w.loc

theorem masterEof_aged (h : since ≤ inp.readNow) (w : Work) : Aged since w.loc (w.masterEof W cfg inp).loc := by
  unfold Work.masterEof
  split
  · exact .same rfl rfl rfl rfl rfl
  · have hpoll : Aged since w.loc (w.pollChild inp.childBeforeRead).1.loc := .same rfl rfl rfl rfl rfl
    generalize w.pollChild inp.childBeforeRead = r at hpoll ⊢
    obtain ⟨w₁, childState, transition⟩ := r
    have hsame : Aged since w.loc (w₁.transition W cfg transition).loc := by
      rw [transition_loc]
      exact hpoll
    cases childState with
    | exited code =>
      have hdrained : Aged since (w₁.transition W cfg transition).loc
          { (w₁.transition W cfg transition).loc with masterDrained := true } :=
        .same rfl rfl rfl rfl rfl
      exact (hsame.trans hdrained).trans (deferChildExit_aged h _ code)
    | alive => exact hsame
    | stopped => exact hsame

theorem masterBytes_aged (h : since ≤ inp.readNow) (w : Work) (bytes : Bytes) :
    Aged since w.loc (w.masterBytes W inp bytes).1.loc := by
  have hread : ∀ l' : Locals, l'.deferredExit = w.loc.deferredExit → l'.exitDrainDeadline = w.loc.exitDrainDeadline →
      l'.lastOutput = inp.readNow → l'.serveStart = w.loc.serveStart →
      l'.upgradeFlushDeadline = w.loc.upgradeFlushDeadline → Aged since w.loc l' := by
    intro l' hexit hdeadline houtput hstart hflush
    exact ⟨.inl ⟨hexit, hdeadline⟩, .inr (houtput ▸ h), hstart, hflush⟩
  unfold Work.masterBytes
  dsimp only
  split
  · split <;> exact hread _ rfl rfl rfl rfl rfl
  · exact hread _ rfl rfl rfl rfl rfl

theorem master_aged (h : since ≤ inp.readNow) (w : Work) (ready : Bool) : Aged since w.loc (w.master W cfg inp ready).1.loc := by
  unfold Work.master
  split
  · split
    · exact masterEof_aged h w
    · exact masterEof_aged h w
    · exact masterEof_aged h w
    · exact masterBytes_aged h w _
    · exact .refl since w.loc
    · exact .refl since w.loc
  · exact .refl since w.loc

theorem afterHandshakes_aged (hobs : since ≤ inp.observeNow) (hread : since ≤ inp.readNow) (w : Work)
    (listener master sigchld : Bool) (revents : List (ClientId × Bool)) :
    Aged since w.loc (w.afterHandshakes W cfg inp listener master sigchld revents).loc := by
  unfold Work.afterHandshakes
  have hsig : Aged since w.loc (w.sigchld W cfg inp sigchld).1.loc := sigchld_aged hobs w sigchld
  generalize w.sigchld W cfg inp sigchld = r₁ at hsig ⊢
  obtain ⟨w₁, flow₁⟩ := r₁
  cases flow₁ with
  | ret o => exact hsig
  | again => exact hsig
  | go =>
    have hlisten : Aged since w₁.loc (w₁.listen inp listener).1.loc := listen_aged w₁ listener
    dsimp only at hsig ⊢
    generalize w₁.listen inp listener = r₂ at hlisten ⊢
    obtain ⟨w₂, flow₂⟩ := r₂
    have htwo := hsig.trans hlisten
    cases flow₂ with
    | ret o => exact htwo
    | again => exact htwo
    | go =>
      have hmaster : Aged since w₂.loc (w₂.master W cfg inp master).1.loc := master_aged hread w₂ master
      dsimp only at htwo hmaster ⊢
      generalize w₂.master W cfg inp master = r₃ at hmaster ⊢
      obtain ⟨w₃, flow₃⟩ := r₃
      have hthree := htwo.trans hmaster
      cases flow₃ <;> exact hthree

theorem afterPoll_aged (hobs : since ≤ inp.observeNow) (hread : since ≤ inp.readNow) (w : Work) :
    Aged since w.loc (w.afterPoll W cfg inp).loc := by
  unfold Work.afterPoll
  cases inp.poll with
  | error => exact .refl since w.loc
  | interrupted => exact interrupted_aged hobs w
  | timeout =>
    have hshake := (timeoutObserve_aged W cfg hobs w).trans
      (handshakes_aged W cfg inp (w.timeoutObserve W cfg inp))
    dsimp only
    split
    · exact hshake.trans (afterHandshakes_aged hobs hread _ _ _ _ _)
    · exact hshake
  | ready listener master readable sigchld =>
    exact (handshakes_aged W cfg inp w).trans (afterHandshakes_aged hobs hread _ _ _ _ _)

/-- A turn that comes to `poll`. -/
theorem iterate_aged (hobs : since ≤ inp.observeNow) (hread : since ≤ inp.readNow) (hpoll : beforePoll cfg inp st = .ok w) :
    Aged since w.loc (iterate W cfg inp st).1.loc := by
  have hstage : Aged since w.loc (w.afterPoll W cfg inp).loc := afterPoll_aged hobs hread w
  unfold iterate beforeFrames
  rw [hpoll]
  dsimp only
  generalize w.afterPoll W cfg inp = stage at hstage ⊢
  cases stage with
  | done turn => exact hstage
  | tick w₁ => exact hstage
  | frames w₁ revents => exact hstage.trans (.same rfl rfl rfl rfl rfl)

end Aged

/-! ## A turn in time -/

section Turn

variable {W : World} {cfg : Config} {lag now : Nat} {inp : IterInput} {c : TurnClock} {st st' : State} {w : Work} {s : Session}
  {top : Instant} {timeout : PollTimeout}

theorem evalTimeout_none {elapsedSinceStart elapsedSinceOutput : Nat} {timeoutMs idleTimeoutMs : Option Nat}
    (h : evalTimeout elapsedSinceStart elapsedSinceOutput timeoutMs idleTimeoutMs = none) :
    (∀ ms, timeoutMs = some ms → elapsedSinceStart < millis ms) ∧
      ∀ ms, idleTimeoutMs = some ms → elapsedSinceOutput < millis ms := by
  have hfloor : ∀ elapsed ms : Nat, ¬ elapsed / millis 1 ≥ ms → elapsed < millis ms := by
    intro elapsed ms
    unfold millis
    omega
  unfold evalTimeout at h
  split at h
  · cases h
  · rename_i hstart
    split at h
    · cases h
    · rename_i houtput
      refine ⟨fun ms hms => hfloor _ _ ?_, fun ms hms => hfloor _ _ ?_⟩
      · rintro hge
        rw [hms] at hstart
        exact hstart (decide_eq_true hge)
      · rintro hge
        rw [hms] at houtput
        exact houtput (decide_eq_true hge)

theorem advanceClosing_live {now : Instant} {closing : List ClosingClient} {scripts : List (List WriteResult)} {c : ClosingClient}
    (h : c ∈ advanceClosing now closing scripts) : now < c.deadline := by
  induction closing generalizing scripts with
  | nil => cases h
  | cons c₀ cs ih =>
    unfold advanceClosing at h
    dsimp only at h
    split at h
    · split at h
      · rcases List.mem_cons.1 h with rfl | h
        · assumption
        · exact ih h
      · exact ih h
    · exact ih h

/-- A turn comes to `poll` only where nothing is due. -/
theorem beforePoll_ok (h : beforePoll cfg inp st = .ok w) :
    st.sess.upgradePending = false ∧ w.loc = { st.loc with startupOverflow := [] } ∧
      (st.loc.deferredExit.isSome = true → ∀ deadline, st.loc.exitDrainDeadline = some deadline → inp.exitNow < deadline) ∧
      (∀ ms, cfg.timeoutMs = some ms → inp.timeoutNow - st.loc.serveStart < millis ms) ∧
      (∀ ms, cfg.idleTimeoutMs = some ms → inp.timeoutNow - st.loc.lastOutput < millis ms) ∧
      ∀ c ∈ w.sess.closing, inp.closingNow < c.deadline := by
  unfold beforePoll at h
  dsimp only at h
  split at h
  · cases h
  · rename_i hup
    split at h
    · cases h
    · rename_i hexit
      split at h
      · cases h
      · rename_i heval
        cases h
        obtain ⟨htimeout, hidle⟩ := evalTimeout_none heval
        refine ⟨Bool.not_eq_true _ ▸ hup, rfl, fun hsome deadline hdeadline => ?_, htimeout, hidle,
          fun c hc => advanceClosing_live hc⟩
        obtain ⟨o, ho⟩ := Option.isSome_iff_exists.1 hsome
        by_contra hdue
        refine hexit deadline o ?_ ho
        rw [hdeadline, Option.filter_some, if_pos (decide_eq_true (Nat.not_lt.1 hdue))]

/-- It is over before `poll` and goes on only where an upgrade is pending. -/
theorem beforePoll_waits (h : beforePoll cfg inp st = .error (st', none)) :
    st'.sess.upgradePending = true ∧ ∃ deadline, st'.loc.upgradeFlushDeadline = some deadline ∧ inp.upgradeCheckNow < deadline := by
  unfold beforePoll at h
  dsimp only at h
  split at h
  · rename_i hup
    unfold awaitUpgradeFlush at h
    dsimp only at h
    split at h
    · cases h
    · rename_i hwait
      cases h
      rw [not_or] at hwait
      exact ⟨hup, _, rfl, Nat.not_le.1 hwait.2⟩
  · split at h
    · cases h
    · split at h <;> cases h

/-- Who sleeps until a deadline, give or take a millisecond, wakes in time. -/
theorem wakes_by {top polled woken reading cap deadline : Nat} (hpolled : polled ≤ top + lag) (hreading : top ≤ reading)
    (hdue : top ≤ deadline) (hcap : millis cap ≤ deadline - reading + millis 1) (hwoken : woken ≤ polled + millis cap + lag) :
    woken ≤ deadline + millis 1 + 2 * lag := by
  omega

theorem KeepsTime.sleeps (h : KeepsTime lag top inp timeout c) {ms : Nat} (hsleep : SleepsAtMost timeout ms) :
    c.woken ≤ c.polled + millis ms + lag := by
  obtain ⟨t, ht, hle⟩ := hsleep
  have hwoken := h.slept.2 t ht
  exact le_trans hwoken (Nat.add_le_add_right (Nat.add_le_add_left (millis_mono hle) _) _)

/-- A turn that comes to `poll` is not woken later than this by what stands at a cap. -/
theorem KeepsTime.capped (h : KeepsTime lag top inp (w.pollTimeout cfg c) c) {cap reading deadline : Nat}
    (hmem : cap ∈ w.pollCaps cfg c) (hreading : top ≤ reading) (hdue : top ≤ deadline)
    (hcap : millis cap ≤ deadline - reading + millis 1) : c.woken ≤ deadline + millis 1 + 2 * lag :=
  wakes_by h.polled hreading hdue hcap (h.sleeps (foldl_caps none hmem))

/-- What is left of a timeout, until it is over. -/
theorem timeout_wakes (h : KeepsTime lag top inp (w.pollTimeout cfg c) c) {rem : Nat}
    (hrem : timeoutPollCapMs (c.timeoutCapNow - w.loc.serveStart) (c.timeoutCapNow - w.loc.lastOutput) cfg.timeoutMs
      cfg.idleTimeoutMs = some rem) {ms start : Nat} (hms : rem ≤ ms - (c.timeoutCapNow - start) / millis 1)
    (hdue : inp.timeoutNow - start < millis ms) : c.woken ≤ start + millis ms + millis 1 + 2 * lag := by
  have hmem : saturateU16 rem ∈ w.pollCaps cfg c := by
    simp [Work.pollCaps, hrem]
  have hreading : top ≤ c.timeoutCapNow := (h.before _ (by simp [TurnClock.readBefore])).1
  have htop : top ≤ inp.timeoutNow := (h.before _ (by simp [IterInput.readBefore])).1
  refine h.capped hmem hreading (le_trans htop (Nat.le_of_lt (lt_add_of_tsub_lt_left hdue))) ?_
  calc millis (saturateU16 rem) ≤ millis (ms - (c.timeoutCapNow - start) / millis 1) := millis_mono (le_trans (saturateU16_le _) hms)
    _ ≤ millis ms - (c.timeoutCapNow - start) + millis 1 := millis_left _ _
    _ ≤ start + millis ms - c.timeoutCapNow + millis 1 := by
      generalize c.timeoutCapNow = t
      refine Nat.add_le_add_right ?_ _
      have hsub : ∀ m t s : Nat, m - (t - s) ≤ s + m - t := fun m t s => by omega
      exact hsub _ _ _

/-- The exit's deadline and the timeouts wake a turn in time. -/
theorem poll_wakes (hpoll : beforePoll cfg inp st = .ok w) (h : KeepsTime lag top inp (w.pollTimeout cfg c) c) :
    (w.loc.deferredExit.isSome = true → ∀ deadline, w.loc.exitDrainDeadline = some deadline →
      c.woken ≤ deadline + millis 1 + 2 * lag) ∧
    (∀ ms, cfg.timeoutMs = some ms → c.woken ≤ w.loc.serveStart + millis ms + millis 1 + 2 * lag) ∧
    (∀ ms, cfg.idleTimeoutMs = some ms → c.woken ≤ w.loc.lastOutput + millis ms + millis 1 + 2 * lag) := by
  obtain ⟨-, hloc, hexit, htimeout, hidle, -⟩ := beforePoll_ok hpoll
  have hstart : w.loc.serveStart = st.loc.serveStart := by rw [hloc]
  have houtput : w.loc.lastOutput = st.loc.lastOutput := by rw [hloc]
  refine ⟨fun hsome deadline hdeadline => ?_, fun ms hms => ?_, fun ms hms => ?_⟩
  · have hmem : saturateU16 ((deadline - c.exitCapNow) / millis 1) ∈ w.pollCaps cfg c := by
      simp [Work.pollCaps, hdeadline]
    have hreading : top ≤ c.exitCapNow := (h.before _ (by simp [TurnClock.readBefore])).1
    have htop : top ≤ inp.exitNow := (h.before _ (by simp [IterInput.readBefore])).1
    rw [hloc] at hsome hdeadline
    refine h.capped hmem hreading (le_trans htop (Nat.le_of_lt (hexit hsome deadline hdeadline))) ?_
    exact le_trans (le_trans (millis_mono (saturateU16_le _)) (millis_floor _)) (Nat.le_add_right _ _)
  · obtain ⟨rem, hrem, hle⟩ : ∃ rem, timeoutPollCapMs (c.timeoutCapNow - w.loc.serveStart) (c.timeoutCapNow - w.loc.lastOutput)
        cfg.timeoutMs cfg.idleTimeoutMs = some rem ∧ rem ≤ ms - (c.timeoutCapNow - w.loc.serveStart) / millis 1 := by
      rw [hms]
      cases cfg.idleTimeoutMs with
      | none => exact ⟨_, rfl, Nat.le_refl _⟩
      | some idle => exact ⟨_, rfl, Nat.min_le_left _ _⟩
    exact timeout_wakes h hrem hle (hstart ▸ htimeout ms hms)
  · obtain ⟨rem, hrem, hle⟩ : ∃ rem, timeoutPollCapMs (c.timeoutCapNow - w.loc.serveStart) (c.timeoutCapNow - w.loc.lastOutput)
        cfg.timeoutMs cfg.idleTimeoutMs = some rem ∧ rem ≤ ms - (c.timeoutCapNow - w.loc.lastOutput) / millis 1 := by
      rw [hms]
      cases cfg.timeoutMs with
      | none => exact ⟨_, rfl, Nat.le_refl _⟩
      | some total => exact ⟨_, rfl, Nat.min_le_right _ _⟩
    exact timeout_wakes h hrem hle (houtput ▸ hidle ms hms)

theorem closingDeadline_le {closing : List ClosingClient} {cl : ClosingClient} (h : cl ∈ closing) :
    ∃ deadline, closingDeadline closing = some deadline ∧ deadline ≤ cl.deadline ∧ ∃ cl' ∈ closing, cl'.deadline = deadline := by
  have hmem : cl.deadline ∈ closing.map (·.deadline) := List.mem_map_of_mem h
  cases hmin : (closing.map (·.deadline)).min? with
  | none =>
    rw [List.min?_eq_none_iff] at hmin
    rw [hmin] at hmem
    cases hmem
  | some deadline =>
    obtain ⟨hin, hle⟩ := List.min?_eq_some_iff.1 hmin
    obtain ⟨cl', hcl', heq⟩ := List.mem_map.1 hin
    exact ⟨deadline, hmin, hle _ hmem, cl', hcl', heq⟩

/-- Everything the loop does not wait for at a descriptor wakes it. -/
theorem poll_wakes_all (hpoll : beforePoll cfg inp st = .ok w) (h : KeepsTime lag top inp (w.pollTimeout cfg c) c) :
    Wakes lag top c.woken w := by
  obtain ⟨-, -, -, -, -, hlive⟩ := beforePoll_ok hpoll
  have hfixed : ∀ ms, ms ∈ w.pollCaps cfg c → c.woken ≤ top + millis ms + 2 * lag := by
    intro ms hmem
    have hwoken := h.sleeps (foldl_caps none hmem)
    have hpolled := h.polled
    have hsum : ∀ a b x y : Nat, a ≤ b + x + lag → b ≤ y + lag → a ≤ y + x + 2 * lag := fun a b x y h₁ h₂ => by omega
    exact hsum _ _ _ _ hwoken hpolled
  refine ⟨fun hsome => ?_, fun hnone => ?_, fun hstopped => ?_, fun cl hcl => ?_, fun ch hch hready => ?_⟩
  · exact hfixed _ (by simp [Work.pollCaps, hsome])
  · exact hfixed _ (by simp [Work.pollCaps, hnone])
  · exact hfixed _ (by simp [Work.pollCaps, hstopped])
  · obtain ⟨deadline, hdeadline, hle, cl', hcl', rfl⟩ := closingDeadline_le hcl
    have hmem : pollTimeoutUntil (cl'.deadline - c.closingCapNow) ∈ w.pollCaps cfg c := by
      simp [Work.pollCaps, hdeadline]
    have hreading : top ≤ c.closingCapNow := (h.before _ (by simp [TurnClock.readBefore])).1
    have htop : top ≤ inp.closingNow := (h.before _ (by simp [IterInput.readBefore])).1
    have hwoken := h.capped hmem hreading (le_trans htop (Nat.le_of_lt (hlive cl' hcl'))) (pollTimeoutUntil_le _)
    exact le_trans hwoken (Nat.add_le_add_right (Nat.add_le_add_right hle _) _)
  · have hmem : 0 ∈ w.pollCaps cfg c := by
      have hany : w.sess.clients.any (·.decoder.isReady) = true := List.any_eq_true.2 ⟨ch, hch, hready⟩
      simp [Work.pollCaps, hany]
    exact hfixed 0 hmem

/-- Who is woken in time starts the next turn in time. -/
theorem next_by {woken next deadline : Nat} (hwoken : woken ≤ deadline + millis 1 + 2 * lag) (hnext : next ≤ woken + lag) :
    next ≤ deadline + lateBy lag := by
  unfold lateBy
  omega

theorem next_soon {woken next since : Nat} (hsince : woken ≤ since) (hnext : next ≤ woken + lag) : next ≤ since + lateBy lag := by
  unfold lateBy
  omega

theorem turn_punctual (h : Punctual cfg lag st top) (hstep : iterate W cfg inp st = (st', none))
    (hk : KeepsTime lag top inp (st.sleep cfg inp c) c) : Punctual cfg lag st' c.next := by
  cases hpoll : beforePoll cfg inp st with
  | error turn =>
    have hturn : turn = (st', none) := by
      unfold iterate beforeFrames at hstep
      rw [hpoll] at hstep
      exact hstep
    subst hturn
    obtain ⟨hup, deadline, hdeadline, hdue⟩ := beforePoll_waits hpoll
    have hno : ¬ st'.sess.upgradePending = false := by rw [hup]; decide
    refine ⟨fun d hd => ?_, fun hn => absurd hn hno, fun hn => absurd hn hno, fun hn => absurd hn hno, fun hn => absurd hn hno⟩
    rw [hdeadline] at hd
    cases hd
    have hsleep : SleepsAtMost (st.sleep cfg inp c) (pollTimeoutUntil (deadline - c.flushWaitNow)) := by
      unfold State.sleep
      rw [hpoll]
      dsimp only
      rw [hdeadline]
      exact ⟨_, rfl, Nat.le_refl _⟩
    have hreading : top ≤ c.flushWaitNow := (hk.before _ (by simp [TurnClock.readBefore])).1
    have htop : top ≤ inp.upgradeCheckNow := (hk.before _ (by simp [IterInput.readBefore])).1
    exact next_by (wakes_by hk.polled hreading (le_trans htop (Nat.le_of_lt hdue)) (pollTimeoutUntil_le _)
      (hk.sleeps hsleep)) hk.next.2
  | ok w =>
    have hsleep : st.sleep cfg inp c = w.pollTimeout cfg c := by
      unfold State.sleep
      rw [hpoll]
    rw [hsleep] at hk
    obtain ⟨hup, hloc, -, -, -, -⟩ := beforePoll_ok hpoll
    obtain ⟨hexit, htimeout, hidle⟩ := poll_wakes hpoll hk
    have hobs : c.woken ≤ inp.observeNow := (hk.after _ (by simp [IterInput.readAfter])).1
    have hread : c.woken ≤ inp.readNow := (hk.after _ (by simp [IterInput.readAfter])).1
    have haged := iterate_aged (W := W) hobs hread hpoll
    rw [hstep] at haged
    have hflush : st'.loc.upgradeFlushDeadline = none := by
      rw [haged.flush, hloc]
      exact h.unflushed hup
    refine ⟨fun d hd => ?_, fun _ => hflush, fun _ hsome d hd => ?_, fun _ ms hms => ?_, fun _ ms hms => ?_⟩
    · rw [hflush] at hd
      cases hd
    · rcases haged.exit with ⟨ho, hdeadline⟩ | ⟨d', hd', hsince⟩
      · exact next_by (hexit (ho ▸ hsome) d (hdeadline ▸ hd)) hk.next.2
      · cases hd'.symm.trans hd
        exact next_soon hsince hk.next.2
    · rw [haged.serveStart]
      exact next_by (htimeout ms hms) hk.next.2
    · rcases haged.output with hsame | hsince
      · rw [hsame]
        exact next_by (hidle ms hms) hk.next.2
      · exact next_soon (le_trans hsince (Nat.le_add_right _ _)) hk.next.2

theorem entered_punctual (W : World) (cfg : Config) {e : EntryInput} (hnow : now ≤ e.now + lag) (s : Session) :
    Punctual cfg lag (enterServeLoop W cfg e s) now := by
  have haged : Aged e.now (Locals.initial cfg e) (enterServeLoop W cfg e s).loc :=
    (observe_aged W cfg (Nat.le_refl e.now) { sess := s, loc := Locals.initial cfg e, overflow := [] } e.childEvents).trans
      (.same rfl rfl rfl rfl rfl)
  refine ⟨fun d hd => ?_, fun _ => haged.flush, fun _ hsome d hd => ?_, fun _ ms _ => ?_, fun _ ms _ => ?_⟩
  · rw [haged.flush] at hd
    cases hd
  · rcases haged.exit with ⟨ho, -⟩ | ⟨d', hd', hsince⟩
    · rw [ho] at hsome
      cases hsome
    · cases hd'.symm.trans hd
      exact next_soon hsince hnow
  · rw [haged.serveStart]
    exact next_soon (Nat.le_add_right _ _) hnow
  · rcases haged.output with hsame | hsince
    · rw [hsame]
      exact next_soon (Nat.le_add_right _ _) hnow
    · exact next_soon (le_trans hsince (Nat.le_add_right _ _)) hnow

/-- In every run in time no turn starts long after a deadline of the loop, and what the loop does not wait for at a
descriptor wakes it from `poll`. -/
theorem deadlines_kept {p : Timed} (h : (timed W cfg lag).Reach (OnTime cfg lag) p) : Punctual cfg lag p.state p.now ∧
    ∀ inp c w, beforePoll cfg inp p.state = .ok w → KeepsTime lag p.now inp (p.state.sleep cfg inp c) c →
      Wakes lag p.now c.woken w := by
  refine ⟨?_, fun inp c w hpoll hk => ?_⟩
  · refine h.inv (fun p => Punctual cfg lag p.state p.now) ?_ ?_
    · rintro p ⟨e, nowMs, resumeScrollback, child, -, hstate, -, hnow⟩
      rw [hstate]
      exact entered_punctual W cfg hnow _
    · rintro p ⟨mv, c⟩ p' - hp htime hstep
      obtain ⟨st', hmove, rfl⟩ := Option.map_eq_some_iff.1 hstep
      cases mv with
      | turn inp => exact turn_punctual hp (loop_turn hmove) htime
      | retry inp failure e =>
        obtain ⟨st₁, -, rfl⟩ := loop_retry hmove
        exact entered_punctual W cfg htime.2.2 _
  · have hsleep : p.state.sleep cfg inp c = w.pollTimeout cfg c := by
      unfold State.sleep
      rw [hpoll]
    exact poll_wakes_all hpoll (hsleep ▸ hk)

/-- A loop with a timeout of a second is left alone: it sleeps until then, and ends in its next turn. -/
theorem deadlines_kept_timeout : ∃ p : Timed, (timed World.pristine { timeoutMs := some 1000 } (millis 2)).Reach
      (OnTime { timeoutMs := some 1000 } (millis 2)) p ∧ p.now = millis 1003 ∧
    (iterate World.pristine { timeoutMs := some 1000 } { timeoutNow := p.now } p.state).2 = some .clientDetachedOrKilled ∧
    Punctual { timeoutMs := some 1000 } (millis 2) p.state p.now := by
  let cfg : Config := { timeoutMs := some 1000 }
  let start : State := enterServeLoop World.pristine cfg {} (Session.initial cfg 0 [] {})
  let inp : IterInput := { observeNow := millis 1002, handshakeNow := millis 1002, readNow := millis 1002, dropNow := millis 1002 }
  let c : TurnClock := { polled := 0, woken := millis 1001, next := millis 1003 }
  have hsleep : start.sleep cfg inp c = some 1000 := by decide +kernel
  have htime : OnTime cfg (millis 2) { state := start, now := 0 } (.turn inp, c) := by
    refine ⟨by decide, by decide, ⟨by decide, fun ms hms => ?_⟩, by decide, by decide⟩
    dsimp only at hms
    rw [hsleep] at hms
    cases hms
    decide
  have hstart : (timed World.pristine cfg (millis 2)).Reach (OnTime cfg (millis 2)) { state := start, now := 0 } :=
    .init ⟨{}, 0, [], {}, rfl, rfl, Nat.le_refl _, Nat.zero_le _⟩
  have hturn : (iterate World.pristine cfg inp start).2 = none := by decide +kernel
  have hstep : (timed World.pristine cfg (millis 2)).step { state := start, now := 0 } (.turn inp, c) =
      some { state := (iterate World.pristine cfg inp start).1, now := millis 1003 } := by
    simp only [timed, loop]
    generalize iterate World.pristine cfg inp start = turn at hturn ⊢
    obtain ⟨st', o⟩ := turn
    dsimp only at hturn
    subst hturn
    rfl
  have hreach := System.Reach.step hstart htime hstep
  exact ⟨_, hreach, rfl, by decide +kernel, (deadlines_kept hreach).1⟩

end Turn

end Hyoui.Daemon
