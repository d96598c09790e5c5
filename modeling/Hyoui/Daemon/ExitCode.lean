import Hyoui.Daemon.Exit
import Hyoui.Daemon.Teardown
/-!
# The code a session ends with

The exit the loop remembers is one it has seen (`ExitTrue`), whatever else it misses. So the code that
the end of the session gets is that of the child, but where somebody took the exit before, or where the
child outlives SIGKILL (`serve_code`); and the end comes in a bounded number of looks at the child.
-/

namespace Hyoui.Daemon

open Hyoui.Protocol Hyoui.Lib

/-- The exit that the loop remembers has been taken from the child. -/
def ExitTrue (s : Session) (l : Locals) : Prop :=
  ∀ o, l.deferredExit = some o → ∃ status, s.child.reaped = some status ∧ o = status.outcome

/-- A result that tells an exit tells that of the child. -/
def TrueOutcome (s : Session) (o : RelayOutcome) : Prop :=
  ∀ code, o = .childExited code → ∃ status, s.child.reaped = some status ∧ code = some status.code

/-- What was taken from the child stays taken. -/
def KeepsReaped (s s' : Session) : Prop := ∀ status, s.child.reaped = some status → s'.child.reaped = some status

def FlowTrue : Work × Flow → Prop
  | (w, .ret o) => TrueOutcome w.sess o
  | (w, .go) | (w, .again) => ExitTrue w.sess w.loc

def TurnTrue : Turn → Prop
  | (st, none) => ExitTrue st.sess st.loc
  | (st, some o) => TrueOutcome st.sess o

def StageTrue : Stage → Prop
  | .done turn => TurnTrue turn
  | .tick w | .frames w _ => ExitTrue w.sess w.loc

section Phases

variable {W : World} {cfg : Config} {w : Work} {inp : IterInput} {s s' : Session} {l l' : Locals}

theorem ExitTrue.keep (h : ExitTrue s l) (hc : KeepsReaped s s') (hl : l'.deferredExit = l.deferredExit) : ExitTrue s' l' := by
  intro o ho
  obtain ⟨status, hreaped, rfl⟩ := h o (hl ▸ ho)
  exact ⟨status, hc status hreaped, rfl⟩

theorem KeepsReaped.of_child (h : s'.child = s.child) : KeepsReaped s s' := fun _ hs => h ▸ hs

theorem trueOutcome_killed (s : Session) : TrueOutcome s .clientDetachedOrKilled := by
  intro code hcode
  cases hcode

theorem trueOutcome_error (s : Session) : TrueOutcome s .error := by
  intro code hcode
  cases hcode

theorem waitpid_keeps {c : ChildProcess} {status : ExitStatus} (h : c.reaped = some status) (evs : List ChildEvent)
    (wcontinued : Bool) : ((c.events evs).waitpid wcontinued).1.reaped = some status := by
  rw [waitpid_reaped, events_reaped, h]
  rfl

/-- The exit that is remembered after a look at the child was taken by it or before. -/
theorem pollChild_true (h : ExitTrue w.sess w.loc) (evs : List ChildEvent) (now : Instant) :
    ExitTrue (w.pollChild evs).1.sess (rememberExit (w.pollChild evs).1.loc now (w.pollChild evs).2.1) := by
  have hchild : (w.pollChild evs).1.sess.child = ((w.sess.child.events evs).waitpid true).1 := poll_child _ _
  have hkeeps : KeepsReaped w.sess (w.pollChild evs).1.sess := fun status hs => hchild ▸ waitpid_keeps hs evs true
  have hsame : ExitTrue (w.pollChild evs).1.sess (w.pollChild evs).1.loc := h.keep hkeeps rfl
  cases hz : (w.sess.child.events evs).unreaped with
  | none =>
    have hstate : ∀ code, (w.pollChild evs).2.1 ≠ .exited code := poll_not_exited hz
    rw [rememberExit_none hstate]
    exact hsame
  | some status =>
    have hstate : (w.pollChild evs).2.1 = .exited (some status.code) := (poll_exited hz).1
    have htaken : (w.pollChild evs).1.sess.child.reaped = some status := by
      rw [hchild, waitpid_reaped, unreaped_not_reaped hz, hz]
      rfl
    rw [hstate]
    unfold rememberExit deferChildExit
    dsimp only
    split
    · intro o ho
      cases ho
      exact ⟨status, htaken, rfl⟩
    · exact hsame

theorem transition_true (h : ExitTrue w.sess w.loc) (t : Option ChildTransition) :
    ExitTrue (w.transition W cfg t).sess (w.transition W cfg t).loc := by
  obtain ⟨hc, hl⟩ := transition_child (W := W) cfg w t
  exact h.keep (.of_child hc) (by rw [hl])

theorem observe_true (h : ExitTrue w.sess w.loc) (evs : List ChildEvent) (now : Instant) :
    ExitTrue (observeChildTransition W cfg w evs now).sess (observeChildTransition W cfg w evs now).loc := by
  have hpoll := pollChild_true h evs now
  unfold observeChildTransition
  generalize w.pollChild evs = r at hpoll ⊢
  obtain ⟨w₁, childState, transition⟩ := r
  refine transition_true ?_ transition
  cases childState <;> exact hpoll

/-- The signals may take the exit, but they do not give it back; and all they end the loop with is a kill. -/
theorem signals_keep (lifecycle : ChildLifecycle) (sigs : List (Signal × List ChildEvent)) (s : Session) :
    KeepsReaped s (handleSuspendSignals lifecycle sigs s).1 ∧
      ∀ o, (handleSuspendSignals lifecycle sigs s).2 = some o → o = .clientDetachedOrKilled := by
  induction sigs generalizing s with
  | nil => exact ⟨fun _ hs => hs, fun o ho => by cases ho⟩
  | cons se rest ih =>
    obtain ⟨sig, evs⟩ := se
    have hrest : ∀ s₁ : Session, KeepsReaped s s₁ → KeepsReaped s (handleSuspendSignals lifecycle rest s₁).1 ∧
        ∀ o, (handleSuspendSignals lifecycle rest s₁).2 = some o → o = .clientDetachedOrKilled :=
      fun s₁ hs₁ => ⟨fun status hs => (ih s₁).1 status (hs₁ status hs), (ih s₁).2⟩
    have hevents : ∀ s₁ : Session, s₁.child = s.child.events evs → KeepsReaped s s₁ := by
      intro s₁ hs₁ status hs
      rw [hs₁, events_reaped, hs]
    unfold handleSuspendSignals
    dsimp only
    split
    · split
      · exact hrest _ (hevents _ rfl)
      · have hlook : ∀ s₁ : Session, s₁.child = (childIsStoppedViaWaitpid (s.child.events evs)).1 → KeepsReaped s s₁ := by
          intro s₁ hs₁ status hs
          rw [hs₁, isStopped_child]
          exact waitpid_keeps hs evs false
        split
        · exact hrest _ (hlook _ rfl)
        · exact hrest _ (hlook _ rfl)
    · split
      · exact hrest _ (hevents _ rfl)
      · split
        · exact ⟨hevents _ rfl, fun o ho => (Option.some.inj ho).symm⟩
        · exact hrest _ (hevents _ rfl)

theorem drainSignals_true (h : ExitTrue w.sess w.loc) (inp : IterInput) : FlowTrue (w.drainSignals inp) := by
  unfold Work.drainSignals
  split
  · obtain ⟨hkeeps, hends⟩ := signals_keep w.loc.lifecycle inp.signals w.sess
    generalize handleSuspendSignals w.loc.lifecycle inp.signals w.sess = r at hkeeps hends
    obtain ⟨s₁, outcome⟩ := r
    dsimp only at hkeeps hends ⊢
    cases outcome with
    | some o =>
      rw [hends o rfl]
      exact trueOutcome_killed _
    | none =>
      dsimp only
      split <;> exact h.keep hkeeps rfl
  · exact h

theorem sigchld_true (h : ExitTrue w.sess w.loc) (ready : Bool) : FlowTrue (w.sigchld W cfg inp ready) := by
  unfold Work.sigchld
  split
  · have hdrain := drainSignals_true h inp
    generalize w.drainSignals inp = r at hdrain ⊢
    obtain ⟨w₁, flow⟩ := r
    cases flow with
    | go => exact observe_true hdrain _ _
    | again => exact hdrain
    | ret o => exact hdrain
  · exact h

theorem masterEof_true (h : ExitTrue w.sess w.loc) :
    ExitTrue (w.masterEof W cfg inp).sess (w.masterEof W cfg inp).loc := by
  unfold Work.masterEof
  split
  · exact h
  · have hpoll := pollChild_true h inp.childBeforeRead inp.readNow
    generalize w.pollChild inp.childBeforeRead = r at hpoll ⊢
    obtain ⟨w₁, childState, transition⟩ := r
    obtain ⟨hc, hl⟩ := transition_child (W := W) cfg w₁ transition
    cases childState with
    | exited code =>
      refine hpoll.keep (.of_child hc) ?_
      simp only [hl, rememberExit, deferChildExit]
      split <;> rfl
    | alive => exact hpoll.keep (.of_child hc) (by rw [hl]; rfl)
    | stopped => exact hpoll.keep (.of_child hc) (by rw [hl]; rfl)

theorem master_true (h : ExitTrue w.sess w.loc) (ready : Bool) : FlowTrue (w.master W cfg inp ready) := by
  unfold Work.master
  split
  · split
    · exact masterEof_true h
    · exact masterEof_true h
    · exact masterEof_true h
    · unfold Work.masterBytes
      dsimp only
      split
      · split
        · exact trueOutcome_killed _
        · exact h
      · exact h
    · exact h
    · exact trueOutcome_error _
  · exact h

theorem leave_true {o : Option RelayOutcome} (h : TurnTrue ({ sess := w.sess, loc := w.loc }, o)) : TurnTrue (w.leave o) := by
  cases o with
  | none => exact h
  | some o => exact h

theorem afterHandshakes_true (h : ExitTrue w.sess w.loc) (listener master sigchld : Bool) (revents : List (ClientId × Bool)) :
    StageTrue (w.afterHandshakes W cfg inp listener master sigchld revents) := by
  unfold Work.afterHandshakes
  have hflow₁ : FlowTrue (w.sigchld W cfg inp sigchld) := sigchld_true h sigchld
  generalize w.sigchld W cfg inp sigchld = r₁ at hflow₁ ⊢
  obtain ⟨w₁, flow₁⟩ := r₁
  cases flow₁ with
  | ret o => exact leave_true (o := some o) hflow₁
  | again => exact leave_true (o := none) hflow₁
  | go =>
    obtain ⟨hsess, hdefer, -, hret⟩ := listen_same w₁ inp listener
    dsimp only
    generalize w₁.listen inp listener = r₂ at hsess hdefer hret ⊢
    obtain ⟨w₂, flow₂⟩ := r₂
    have htrue₂ : ExitTrue w₂.sess w₂.loc := ExitTrue.keep hflow₁ (.of_child (congrArg Session.child hsess)) hdefer
    cases flow₂ with
    | ret o => exact absurd rfl (hret o)
    | again => exact leave_true (o := none) htrue₂
    | go =>
      dsimp only
      have hflow₃ : FlowTrue (w₂.master W cfg inp master) := master_true htrue₂ master
      generalize w₂.master W cfg inp master = r₃ at hflow₃ ⊢
      obtain ⟨w₃, flow₃⟩ := r₃
      cases flow₃ with
      | ret o => exact leave_true (o := some o) hflow₃
      | again => exact leave_true (o := none) hflow₃
      | go => exact hflow₃

variable (W cfg inp) in
theorem handshakes_true (hmid : w.Mid) (h : ExitTrue w.sess w.loc) :
    ExitTrue (w.handshakes W cfg inp).sess (w.handshakes W cfg inp).loc := by
  obtain ⟨hc, -, he, -⟩ := handshakes_same (W := W) cfg inp hmid
  exact h.keep (.of_child hc) he

theorem timeoutObserve_true (h : ExitTrue w.sess w.loc) :
    ExitTrue (w.timeoutObserve W cfg inp).sess (w.timeoutObserve W cfg inp).loc := by
  unfold Work.timeoutObserve
  split
  · dsimp only
    split
    · exact observe_true h _ _
    · exact observe_true h _ _
  · exact h

theorem afterPoll_true (hmid : w.Mid) (h : ExitTrue w.sess w.loc) : StageTrue (w.afterPoll W cfg inp) := by
  unfold Work.afterPoll
  split
  · exact leave_true (o := some .error) (trueOutcome_error _)
  · unfold Work.interrupted
    have hdrain := drainSignals_true h inp
    generalize w.drainSignals inp = r at hdrain ⊢
    obtain ⟨w₁, flow⟩ := r
    cases flow with
    | go => exact leave_true (o := none) (observe_true hdrain _ _)
    | again => exact leave_true (o := none) hdrain
    | ret o => exact leave_true (o := some o) hdrain
  · have hchats : w.Chats W (w.timeoutObserve W cfg inp) := Work.timeoutObserve_chats hmid inp
    have hshake := handshakes_true W cfg inp hchats.mid (timeoutObserve_true h)
    dsimp only
    split
    · exact afterHandshakes_true hshake _ _ _ _
    · exact hshake
  · exact afterHandshakes_true (handshakes_true W cfg inp hmid h) _ _ _ _

end Phases

/-! ## The frames -/

section Frames

variable {W : World} {cfg : Config} {s : Session} {d : DaemonState} {idx : Nat} {o : RelayOutcome}

/-- A control message ends the session with a kill only. -/
theorem handleControlMessage_ends (env : FrameEnv) {msg : ControlMessage}
    (h : (handleControlMessage W cfg env s d idx msg).2.2 = .terminateSession o) : o = .clientDetachedOrKilled := by
  by_cases hkill : ∃ signal, msg = .kill signal true
  · obtain ⟨signal, rfl⟩ := hkill
    simp only [handleControlMessage, handleKill, ensureRwMode, guarded] at h
    repeat' split at h
    all_goals cases h
    all_goals rfl
  · refine absurd h (handleControlMessage_goesOn env (fun signal hmsg => ?_) o)
    exact absurd ⟨signal, hmsg⟩ hkill

theorem step_ends {inp : IterInput} {r : FrameRun} {fre : FrameOrError}
    (hr : ∀ o, r.shouldReturn = some o → o = .clientDetachedOrKilled)
    (h : (r.step W cfg inp idx fre).shouldReturn = some o) : o = .clientDetachedOrKilled := by
  unfold FrameRun.step at h
  split at h
  · exact hr o h
  · split at h
    · exact hr o h
    · rename_i frame
      have hends : ∀ o, (handleClientFrame W cfg (inp.frameEnv ((r.sess.clients[idx]?).elim 0 (·.id))) r.sess r.daemonState idx
          frame).2.2 = .terminateSession o → o = .clientDetachedOrKilled := by
        intro o ho
        unfold handleClientFrame at ho
        split at ho
        · exact absurd ho (handleRawData_goesOn _ _ o)
        · split at ho
          · split at ho
            · exact handleControlMessage_ends _ ho
            · cases ho
          · cases ho
      dsimp only at h
      generalize handleClientFrame W cfg _ r.sess r.daemonState idx frame = res at hends h
      obtain ⟨s', d', outcome⟩ := res
      cases outcome with
      | terminateSession o' =>
        cases h
        exact hends o rfl
      | «continue» => exact hr o h
      | dropClient => exact hr o h
      | dropClients indices cancelPending => exact hr o h

variable (W cfg) in
theorem run_ends (inp : IterInput) (frames : List (Nat × FrameOrError)) {r : FrameRun}
    (hr : ∀ o, r.shouldReturn = some o → o = .clientDetachedOrKilled) :
    ∀ o, (r.run W cfg inp frames).shouldReturn = some o → o = .clientDetachedOrKilled := by
  induction frames generalizing r with
  | nil => exact hr
  | cons f frames ih => exact ih fun _ ho => step_ends hr ho

end Frames

/-! ## Runs -/

section Runs

variable {W : World} {cfg : Config} {inp : IterInput} {st st' : State} {w : Work}

variable (cfg inp) in
theorem beforePoll_true (h : ExitTrue st.sess st.loc) :
    match beforePoll cfg inp st with
    | .error turn => TurnTrue turn
    | .ok w => ExitTrue w.sess w.loc := by
  unfold beforePoll
  dsimp only
  by_cases hup : st.sess.upgradePending = true
  · rw [if_pos hup]
    dsimp only [awaitUpgradeFlush]
    split
    · intro code hcode
      cases hcode
    · exact h
  · rw [if_neg hup]
    cases hdue : st.loc.exitDrainDeadline.filter (inp.exitNow ≥ ·) with
    | none =>
      dsimp only
      cases evalTimeout (inp.timeoutNow - st.loc.serveStart) (inp.timeoutNow - st.loc.lastOutput) cfg.timeoutMs
        cfg.idleTimeoutMs with
      | some reason => exact trueOutcome_killed _
      | none => exact fun o ho => h o ho
    | some t =>
      cases hdefer : st.loc.deferredExit with
      | none =>
        dsimp only
        cases evalTimeout (inp.timeoutNow - st.loc.serveStart) (inp.timeoutNow - st.loc.lastOutput) cfg.timeoutMs
          cfg.idleTimeoutMs with
        | some reason => exact trueOutcome_killed _
        | none =>
          intro o ho
          cases ho
      | some o =>
        obtain ⟨status, hreaped, rfl⟩ := h o hdefer
        intro code hcode
        cases hcode
        exact ⟨status, hreaped, rfl⟩

theorem frames_true (hmid : w.Mid) (h : ExitTrue w.sess w.loc) (revents : List (ClientId × Bool)) :
    TurnTrue (w.frames W cfg inp revents) := by
  obtain ⟨hmid₁, -⟩ := Work.frameRun_mid (W := W) inp hmid revents
  have hends := run_ends W cfg inp (w.frameRun W inp revents).2 (r := (w.frameRun W inp revents).1)
    fun o ho => by cases ho
  have hchild : (w.frameRun W inp revents).1.sess.child = w.sess.child := rfl
  unfold Work.frames
  generalize w.frameRun W inp revents = r at hmid₁ hends hchild ⊢
  obtain ⟨r, frames⟩ := r
  have hrun := FrameRun.run_chatted (W := W) cfg inp hmid₁ frames
  have hdrop := (dropClients_stepped (W := W) (r := r.run W cfg inp frames) inp hrun.mid).1.child
  have hsame := (hdrop.trans hrun.child).trans hchild
  dsimp only at hends hsame ⊢
  cases ho : (r.run W cfg inp frames).shouldReturn with
  | none => exact h.keep (.of_child hsame) rfl
  | some o =>
    rw [hends o ho]
    exact trueOutcome_killed _

variable (W cfg inp) in
theorem iterate_true (hok : st.Ok) (h : ExitTrue st.sess st.loc) : TurnTrue (iterate W cfg inp st) := by
  have hstage : StageTrue (beforeFrames W cfg inp st) := by
    have hpoll := beforePoll_true cfg inp h
    unfold beforeFrames
    rcases beforePoll_spec (W := W) cfg inp hok with ⟨turn, heq, -⟩ | ⟨w, heq, harr, -⟩
    · rw [heq] at hpoll ⊢
      exact hpoll
    · rw [heq] at hpoll ⊢
      exact afterPoll_true harr.mid hpoll
  have hspec := beforeFrames_spec (W := W) cfg inp hok
  unfold iterate
  generalize beforeFrames W cfg inp st = stage at hstage hspec ⊢
  cases stage with
  | done turn => exact hstage
  | tick w => exact ExitTrue.keep hstage (.of_child (dropSilently_child _ _ _)) rfl
  | frames w revents => exact frames_true hspec.mid hstage revents

theorem enterServeLoop_true (e : EntryInput) (s : Session) :
    ExitTrue (enterServeLoop W cfg e s).sess (enterServeLoop W cfg e s).loc :=
  observe_true (w := { sess := s, loc := Locals.initial cfg e, overflow := [] }) (fun o ho => by cases ho) _ _

theorem loop_true (h : (loop W cfg).Reachable st) : ExitTrue st.sess st.loc := by
  refine h.inv (fun st => ExitTrue st.sess st.loc) ?_ ?_
  · rintro st ⟨e, nowMs, resumeScrollback, child, -, rfl⟩
    exact enterServeLoop_true e _
  · intro st mv st' hr hi _ hstep
    cases mv with
    | turn inp =>
      have hturn := iterate_true W cfg inp (loop_ok hr) hi
      rw [loop_turn hstep] at hturn
      exact hturn
    | retry inp failure e =>
      obtain ⟨st₁, -, rfl⟩ := loop_retry hstep
      exact enterServeLoop_true e _

end Runs

/-! ## The end -/

section End

variable {W : World} {cfg : Config} {inp : IterInput} {st st' : State}

/-- The group of the child is told to go on and to terminate, and then killed if that was not enough. -/
def terminated : Log := [.killPgrp sigCont, .killPgrp sigTerm]
def killed : Log := terminated ++ [.killPgrp sigKill]

/-- The child was found alive when the grace it has after a SIGTERM was over. -/
def Outlasted (fin : FinalizeInput) : Prop :=
  ∃ before now, ReapLook.status before now ∈ fin.term ∧ fin.termNow + finalizeTermGrace ≤ now

/-- Where the code of a session that ends in `s` with this result comes from; `s'` is what is left of the session. The
child is killed only after its grace. -/
inductive CodeOf (fin : FinalizeInput) (s s' : Session) : RelayOutcome → Int → Prop
  | seen (status : ExitStatus) (taken : s.child.reaped = some status) (same : s' = s) :
    CodeOf fin s s' (.childExited (some status.code)) status.code
  | ended {outcome : RelayOutcome} (status : ExitStatus) (before : s.child.reaped = none) (after : s'.child.reaped = some status)
      (log : s'.log = s.log ++ terminated ∨ Outlasted fin ∧ s'.log = s.log ++ killed)
      (noExit : ∀ code, outcome ≠ .childExited code) : CodeOf fin s s' outcome status.code
  | missed {outcome : RelayOutcome} (taken : s.child.reaped.isSome = true) (log : s'.log = s.log ++ terminated)
      (noExit : ∀ code, outcome ≠ .childExited code) : CodeOf fin s s' outcome 143
  | left {outcome : RelayOutcome} (alive : s'.child.reaped = none) (late : Outlasted fin) (log : s'.log = s.log ++ killed)
      (noExit : ∀ code, outcome ≠ .childExited code) : CodeOf fin s s' outcome exitChildUnreaped

theorem logs_killed (s : Session) (child : ChildProcess) :
    ({ ((s.logs (.killPgrp sigCont)).logs (.killPgrp sigTerm)).logs (.killPgrp sigKill) with child } : Session).log =
      s.log ++ killed := by
  simp [Session.logs, killed, terminated]

theorem terminateChild_code {fin : FinalizeInput} {s s' : Session} {outcome : RelayOutcome} {code : Int}
    (hno : ∀ code, outcome ≠ .childExited code) (h : terminateChild fin s = some (s', .ok code)) :
    CodeOf fin s s' outcome code := by
  unfold terminateChild at h
  dsimp only at h
  split at h
  · cases h
  · cases h
  · rename_i child code' hreap
    cases h
    have hlog : ({ (s.logs (.killPgrp sigCont)).logs (.killPgrp sigTerm) with child } : Session).log = s.log ++ terminated :=
      List.append_assoc _ _ _
    cases reapUntil_spec hreap with
    | exit status before after => exact .ended status before after (.inl hlog) hno
    | taken before after => exact .missed before hlog hno
  · rename_i child hreap
    have hlate : Outlasted fin := reapUntil_late hreap
    have halive : s.child.reaped = none ∧ child.reaped = none := by
      cases reapUntil_spec hreap with
      | alive before after => exact ⟨before, after⟩
    obtain ⟨r, hkill, heq⟩ := Option.map_eq_some_iff.1 h
    obtain ⟨rfl, hcode⟩ := Prod.mk.inj heq
    unfold reapAfterKill at hkill
    split at hkill
    · cases hkill
    · cases hkill
      cases hcode
    · rename_i c code' hlook
      cases hkill
      cases hcode
      cases reapUntil_spec hlook with
      | exit status before after => exact .ended status halive.1 after (.inr ⟨hlate, logs_killed s c⟩) hno
      | taken before after =>
        rw [halive.2] at before
        cases before
    · rename_i c hlook
      cases hkill
      cases hcode
      cases reapUntil_spec hlook with
      | alive before after => exact .left after hlate (logs_killed s c) hno

theorem finalizeChild_code {fin : FinalizeInput} {s s' : Session} {outcome : RelayOutcome} {code : Int}
    (htrue : TrueOutcome s outcome)
    (h : finalizeChild fin s outcome = some (s', .ok code)) : CodeOf fin s s' outcome code := by
  cases outcome with
  | childExited told =>
    obtain ⟨status, htaken, rfl⟩ := htrue told rfl
    cases h
    exact .seen status htaken rfl
  | clientDetachedOrKilled => exact terminateChild_code (fun code hcode => by cases hcode) h
  | error => exact terminateChild_code (fun code hcode => by cases hcode) h
  | upgradeRequested => exact terminateChild_code (fun code hcode => by cases hcode) h

/-- The looks at the child from `start` on, with a pause before each but the first. -/
def Paced (start : Instant) : List ReapLook → Prop
  | [] => True
  | .status _ now :: looks => start ≤ now ∧ Paced (now + reapPollInterval) looks
  | .interrupted _ :: _ => False
  | .failed :: _ => True

/-- Paced looks that find no end come before the deadline, so there are not many. -/
theorem Paced.length_le {deadline : Instant} {looks : List ReapLook} {start : Instant} {c : ChildProcess} (h : Paced start looks)
    (hnone : reapUntil deadline looks c = none) :
    start + looks.length * reapPollInterval ≤ max start (deadline + reapPollInterval) := by
  induction looks generalizing start c with
  | nil => simp
  | cons look looks ih =>
    cases look with
    | interrupted before => exact h.elim
    | failed => cases hnone
    | status before now =>
      have hlate := reapUntil_ends hnone before now List.mem_cons_self
      have hrest : reapUntil deadline looks ((c.events before).waitExit).1 = none := by
        unfold reapUntil at hnone
        generalize (c.events before).waitExit = r at hnone ⊢
        obtain ⟨child, status⟩ := r
        cases status with
        | exited code => cases hnone
        | signaled sig => cases hnone
        | echild => cases hnone
        | stopped _ | «continued» | stillAlive =>
          dsimp only at hnone
          rwa [if_neg (Nat.not_le.2 hlate)] at hnone
      have hle := ih h.2 hrest
      have hdue : max (now + reapPollInterval) (deadline + reapPollInterval) = deadline + reapPollInterval :=
        max_eq_right (Nat.add_le_add_right hlate.le _)
      rw [List.length_cons]
      calc start + (looks.length + 1) * reapPollInterval
          ≤ now + (looks.length + 1) * reapPollInterval := Nat.add_le_add_right h.1 _
        _ = now + reapPollInterval + looks.length * reapPollInterval := by
          rw [Nat.add_mul, Nat.one_mul, Nat.add_comm (looks.length * _), Nat.add_assoc]
        _ ≤ deadline + reapPollInterval := hdue ▸ hle
        _ ≤ max start (deadline + reapPollInterval) := le_max_right _ _

/-- Whatever the child does, its end takes a bounded number of looks. -/
theorem terminateChild_isSome {fin : FinalizeInput} (hterm : Paced fin.termNow fin.term) (hkill : Paced fin.killNow fin.kill)
    (hmany : fin.term.length > 251) (hmany' : fin.kill.length > 101) (s : Session) : (terminateChild fin s).isSome = true := by
  have hgrace : ∀ c, reapUntil (fin.termNow + finalizeTermGrace) fin.term c ≠ none := by
    intro c hnone
    have hle := (hterm.length_le hnone).trans
      (max_le (Nat.le_add_right _ (finalizeTermGrace + reapPollInterval)) (Nat.le_of_eq (Nat.add_assoc _ _ _)))
    have hlen := Nat.le_of_add_le_add_left hle
    revert hlen
    simp only [finalizeTermGrace, reapPollInterval, millis]
    omega
  have hdeadline : ∀ c, reapUntil (fin.killNow + finalizeKillDeadline) fin.kill c ≠ none := by
    intro c hnone
    have hle := (hkill.length_le hnone).trans
      (max_le (Nat.le_add_right _ (finalizeKillDeadline + reapPollInterval)) (Nat.le_of_eq (Nat.add_assoc _ _ _)))
    have hlen := Nat.le_of_add_le_add_left hle
    revert hlen
    simp only [finalizeKillDeadline, reapPollInterval, millis]
    omega
  unfold terminateChild
  dsimp only
  split
  · rename_i hnone
    exact absurd hnone (hgrace _)
  · rfl
  · rfl
  · rw [Option.isSome_map]
    unfold reapAfterKill
    split
    · rename_i hnone
      exact absurd hnone (hdeadline _)
    · rfl
    · rfl
    · rfl

/-- In every run that comes to its end, the code the end gets is that of an exit the loop or the end has taken from the
child, but where the loop took it and lost it (143), or where the child does not die of SIGKILL in time (125); only a
child whose exit is not known is sent signals, SIGKILL after the others and after its grace; and the end is found in a bounded number of
looks at the child, whatever it does. -/
theorem serve_code {outcome : RelayOutcome} (h : (loop W cfg).Reachable st) (hturn : iterate W cfg inp st = (st', some outcome))
    (fin : FinalizeInput) :
    (∀ s' code, finalizeChild fin st'.sess outcome = some (s', .ok code) → CodeOf fin st'.sess s' outcome code) ∧
      (Paced fin.termNow fin.term → Paced fin.killNow fin.kill → fin.term.length > 251 → fin.kill.length > 101 →
        (finalizeChild fin st'.sess outcome).isSome = true) := by
  have htrue := iterate_true W cfg inp (loop_ok h) (loop_true h)
  rw [hturn] at htrue
  refine ⟨fun s' code hfin => finalizeChild_code htrue hfin, fun hterm hkill hmany hmany' => ?_⟩
  cases outcome with
  | childExited told =>
    obtain ⟨status, -, rfl⟩ := htrue told rfl
    rfl
  | clientDetachedOrKilled => exact terminateChild_isSome hterm hkill hmany hmany' _
  | error => exact terminateChild_isSome hterm hkill hmany hmany' _
  | upgradeRequested => exact terminateChild_isSome hterm hkill hmany hmany' _

/-- The daemon gets a SIGTERM; the child ignores the one it is sent on, and dies of SIGKILL. -/
def termInput : IterInput where
  poll := .ready false false (fun _ => false) true
  signals := [(sigTerm, [])]

def stubbornEnd : FinalizeInput where
  term := [.status [] 0, .status [] finalizeTermGrace]
  kill := [.status [.exit (.signaled sigKill)] 0]

theorem serve_code_stubborn : ∃ s s' : Session, s'.child.reaped = some (.signaled sigKill) ∧
    CodeOf stubbornEnd s s' .clientDetachedOrKilled 137 := by
  have hturn : (iterate World.pristine {} termInput (pristineStart {} {})).2 = some .clientDetachedOrKilled := by
    decide +kernel
  have hfin : (finalizeChild stubbornEnd (iterate World.pristine {} termInput (pristineStart {} {})).1.sess
      .clientDetachedOrKilled).any (fun r => decide (r.1.child.reaped = some (.signaled sigKill)) &&
        (match r.2 with | .ok code => decide (code = 137) | .error _ => false)) = true := by
    decide +kernel
  obtain ⟨⟨s', code⟩, hfin, hcode⟩ := (Option.any_eq_true _ _).1 hfin
  rw [Bool.and_eq_true, decide_eq_true_iff] at hcode
  cases code with
  | error e => cases hcode.2
  | ok code =>
    obtain rfl : code = 137 := of_decide_eq_true hcode.2
    exact ⟨_, s', hcode.1, (serve_code (pristineStart_reach {} {} _) (Prod.ext rfl hturn) stubbornEnd).1 s' 137 hfin⟩

end End

end Hyoui.Daemon
