import Hyoui.Daemon.Pristine
/-!
# The child's exit

Three places of the loop call `waitpid`, and only one of these calls gets the exit. The loop is to
remember it (`deferred_exit`) and to end with it. It does, unless the exit is taken by the look at
the child that a SIGCONT causes, or something else ends the loop while the exit is remembered.
-/

namespace Hyoui.Daemon

open Hyoui.Protocol Hyoui.Lib

/-- The loop's result for a child with this exit. -/
def ExitStatus.outcome (status : ExitStatus) : RelayOutcome := .childExited (some status.code)

/-- What the loop remembers is the exit that was taken, and there is a deadline to end with it. -/
structure ExitKept (s : Session) (l : Locals) : Prop where
  recorded : l.deferredExit = s.child.reaped.map ExitStatus.outcome
  deadline : l.exitDrainDeadline.isSome = l.deferredExit.isSome

abbrev Work.ExitKept (w : Work) : Prop := Daemon.ExitKept w.sess w.loc

/-! ## What takes the exit away -/

/-- No SIGCONT looks for a stop of the child while its exit waits to be taken. -/
def signalsSpareExit (lifecycle : ChildLifecycle) : List (Signal × List ChildEvent) → ChildProcess → Bool
  | [], _ => true
  | (sig, evs) :: rest, child =>
    let child := child.events evs
    if sig = sigTerm ∨ sig = sigInt then true
    else if sig = sigCont ∧ lifecycle.stopped = false then
      child.unreaped.isNone && signalsSpareExit lifecycle rest (child.waitpid false).1
    else signalsSpareExit lifecycle rest child

/-- A request to kill the child and to wait for that, by a client that may make it. -/
def FrameRun.endsSession (W : World) (r : FrameRun) (idx : Nat) : FrameOrError → Bool
  | .error => false
  | .frame frame =>
    frame.ty = typeCborControl && match W.decode frame.body with
      | some (.kill signal true) =>
        (r.sess.clients[idx]?).any (·.mode = .rw) && signal.all fun name => (W.parseSignal name).isSome
      | _ => false

/-- None of the frames ends the session. -/
def FrameRun.sparesSession (W : World) (cfg : Config) (inp : IterInput) : FrameRun → List (Nat × FrameOrError) → Bool
  | _, [] => true
  | r, f :: frames =>
    !r.endsSession W f.1 f.2 && FrameRun.sparesSession W cfg inp (r.step W cfg inp f.1 f.2) frames

def PollResult.failed : PollResult → Bool
  | .error => true
  | .ready .. | .interrupted | .timeout => false

/-- Nothing but the exit ends a turn that starts after the exit was taken. -/
def OnlyExitEnds (cfg : Config) (st : State) (inp : IterInput) : Prop :=
  st.sess.upgradePending = false ∧
    (st.loc.exitDrainDeadline.any (inp.exitNow ≥ ·) = true ∨
      evalTimeout (inp.timeoutNow - st.loc.serveStart) (inp.timeoutNow - st.loc.lastOutput) cfg.timeoutMs
        cfg.idleTimeoutMs = none) ∧
    inp.poll.failed = false ∧ ∀ se ∈ inp.signals, se.1 ≠ sigTerm ∧ se.1 ≠ sigInt

/-- The child has not exited by the time the PTY is read. -/
def AliveAtRead (child : ChildProcess) (inp : IterInput) : Prop :=
  child.gone = false ∧ (∀ se ∈ inp.signals, ∀ ev ∈ se.2, ev.isExit = false) ∧
    ∀ ev ∈ inp.childBeforeObserve, ev.isExit = false

/-- A turn that comes to its frames does so with work and `poll` results `p` holds of. -/
def Stage.AtFrames (p : Work → List (ClientId × Bool) → Prop) : Stage → Prop
  | .frames w revents => p w revents
  | .done _ | .tick _ => True

instance {p : Work → List (ClientId × Bool) → Prop} [∀ w revents, Decidable (p w revents)] :
    (stage : Stage) → Decidable (stage.AtFrames p)
  | .frames w revents => inferInstanceAs (Decidable (p w revents))
  | .done _ | .tick _ => isTrue trivial

/-- A turn in which no look at the child throws its exit away, and nothing else ends the loop once the
exit is taken. -/
def SparesExit (W : World) (cfg : Config) (st : State) (inp : IterInput) : Prop :=
  signalsSpareExit st.loc.lifecycle inp.signals st.sess.child = true ∧
    (st.sess.child.reaped = none ∨ OnlyExitEnds cfg st inp) ∧
    (inp.masterRead = .error → AliveAtRead st.sess.child inp) ∧
    (beforeFrames W cfg inp st).AtFrames fun w revents =>
      w.sess.child.reaped = none ∨
        (w.frameRun W inp revents).1.sparesSession W cfg inp (w.frameRun W inp revents).2 = true

instance (cfg : Config) (st : State) (inp : IterInput) : Decidable (OnlyExitEnds cfg st inp) :=
  inferInstanceAs (Decidable (_ = _ ∧ (_ = _ ∨ _ = _) ∧ _ = _ ∧ ∀ _ ∈ _, _ ∧ _))

instance (child : ChildProcess) (inp : IterInput) : Decidable (AliveAtRead child inp) :=
  inferInstanceAs (Decidable (_ = _ ∧ (∀ _ ∈ _, ∀ _ ∈ _, _ = _) ∧ ∀ _ ∈ _, _ = _))

instance (W : World) (cfg : Config) (st : State) (inp : IterInput) : Decidable (SparesExit W cfg st inp) :=
  inferInstanceAs (Decidable (_ = _ ∧ (_ = _ ∨ OnlyExitEnds _ _ _) ∧ (_ = _ → AliveAtRead _ _) ∧ Stage.AtFrames _ _))

/-! ## Looking at the child -/

section Child

variable {W : World} {cfg : Config} {w : Work}

theorem ExitKept.congr {s s' : Session} {l l' : Locals} (h : ExitKept s l) (hc : s'.child = s.child)
    (he : l'.deferredExit = l.deferredExit) (hd : l'.exitDrainDeadline = l.exitDrainDeadline) : ExitKept s' l' :=
  ⟨by rw [he, hc]; exact h.recorded, by rw [hd, he]; exact h.deadline⟩

/-- An exit that was taken is what the loop remembers. -/
theorem ExitKept.of_reaped {s : Session} {l : Locals} (h : ExitKept s l) {status : ExitStatus}
    (hr : s.child.reaped = some status) : l.deferredExit = some status.outcome := by
  rw [h.recorded, hr]
  rfl

theorem ExitKept.not_reaped {s : Session} {l : Locals} (h : ExitKept s l) (he : l.deferredExit = none) :
    s.child.reaped = none := by
  have hr := h.recorded
  rw [he] at hr
  exact Option.map_eq_none_iff.1 hr.symm

/-- The locals after a look at the child. -/
def rememberExit (l : Locals) (now : Instant) : ChildState → Locals
  | .exited code => deferChildExit l now code
  | .alive | .stopped => l

theorem rememberExit_none {l : Locals} {now : Instant} {childState : ChildState}
    (h : ∀ code, childState ≠ .exited code) : rememberExit l now childState = l := by
  cases childState with
  | exited code => exact absurd rfl (h code)
  | alive => rfl
  | stopped => rfl

/-- Whichever exit `poll_with_transition` takes is remembered. -/
theorem pollChild_kept (h : w.ExitKept) (evs : List ChildEvent) (now : Instant) :
    ExitKept (w.pollChild evs).1.sess (rememberExit (w.pollChild evs).1.loc now (w.pollChild evs).2.1) := by
  have hchild : (w.pollChild evs).1.sess.child = ((w.sess.child.events evs).waitpid true).1 := poll_child _ _
  have htaken := (congrArg ChildProcess.reaped hchild).trans (waitpid_reaped _ _)
  rw [events_reaped] at htaken
  cases hz : (w.sess.child.events evs).unreaped with
  | none =>
    have hstate : ∀ code, (w.pollChild evs).2.1 ≠ .exited code := poll_not_exited hz
    rw [hz, Option.or_none] at htaken
    rw [rememberExit_none hstate]
    exact ⟨by rw [htaken]; exact h.recorded, h.deadline⟩
  | some status =>
    have hstate : (w.pollChild evs).2.1 = .exited (some status.code) := (poll_exited hz).1
    have hr : w.sess.child.reaped = none := events_reaped _ evs ▸ unreaped_not_reaped hz
    have hnone : (w.pollChild evs).1.loc.deferredExit = none := h.recorded.trans (by rw [hr]; rfl)
    rw [hz, hr, Option.none_or] at htaken
    have hkeep : rememberExit (w.pollChild evs).1.loc now (.exited (some status.code)) =
        { (w.pollChild evs).1.loc with
          deferredExit := some status.outcome, exitDrainDeadline := some (now + exitDrainBudget) } := by
      simp only [rememberExit, deferChildExit, hnone, Option.isNone_none, if_true, ExitStatus.outcome]
    rw [hstate, hkeep]
    exact ⟨by rw [htaken]; rfl, rfl⟩

theorem transition_child (cfg : Config) (w : Work) (t : Option ChildTransition) :
    (w.transition W cfg t).sess.child = w.sess.child ∧ (w.transition W cfg t).loc = w.loc := by
  unfold Work.transition
  split
  · exact ⟨(notifyChildStopped_talks w.sess _).child, rfl⟩
  · exact ⟨rfl, rfl⟩
  · exact ⟨rfl, rfl⟩
  · exact ⟨rfl, rfl⟩

theorem transition_kept (h : w.ExitKept) (t : Option ChildTransition) : (w.transition W cfg t).ExitKept := by
  obtain ⟨hc, hl⟩ := transition_child (W := W) cfg w t
  exact h.congr hc (by rw [hl]) (by rw [hl])

theorem observe_kept (h : w.ExitKept) (evs : List ChildEvent) (now : Instant) :
    (observeChildTransition W cfg w evs now).ExitKept := by
  have hpoll := pollChild_kept h evs now
  unfold observeChildTransition
  generalize w.pollChild evs = r at hpoll ⊢
  obtain ⟨w₁, childState, transition⟩ := r
  refine transition_kept ?_ transition
  cases childState <;> exact hpoll

/-! ## Signals -/

theorem isStopped_child (child : ChildProcess) : (childIsStoppedViaWaitpid child).1 = (child.waitpid false).1 := rfl

/-- The signals take no exit where none of them looks at the child at the wrong moment. -/
theorem signals_reaped {lifecycle : ChildLifecycle} {sigs : List (Signal × List ChildEvent)} {s : Session}
    (h : signalsSpareExit lifecycle sigs s.child = true) :
    (handleSuspendSignals lifecycle sigs s).1.child.reaped = s.child.reaped := by
  induction sigs generalizing s with
  | nil => rfl
  | cons se rest ih =>
    obtain ⟨sig, evs⟩ := se
    have hev := events_reaped s.child evs
    unfold signalsSpareExit at h
    dsimp only at h
    by_cases hend : sig = sigTerm ∨ sig = sigInt
    · have hcont : sig ≠ sigCont := by rintro rfl; revert hend; decide
      have husr : sig ≠ sigUsr1 := by rintro rfl; revert hend; decide
      rw [handleSuspendSignals, if_neg hcont, if_neg husr, if_pos hend]
      exact hev
    · rw [if_neg hend] at h
      unfold handleSuspendSignals
      dsimp only
      split <;> rename_i hcont
      · split <;> rename_i hst
        · rw [if_neg (by simp [hst])] at h
          exact (ih h).trans hev
        · rw [if_pos ⟨hcont, by simpa using hst⟩, Bool.and_eq_true, Option.isNone_iff_eq_none] at h
          have hlook : (childIsStoppedViaWaitpid (s.child.events evs)).1.reaped = s.child.reaped := by
            rw [isStopped_child, waitpid_reaped, h.1, Option.or_none, hev]
          split
          · exact (ih h.2).trans hlook
          · exact (ih h.2).trans hlook
      · rw [if_neg fun hc => hcont hc.1] at h
        split
        · exact (ih h).trans hev
        · exact (ih h).trans hev

/-- The signals end the loop only where one of them asks for that. -/
theorem signals_end {lifecycle : ChildLifecycle} {sigs : List (Signal × List ChildEvent)} {s : Session}
    (h : ∀ se ∈ sigs, se.1 ≠ sigTerm ∧ se.1 ≠ sigInt) : (handleSuspendSignals lifecycle sigs s).2 = none := by
  induction sigs generalizing s with
  | nil => rfl
  | cons se rest ih =>
    obtain ⟨sig, evs⟩ := se
    have hrest : ∀ s, (handleSuspendSignals lifecycle rest s).2 = none := fun s =>
      ih fun se hse => h se (List.mem_cons_of_mem _ hse)
    have hsig := h (sig, evs) List.mem_cons_self
    unfold handleSuspendSignals
    dsimp only
    split
    · split
      · exact hrest _
      · exact hrest _
    · split
      · exact hrest _
      · rw [if_neg (by rintro (hs | hs); exacts [hsig.1 hs, hsig.2 hs])]
        exact hrest _

theorem signals_gone {lifecycle : ChildLifecycle} {sigs : List (Signal × List ChildEvent)} {s : Session}
    (h : s.child.gone = false) (hsig : ∀ se ∈ sigs, ∀ ev ∈ se.2, ev.isExit = false) :
    (handleSuspendSignals lifecycle sigs s).1.child.gone = false := by
  induction sigs generalizing s with
  | nil => exact h
  | cons se rest ih =>
    obtain ⟨sig, evs⟩ := se
    have hev : (s.child.events evs).gone = false := by
      rw [gone_events, h, Bool.false_or, List.any_eq_false]
      intro ev hmem
      rw [hsig _ List.mem_cons_self ev hmem]
      decide
    have hrest : ∀ s : Session, s.child.gone = false → (handleSuspendSignals lifecycle rest s).1.child.gone = false :=
      fun s hs => ih hs fun se hse => hsig se (List.mem_cons_of_mem _ hse)
    unfold handleSuspendSignals
    dsimp only
    split
    · split
      · exact hrest _ hev
      · refine hrest _ ?_
        split <;> exact (gone_waitpid _ _).trans hev
    · split
      · exact hrest _ hev
      · split
        · exact hev
        · exact hrest _ hev

theorem drainSignals_kept (h : w.ExitKept) {inp : IterInput}
    (hsig : signalsSpareExit w.loc.lifecycle inp.signals w.sess.child = true) : (w.drainSignals inp).1.ExitKept := by
  have hr := signals_reaped hsig
  unfold Work.drainSignals
  split
  · dsimp only
    split <;> exact ⟨h.recorded.trans (by rw [hr]), h.deadline⟩
  · exact h

/-- After the exit was taken, the drained signals do not end the loop. -/
theorem drainSignals_ends {inp : IterInput} (hsig : ∀ se ∈ inp.signals, se.1 ≠ sigTerm ∧ se.1 ≠ sigInt)
    (o : RelayOutcome) : (w.drainSignals inp).2 ≠ .ret o := by
  unfold Work.drainSignals
  split
  · dsimp only
    rw [signals_end hsig]
    dsimp only
    split <;> nofun
  · nofun

theorem drainSignals_gone (h : w.sess.child.gone = false) {inp : IterInput}
    (hsig : ∀ se ∈ inp.signals, ∀ ev ∈ se.2, ev.isExit = false) :
    (w.drainSignals inp).1.sess.child.gone = false := by
  unfold Work.drainSignals
  split
  · dsimp only
    split <;> exact signals_gone h hsig
  · exact h

theorem observe_gone (cfg : Config) (h : w.sess.child.gone = false) {evs : List ChildEvent} (now : Instant)
    (hev : ∀ ev ∈ evs, ev.isExit = false) : (observeChildTransition W cfg w evs now).sess.child.gone = false := by
  have hpoll : (w.pollChild evs).1.sess.child.gone = false := by
    rw [show (w.pollChild evs).1.sess.child = ((w.sess.child.events evs).waitpid true).1 from poll_child _ _, gone_waitpid,
      gone_events, h, Bool.false_or, List.any_eq_false]
    intro ev hmem
    rw [hev ev hmem]
    decide
  unfold observeChildTransition
  generalize w.pollChild evs = r at hpoll ⊢
  obtain ⟨w₁, childState, transition⟩ := r
  dsimp only
  rw [(transition_child _ _ transition).1]
  cases childState <;> exact hpoll

end Child

/-! ## The phases -/

/-- Ending the loop with `o` here is ending it with the exit, where that was taken. -/
def EndsWith (s : Session) (o : RelayOutcome) : Prop := ∀ status, s.child.reaped = some status → o = status.outcome

/-- What a part of the turn leaves behind. -/
def FlowKept : Work × Flow → Prop
  | (w, .ret o) => EndsWith w.sess o
  | (w, .go) | (w, .again) => w.ExitKept

def TurnKept : Turn → Prop
  | (st, none) => ExitKept st.sess st.loc
  | (st, some o) => EndsWith st.sess o

def StageKept : Stage → Prop
  | .done turn => TurnKept turn
  | .tick w | .frames w _ => w.ExitKept

/-- The signals of the turn are harmless to the exit. -/
structure SignalsSpare (w : Work) (inp : IterInput) : Prop where
  looks : signalsSpareExit w.loc.lifecycle inp.signals w.sess.child = true
  ends : w.sess.child.reaped = none ∨ ∀ se ∈ inp.signals, se.1 ≠ sigTerm ∧ se.1 ≠ sigInt

section Phases

variable {W : World} {cfg : Config} {w : Work} {inp : IterInput}

theorem endsWith_none {s : Session} (h : s.child.reaped = none) (o : RelayOutcome) : EndsWith s o :=
  fun _ hs => nomatch h.symm.trans hs

theorem drainSignals_flow (h : w.ExitKept) (hsig : SignalsSpare w inp) : FlowKept (w.drainSignals inp) := by
  have hkept := drainSignals_kept h hsig.looks
  have hends : ∀ o, (w.drainSignals inp).2 = .ret o → (w.drainSignals inp).1.sess.child.reaped = none := by
    intro o ho
    rcases hsig.ends with hr | hno
    · unfold Work.drainSignals
      split
      · dsimp only
        split <;> exact (signals_reaped hsig.looks).trans hr
      · exact hr
    · exact absurd ho (drainSignals_ends hno o)
  generalize w.drainSignals inp = r at hkept hends ⊢
  obtain ⟨w₁, flow⟩ := r
  cases flow with
  | go => exact hkept
  | again => exact hkept
  | ret o => exact endsWith_none (hends o rfl) o

theorem sigchld_flow (h : w.ExitKept) {ready : Bool} (hsig : ready = true → SignalsSpare w inp) :
    FlowKept (w.sigchld W cfg inp ready) := by
  unfold Work.sigchld
  split <;> rename_i hready
  · have hdrain := drainSignals_flow h (hsig hready)
    generalize w.drainSignals inp = r at hdrain ⊢
    obtain ⟨w₁, flow⟩ := r
    cases flow with
    | go => exact observe_kept hdrain _ _
    | again => exact hdrain
    | ret o => exact hdrain
  · exact h

theorem sigchld_gone (h : w.sess.child.gone = false) (hsig : ∀ se ∈ inp.signals, ∀ ev ∈ se.2, ev.isExit = false)
    (hev : ∀ ev ∈ inp.childBeforeObserve, ev.isExit = false) (ready : Bool) :
    (w.sigchld W cfg inp ready).1.sess.child.gone = false := by
  unfold Work.sigchld
  split
  · have hdrain := drainSignals_gone h hsig
    generalize w.drainSignals inp = r at hdrain ⊢
    obtain ⟨w₁, flow⟩ := r
    cases flow with
    | go => exact observe_gone _ hdrain _ hev
    | again => exact hdrain
    | ret o => exact hdrain
  · exact h

theorem listen_same (w : Work) (inp : IterInput) (ready : Bool) :
    (w.listen inp ready).1.sess = w.sess ∧ (w.listen inp ready).1.loc.deferredExit = w.loc.deferredExit ∧
      (w.listen inp ready).1.loc.exitDrainDeadline = w.loc.exitDrainDeadline ∧
      ∀ o, (w.listen inp ready).2 ≠ .ret o := by
  unfold Work.listen
  split
  · split
    · exact ⟨rfl, rfl, rfl, nofun⟩
    · split <;> exact ⟨rfl, rfl, rfl, nofun⟩
  · exact ⟨rfl, rfl, rfl, nofun⟩

theorem masterEof_kept (h : w.ExitKept) : (w.masterEof W cfg inp).ExitKept := by
  unfold Work.masterEof
  split
  · exact h.congr rfl rfl rfl
  · have hpoll := pollChild_kept h inp.childBeforeRead inp.readNow
    generalize w.pollChild inp.childBeforeRead = r at hpoll ⊢
    obtain ⟨w₁, childState, transition⟩ := r
    obtain ⟨hc, hl⟩ := transition_child (W := W) cfg w₁ transition
    cases childState with
    | exited code =>
      refine hpoll.congr hc ?_ ?_ <;>
        · simp only [hl, rememberExit, deferChildExit]
          split <;> rfl
    | alive => exact hpoll.congr hc (by rw [hl]; rfl) (by rw [hl]; rfl)
    | stopped => exact hpoll.congr hc (by rw [hl]; rfl) (by rw [hl]; rfl)

theorem masterBytes_flow (h : w.ExitKept) (bytes : Bytes) : FlowKept (w.masterBytes W inp bytes) := by
  unfold Work.masterBytes
  dsimp only
  split
  · rename_i hdefer _
    split
    · exact endsWith_none (h.not_reaped hdefer) _
    · exact h.congr rfl rfl rfl
  · exact h.congr rfl rfl rfl

theorem master_flow (h : w.ExitKept) {ready : Bool} (hread : inp.masterRead = .error → w.sess.child.gone = false) :
    FlowKept (w.master W cfg inp ready) := by
  unfold Work.master
  split
  · split
    · exact masterEof_kept h
    · exact masterEof_kept h
    · exact masterEof_kept h
    · exact masterBytes_flow h _
    · exact h
    · rename_i hr
      exact endsWith_none (not_reaped_of_not_gone (hread hr)) _
  · exact h

/-- From the handshakes to the frames the exit is kept. -/
theorem afterHandshakes_kept (h : w.ExitKept) {listener master sigchld : Bool} (revents : List (ClientId × Bool))
    (hsig : sigchld = true → SignalsSpare w inp)
    (hread : inp.masterRead = .error → AliveAtRead w.sess.child inp) :
    StageKept (w.afterHandshakes W cfg inp listener master sigchld revents) := by
  unfold Work.afterHandshakes
  have hflow₁ : FlowKept (w.sigchld W cfg inp sigchld) := sigchld_flow h hsig
  have hread₁ : inp.masterRead = .error → (w.sigchld W cfg inp sigchld).1.sess.child.gone = false :=
    fun hr => sigchld_gone (hread hr).1 (hread hr).2.1 (hread hr).2.2 sigchld
  generalize w.sigchld W cfg inp sigchld = r₁ at hflow₁ hread₁ ⊢
  obtain ⟨w₁, flow₁⟩ := r₁
  cases flow₁ with
  | ret o => exact hflow₁
  | again => exact ExitKept.congr hflow₁ rfl rfl rfl
  | go =>
    obtain ⟨hsess, hdefer, hdeadline, hret⟩ := listen_same w₁ inp listener
    dsimp only
    generalize w₁.listen inp listener = r₂ at hsess hdefer hdeadline hret ⊢
    obtain ⟨w₂, flow₂⟩ := r₂
    have hkept₂ : w₂.ExitKept := ExitKept.congr hflow₁ (congrArg Session.child hsess) hdefer hdeadline
    cases flow₂ with
    | ret o => exact absurd rfl (hret o)
    | again => exact hkept₂.congr rfl rfl rfl
    | go =>
      dsimp only at hsess ⊢
      have hflow₃ : FlowKept (w₂.master W cfg inp master) :=
        master_flow hkept₂ fun hr => hsess ▸ hread₁ hr
      generalize w₂.master W cfg inp master = r₃ at hflow₃ ⊢
      obtain ⟨w₃, flow₃⟩ := r₃
      cases flow₃ with
      | ret o => exact hflow₃
      | again => exact ExitKept.congr hflow₃ rfl rfl rfl
      | go => exact hflow₃

theorem handshakes_same (cfg : Config) (inp : IterInput) (h : w.Mid) :
    (w.handshakes W cfg inp).sess.child = w.sess.child ∧
      (w.handshakes W cfg inp).loc.lifecycle = w.loc.lifecycle ∧
      (w.handshakes W cfg inp).loc.deferredExit = w.loc.deferredExit ∧
      (w.handshakes W cfg inp).loc.exitDrainDeadline = w.loc.exitDrainDeadline := by
  have hst := processPendingHandshakes_stepped (W := W) cfg inp.handshakeNow inp.unixMs h [] w.loc.pendingHandshakes inp.handshakes
  unfold Work.handshakes
  generalize processPendingHandshakes W cfg inp.handshakeNow inp.unixMs w.sess w.loc.daemonState []
    w.loc.pendingHandshakes inp.handshakes w.overflow = r at hst ⊢
  obtain ⟨s, d, pending, overflow⟩ := r
  exact ⟨(flushPendingRedraws_talks s).child.trans hst.child, rfl, rfl, rfl⟩

theorem handshakes_kept (cfg : Config) (inp : IterInput) (hmid : w.Mid) (h : w.ExitKept) : (w.handshakes W cfg inp).ExitKept := by
  obtain ⟨hc, -, he, hd⟩ := handshakes_same (W := W) cfg inp hmid
  exact h.congr hc he hd

theorem timeoutObserve_kept (h : w.ExitKept) : (w.timeoutObserve W cfg inp).ExitKept := by
  unfold Work.timeoutObserve
  split
  · have hobs : (observeChildTransition W cfg w inp.childBeforeObserve inp.observeNow).ExitKept := observe_kept h _ _
    dsimp only
    split
    · exact hobs.congr rfl rfl rfl
    · exact hobs
  · exact h

theorem timeoutObserve_gone (h : w.sess.child.gone = false) (hev : ∀ ev ∈ inp.childBeforeObserve, ev.isExit = false) :
    (w.timeoutObserve W cfg inp).sess.child.gone = false := by
  unfold Work.timeoutObserve
  split
  · have hobs := observe_gone (W := W) cfg h inp.observeNow hev
    dsimp only
    split
    · exact hobs
    · exact hobs
  · exact h

theorem interrupted_kept (h : w.ExitKept) (hsig : SignalsSpare w inp) : TurnKept (w.interrupted W cfg inp) := by
  unfold Work.interrupted
  have hdrain := drainSignals_flow h hsig
  generalize w.drainSignals inp = r at hdrain ⊢
  obtain ⟨w₁, flow⟩ := r
  cases flow with
  | go => exact (observe_kept hdrain _ _).congr rfl rfl rfl
  | again => exact ExitKept.congr hdrain rfl rfl rfl
  | ret o => exact hdrain

/-- From `poll` to the frames the exit is kept. -/
theorem afterPoll_kept (hmid : w.Mid) (h : w.ExitKept) (hsig : SignalsSpare w inp)
    (hpoll : w.sess.child.reaped = none ∨ inp.poll.failed = false)
    (hread : inp.masterRead = .error → AliveAtRead w.sess.child inp) :
    StageKept (w.afterPoll W cfg inp) := by
  unfold Work.afterPoll
  split
  · rename_i hp
    rw [hp] at hpoll
    exact endsWith_none (hpoll.resolve_right (by decide)) _
  · exact interrupted_kept h hsig
  · have hobs : (w.timeoutObserve W cfg inp).ExitKept := timeoutObserve_kept h
    have hmid' : w.Chats W (w.timeoutObserve W cfg inp) := Work.timeoutObserve_chats hmid inp
    have hkept := handshakes_kept (W := W) cfg inp hmid'.mid hobs
    obtain ⟨hc, -⟩ := handshakes_same (W := W) cfg inp hmid'.mid
    dsimp only
    split
    · refine afterHandshakes_kept hkept [] nofun fun hr => ⟨?_, (hread hr).2⟩
      rw [hc]
      exact timeoutObserve_gone (hread hr).1 (hread hr).2.2
    · exact hkept
  · obtain ⟨hc, hl, -⟩ := handshakes_same (W := W) cfg inp hmid
    refine afterHandshakes_kept (handshakes_kept _ _ hmid h) _ (fun _ => ⟨?_, ?_⟩) fun hr => ?_
    · rw [hc, hl]
      exact hsig.looks
    · rw [hc]
      exact hsig.ends
    · rw [hc]
      exact hread hr

end Phases

/-! ## The frames -/

/-- The handling of a frame does not end the session. -/
def GoesOn (outcome : ClientFrameOutcome) : Prop := ∀ o, outcome ≠ .terminateSession o

section Frames

variable {W : World} {cfg : Config} {s : Session} {d : DaemonState} {idx : Nat}

theorem guarded_goesOn {ok : ClientHandle → Bool} {code : ErrorCode} {message : String} {k : ClientHandle → Handled}
    (h : ∀ ch, s.clients[idx]? = some ch → ok ch = true → GoesOn (k ch).2) :
    GoesOn (guarded W s idx ok code message k).2 := by
  unfold guarded
  split
  · exact nofun
  · rename_i ch hch
    split <;> rename_i hok
    · exact h ch hch hok
    · exact nofun

/-- Of the control messages only a kill that waits can end the session. -/
theorem handleControlMessage_goesOn (env : FrameEnv) {msg : ControlMessage}
    (h : ∀ signal, msg = .kill signal true →
      (s.clients[idx]?).any (·.mode = .rw) = false ∨ (signal.all fun name => (W.parseSignal name).isSome) = false) :
    GoesOn (handleControlMessage W cfg env s d idx msg).2.2 := by
  cases msg with
  | detach target =>
    cases target with
    | myself => exact nofun
    | others => exact guarded_goesOn fun _ _ _ => nofun
    | all => exact guarded_goesOn fun _ _ _ => nofun
  | kill signal wait =>
    refine guarded_goesOn fun ch hch hrw => ?_
    dsimp only
    split
    · exact nofun
    · rename_i sig hsig
      cases wait with
      | false => exact nofun
      | true =>
        rcases h signal rfl with hno | hno
        · rw [hch] at hno
          exact absurd (hrw.symm.trans hno) (by decide)
        · cases signal with
          | none => cases hno
          | some name =>
            simp only [Option.isNone_some, Bool.false_eq_true, if_false, Option.getD_some] at hsig
            simp [hsig] at hno
  | signal signal => refine guarded_goesOn fun ch _ _ => ?_; split <;> exact nofun
  | resize cols rows => exact guarded_goesOn fun _ _ _ => nofun
  | leaderRequest =>
    refine guarded_goesOn fun _ _ _ => guarded_goesOn fun ch _ _ => ?_
    split <;> exact nofun
  | lockAcquire wait abs idle bound =>
    simp only [handleControlMessage, handleLockAcquire]
    repeat' split
    all_goals exact nofun
  | lockRelease token =>
    simp only [handleControlMessage, handleLockRelease]
    split <;> exact nofun
  | tailRequest req => exact guarded_goesOn fun _ _ _ => nofun
  | statusQuery => exact nofun
  | screenDumpRequest format layer serial => refine guarded_goesOn fun ch _ _ => ?_; split <;> exact nofun
  | stateSnapshotRequest components serial =>
    refine guarded_goesOn fun ch _ _ => ?_
    repeat' split
    all_goals exact nofun
  | sessionChildResumeRequest => refine guarded_goesOn fun ch _ _ => ?_; dsimp only; split <;> exact nofun
  | recordStartRequest req => refine guarded_goesOn fun ch _ _ => ?_; dsimp only; split <;> exact nofun
  | recordStopRequest recordId => refine guarded_goesOn fun ch _ _ => ?_; dsimp only; split <;> exact nofun
  | recordStopAllRequest => exact guarded_goesOn fun _ _ _ => nofun
  | recordListRequest => exact guarded_goesOn fun _ _ _ => nofun
  | setRequest key value =>
    refine guarded_goesOn fun _ _ _ => guarded_goesOn fun ch _ _ => ?_
    repeat' split
    all_goals exact nofun
  | upgradeRequest binaryPath =>
    refine guarded_goesOn fun _ _ _ => guarded_goesOn fun ch _ _ => ?_
    split <;> exact nofun
  | _ => exact nofun

theorem handleRawData_goesOn (env : FrameEnv) (body : Bytes) : GoesOn (handleRawData W env s d idx body).2.2 := by
  unfold handleRawData
  split
  · exact nofun
  · split
    · exact nofun
    · dsimp only
      split <;> exact nofun

theorem step_goesOn {inp : IterInput} {r : FrameRun} {fre : FrameOrError} (h : r.shouldReturn = none)
    (hends : r.endsSession W idx fre = false) : (r.step W cfg inp idx fre).shouldReturn = none := by
  unfold FrameRun.step
  split
  · exact h
  · split
    · exact h
    · rename_i frame
      have hgo : GoesOn (handleClientFrame W cfg (inp.frameEnv ((r.sess.clients[idx]?).elim 0 (·.id))) r.sess
          r.daemonState idx frame).2.2 := by
        unfold handleClientFrame
        split
        · exact handleRawData_goesOn _ _
        · split <;> rename_i hty
          · split
            · rename_i msg hdec
              refine handleControlMessage_goesOn _ fun signal hmsg => ?_
              rw [hmsg] at hdec
              simp only [FrameRun.endsSession, hty, decide_true, Bool.true_and, hdec] at hends
              exact Bool.and_eq_false_iff.1 hends
            · intro o ho
              cases ho
          · intro o ho
            cases ho
      dsimp only
      generalize handleClientFrame W cfg _ r.sess r.daemonState idx frame = res at hgo ⊢
      obtain ⟨s', d', outcome⟩ := res
      cases outcome with
      | terminateSession o => exact absurd rfl (hgo o)
      | «continue» => exact h
      | dropClient => exact h
      | dropClients indices cancelPending => exact h

theorem run_goesOn {inp : IterInput} {r : FrameRun} {frames : List (Nat × FrameOrError)} (h : r.shouldReturn = none)
    (hspare : r.sparesSession W cfg inp frames = true) : (r.run W cfg inp frames).shouldReturn = none := by
  induction frames generalizing r with
  | nil => exact h
  | cons f frames ih =>
    rw [FrameRun.sparesSession, Bool.and_eq_true, Bool.not_eq_true'] at hspare
    exact ih (step_goesOn h hspare.1) hspare.2

end Frames

/-! ## A whole turn -/

section Turns

variable {W : World} {cfg : Config} {inp : IterInput} {st : State} {w : Work}

theorem beforePoll_kept (h : ExitKept st.sess st.loc) (hends : st.sess.child.reaped = none ∨ OnlyExitEnds cfg st inp) :
    match beforePoll cfg inp st with
    | .error turn => TurnKept turn
    | .ok w => w.ExitKept ∧ w.sess.child = st.sess.child ∧ w.loc.lifecycle = st.loc.lifecycle := by
  have hlive : ∀ {s : Session} (o : RelayOutcome), s.child = st.sess.child → ¬ OnlyExitEnds cfg st inp → EndsWith s o :=
    fun o hs hno => endsWith_none (hs ▸ hends.resolve_right hno) o
  unfold beforePoll
  dsimp only
  by_cases hup : st.sess.upgradePending = true
  · rw [if_pos hup]
    dsimp only [awaitUpgradeFlush]
    split
    · exact hlive _ rfl fun honly => absurd (hup.symm.trans honly.1) (by decide)
    · exact h.congr rfl rfl rfl
  · rw [if_neg hup]
    cases hdue : st.loc.exitDrainDeadline.filter (inp.exitNow ≥ ·) with
    | none =>
      dsimp only
      cases htimeout : evalTimeout (inp.timeoutNow - st.loc.serveStart) (inp.timeoutNow - st.loc.lastOutput)
          cfg.timeoutMs cfg.idleTimeoutMs with
      | none => exact ⟨h.congr rfl rfl rfl, rfl, rfl⟩
      | some reason =>
        refine hlive _ rfl fun honly => ?_
        rcases honly.2.1 with hd | hno
        · cases ht : st.loc.exitDrainDeadline with
          | none => rw [ht] at hd; cases hd
          | some t =>
            rw [ht, Option.any_some] at hd
            rw [ht, Option.filter_some, if_pos hd] at hdue
            cases hdue
        · exact nomatch htimeout.symm.trans hno
    | some t =>
      cases hdefer : st.loc.deferredExit with
      | some o => exact fun status hs => Option.some.inj (hdefer.symm.trans (h.of_reaped hs))
      | none =>
        dsimp only
        cases htimeout : evalTimeout (inp.timeoutNow - st.loc.serveStart) (inp.timeoutNow - st.loc.lastOutput)
            cfg.timeoutMs cfg.idleTimeoutMs with
        | none => exact ⟨h.congr rfl hdefer.symm rfl, rfl, rfl⟩
        | some reason => exact endsWith_none (h.not_reaped hdefer) _

theorem dropSilently_child (now : Instant) (idxs : List Nat) (s : Session) :
    (dropSilently now idxs s).child = s.child := by
  induction idxs generalizing s with
  | nil => rfl
  | cons i idxs ih =>
    unfold dropSilently
    split
    · exact ih s
    · exact ih _

theorem frames_kept (hmid : w.Mid) (h : w.ExitKept) {revents : List (ClientId × Bool)}
    (hspare : w.sess.child.reaped = none ∨
      (w.frameRun W inp revents).1.sparesSession W cfg inp (w.frameRun W inp revents).2 = true) :
    TurnKept (w.frames W cfg inp revents) := by
  obtain ⟨hmid₁, -⟩ := Work.frameRun_mid (W := W) inp hmid revents
  have hreturn : (w.frameRun W inp revents).1.shouldReturn = none := rfl
  have hchild : (w.frameRun W inp revents).1.sess.child = w.sess.child := rfl
  unfold Work.frames
  generalize w.frameRun W inp revents = r at hmid₁ hspare hreturn hchild ⊢
  obtain ⟨r, frames⟩ := r
  have hrun := FrameRun.run_chatted (W := W) cfg inp hmid₁ frames
  have hdrop := (dropClients_stepped (W := W) (r := r.run W cfg inp frames) inp hrun.mid).1.child
  have hsame := (hdrop.trans hrun.child).trans hchild
  dsimp only at hspare hreturn hsame ⊢
  cases ho : (r.run W cfg inp frames).shouldReturn with
  | none => exact h.congr hsame rfl rfl
  | some o =>
    refine endsWith_none (hsame ▸ hspare.resolve_right fun hno => ?_) o
    exact nomatch ho.symm.trans (run_goesOn hreturn hno)

/-- A turn keeps the exit, and ends the loop with it where it ends the loop. -/
theorem iterate_kept (hok : st.Ok) (h : ExitKept st.sess st.loc) (hspare : SparesExit W cfg st inp) :
    TurnKept (iterate W cfg inp st) := by
  obtain ⟨hlooks, hends, hread, hframes⟩ := hspare
  have hstage : StageKept (beforeFrames W cfg inp st) := by
    have hpoll := beforePoll_kept h hends
    unfold beforeFrames
    rcases beforePoll_spec (W := W) cfg inp hok with ⟨turn, heq, -⟩ | ⟨w, heq, harr, -⟩
    · rw [heq] at hpoll ⊢
      exact hpoll
    · rw [heq] at hpoll ⊢
      obtain ⟨hkept, hchild, hlife⟩ := hpoll
      refine afterPoll_kept harr.mid hkept ⟨?_, ?_⟩ ?_ ?_
      · rw [hchild, hlife]
        exact hlooks
      · rw [hchild]
        exact hends.imp_right fun honly => honly.2.2.2
      · rw [hchild]
        exact hends.imp_right fun honly => honly.2.2.1
      · rw [hchild]
        exact hread
  have hspec := beforeFrames_spec (W := W) cfg inp hok
  unfold iterate
  generalize beforeFrames W cfg inp st = stage at hstage hspec hframes ⊢
  cases stage with
  | done turn => exact hstage
  | tick w => exact ExitKept.congr hstage (dropSilently_child _ _ _) rfl rfl
  | frames w revents => exact frames_kept hspec.mid hstage hframes

theorem enterServeLoop_kept {s : Session} (e : EntryInput) (h : s.child.reaped = none) :
    ExitKept (enterServeLoop W cfg e s).sess (enterServeLoop W cfg e s).loc := by
  have hobs : (observeChildTransition W cfg { sess := s, loc := Locals.initial cfg e, overflow := [] }
      e.childEvents e.now).ExitKept := observe_kept ⟨by rw [h]; rfl, rfl⟩ _ _
  exact hobs.congr rfl rfl rfl

end Turns

/-! ## Runs -/

section Runs

variable {W : World} {cfg : Config} {st : State}

theorem loop_exitKept (h : (loop W cfg).Reach (fun st mv => SparesExit W cfg st mv.input) st) :
    ExitKept st.sess st.loc := by
  refine h.inv (fun st => ExitKept st.sess st.loc) ?_ ?_
  · rintro st ⟨e, nowMs, resumeScrollback, child, hchild, rfl⟩
    exact enterServeLoop_kept e hchild
  · intro st mv st' hr hi hok hstep
    have hturn := iterate_kept (loop_ok hr) hi hok
    cases mv with
    | turn inp =>
      rw [Move.input, loop_turn hstep] at hturn
      exact hturn
    | retry inp failure e =>
      obtain ⟨st₁, hit, rfl⟩ := loop_retry hstep
      rw [Move.input, hit] at hturn
      -- the loop did not end with the exit, so nobody has taken it
      refine enterServeLoop_kept e ?_
      cases hs : st₁.sess.child.reaped with
      | none => exact hs
      | some status => exact nomatch hturn status hs

/-- What becomes of an exit that some call of the loop has taken. -/
structure ExitHonoured (W : World) (cfg : Config) (st : State) : Prop where
  recorded : ∀ status, st.sess.child.reaped = some status →
    st.loc.deferredExit = some (.childExited (some status.code))
  ends : ∀ inp o status, SparesExit W cfg st inp → (iterate W cfg inp st).2 = some o →
    (iterate W cfg inp st).1.sess.child.reaped = some status → o = .childExited (some status.code)
  due : ∀ status, st.sess.child.reaped = some status → ∃ deadline, st.loc.exitDrainDeadline = some deadline ∧
    ∀ inp, SparesExit W cfg st inp → inp.exitNow ≥ deadline →
      (iterate W cfg inp st).2 = some (.childExited (some status.code))

/-- In a run in which nothing takes the exit away, the exit that a call has taken is remembered with
its code, the loop ends with it, and it ends by a deadline. -/
theorem exit_honoured (h : (loop W cfg).Reach (fun st mv => SparesExit W cfg st mv.input) st) :
    ExitHonoured W cfg st where
  recorded status hs := (loop_exitKept h).of_reaped hs
  ends inp o status hspare ho hs := by
    have hturn := iterate_kept (loop_ok h) (loop_exitKept h) hspare
    generalize iterate W cfg inp st = turn at hturn ho hs
    obtain ⟨st', outcome⟩ := turn
    cases ho
    exact hturn status hs
  due status hs := by
    have hkept := loop_exitKept h
    have hdefer := hkept.of_reaped hs
    have hsome := hkept.deadline
    rw [hdefer] at hsome
    obtain ⟨deadline, hd⟩ := Option.isSome_iff_exists.1 hsome
    refine ⟨deadline, hd, fun inp hspare hge => ?_⟩
    have hup : st.sess.upgradePending = false := (hspare.2.1.resolve_left (by rw [hs]; nofun)).1
    simp only [iterate, beforeFrames, beforePoll, hup, hd, hdefer, Bool.false_eq_true, if_false, Option.filter_some,
      hge, decide_true, if_true, ExitStatus.outcome]

/-- A poll that is woken by SIGCHLD: the child has exited with this code. -/
def exitInput (code : Int) (sig : Signal) : IterInput where
  poll := .ready false false (fun _ => false) true
  signals := [(sig, [.exit (.exited code)])]

theorem exit_honoured_seven : ∃ st, ExitHonoured World.pristine {} st ∧ st.sess.child.reaped = some (.exited 7) ∧
    st.loc.deferredExit = some (.childExited (some 7)) := by
  obtain ⟨st, hreach, hr⟩ := (pristineStart_reach {} {} fun st mv => SparesExit World.pristine {} st mv.input).exists_run
    [.turn (exitInput 7 17)]
    (p := fun st => st.sess.child.reaped = some (.exited 7)) (by decide +kernel)
  exact ⟨st, exit_honoured hreach, hr, (exit_honoured hreach).recorded _ hr⟩

/-- A SIGCONT arrives together with the child's exit: the look for a stop takes the exit, and the loop
goes on without it. -/
theorem sigcont_swallows_exit : ∃ st, (loop World.pristine {}).Reachable st ∧
    st.sess.child.reaped = some (.exited 7) ∧ st.loc.deferredExit = none :=
  (pristineStart_reach _ {} _).exists_run [.turn (exitInput 7 sigCont)] (by decide +kernel)

end Runs

end Hyoui.Daemon
