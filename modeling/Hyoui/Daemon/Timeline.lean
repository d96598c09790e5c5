import Hyoui.Daemon.Retelling
import Hyoui.Daemon.LockHolder
/-!
# The log of a run

Every phase of a turn is retold by what it logs, and so is every run: `Journal.entry` reads the log
of a reachable session to the end, and comes to the session as it is.
-/

namespace Hyoui.Daemon

open Hyoui.Protocol Hyoui.Lib

/-! ## Clients that come and go -/

section Going

variable {W : World} {cfg : Config} {s : Session} {d : DaemonState} {ov : List ClientId}

theorem present_eraseIdx (hn : (s.clients.map (·.id)).Nodup) {idx : Nat} {ch : ClientHandle} (hch : s.clients[idx]? = some ch) :
    ({ s with clients := s.clients.eraseIdx idx } : Session).present = s.present.filter (·.1 ≠ ch.id) := by
  simp only [Session.present]
  rw [eraseIdx_eq_filter hn hch, List.filter_map]
  rfl

/-- A client is retired; its lock goes with it, or nobody tells the lock. -/
theorem removeClient_retold (hn : (s.clients.map (·.id)).Nodup) {idx : Nat} {ch : ClientHandle}
    (hch : s.clients[idx]? = some ch) (now : Instant) {d' : DaemonState}
    (hholder : d'.lock.holder = d.lock.holder ∨ d.lock.holder = some ch.id ∧ d'.lock.holder = none) :
    Retold s d (s.removeClient idx ch now) d' := by
  refine retold_entry rfl fun j hj => ?_
  have hat := hj.attached (List.mem_of_getElem? hch)
  refine ⟨{ j with present := j.present.filter (·.1 ≠ ch.id), lock := j.lock.without ch.id }, ?_, ?_⟩
  · rw [Journal.entry_lifecycle hj.recorded]
    simp [Journal.lifecycle, hat]
  · refine ⟨?_, hj.nextId, fun p hp => hj.fresh p (List.mem_filter.1 hp).1, ?_, fun id hid => ?_, hj.stopped, hj.policy,
      hj.screen, hj.recorded⟩
    · rw [hj.present]
      exact (present_eraseIdx hn hch).symm
    · have hadmits := hj.lock
      unfold LockTale.without
      dsimp only
      split <;> rename_i hlock
      · rw [hlock] at hadmits
        have hheld : d.lock.holder = some ch.id := of_decide_eq_true hadmits
        rcases hholder with hsame | ⟨-, hnone⟩
        · simp [LockTale.admits, hsame, hheld]
        · simp [LockTale.admits, hnone]
      · rcases hholder with hsame | ⟨hheld, -⟩
        · rw [hsame]
          exact hadmits
        · exfalso
          rw [hheld] at hadmits
          cases hl : j.lock with
          | free => simp [hl, LockTale.admits] at hadmits
          | held id =>
            have hid : ch.id = id := by simpa [hl, LockTale.admits] using hadmits
            exact hlock (by rw [hl, hid])
          | abandoned id =>
            have hid : ch.id = id := by simpa [hl, LockTale.admits] using hadmits
            rw [← hid] at hl
            rw [(hj.gone _ hl).1] at hat
            cases hat
    · unfold LockTale.without at hid
      simp only [Journal.attached, List.any_eq_false, List.mem_filter, decide_eq_true_eq]
      dsimp only at hid
      split at hid
      · obtain rfl : ch.id = id := by simpa using hid
        obtain ⟨p, hp, hpid⟩ := List.any_eq_true.1 hat
        refine ⟨?_, of_decide_eq_true hpid ▸ hj.fresh p hp⟩
        rintro x ⟨-, hx⟩
        simpa using hx
      · obtain ⟨hgone, hlt⟩ := hj.gone id hid
        rw [Journal.attached, List.any_eq_false] at hgone
        refine ⟨?_, hlt⟩
        rintro x ⟨hx, -⟩
        simpa using hgone x hx

theorem nodup_eraseIdx (hn : (s.clients.map (·.id)).Nodup) (idx : Nat) :
    ((s.clients.eraseIdx idx).map (·.id)).Nodup := hn.sublist ((List.eraseIdx_sublist _ _).map _)

theorem detachClients_retold (now : Instant) (idxs : List Nat) (hok : d.lock.Ok) (hn : (s.clients.map (·.id)).Nodup) :
    Retold s d (detachClients now idxs s d).1 (detachClients now idxs s d).2.1 := by
  induction idxs generalizing s d with
  | nil => exact .refl s d
  | cons idx idxs ih =>
    unfold detachClients
    split
    · exact ih hok hn
    · rename_i ch hch
      obtain ⟨-, hok', hspec⟩ := handle_detached_spec hok ch.id
      have hholder : (d.handle (.client (.detached ch.id))).1.lock.holder = d.lock.holder ∨
          d.lock.holder = some ch.id ∧ (d.handle (.client (.detached ch.id))).1.lock.holder = none := by
        split at hspec
        · rename_i hheld
          exact .inr ⟨hheld, hspec.1⟩
        · exact .inl (by rw [hspec])
      exact (removeClient_retold hn hch now hholder).trans (ih hok' (nodup_eraseIdx hn idx))

theorem dropSilently_retold (now : Instant) (idxs : List Nat) (hn : (s.clients.map (·.id)).Nodup) :
    Retold s d (dropSilently now idxs s) d := by
  induction idxs generalizing s with
  | nil => exact .refl s d
  | cons idx idxs ih =>
    unfold dropSilently
    split
    · exact ih hn
    · rename_i ch hch
      exact (removeClient_retold (d := d) hn hch now (.inl rfl)).trans (ih (nodup_eraseIdx hn idx))

theorem elevateNextLeader_present (s : Session) :
    ({ s with clients := (elevateNextLeader s.clients).1 } : Session).present = s.present := by
  simp only [Session.present]
  unfold elevateNextLeader
  split
  · rfl
  · rename_i hany
    clear hany
    induction s.clients with
    | nil => rfl
    | cons c cs ih =>
      unfold elevateNextLeader.go
      split
      · rfl
      · rw [List.map_cons, List.map_cons, ih]

theorem announceNextLeader_silent (s : Session) : Silent s (s.announceNextLeader W).1 :=
  Silent.trans ⟨elevateNextLeader_present s, rfl, rfl, rfl, rfl, rfl⟩ (broadcastControl_silent W _ _)

theorem detachOthers_retold (h : Mid s d ov) (newId : ClientId) (now : Instant) :
    Retold s d (detachOthers W newId now s d ov).1 (detachOthers W newId now s d ov).2.1 := by
  unfold detachOthers
  dsimp only
  have hpair := range_descending (fun k => (s.clients[k]?).any (·.id ≠ newId)) s.clients.length
  have hdet := (detachClients_spec (s := s) now h.lock hpair).2
  have hretold := detachClients_retold now ((List.range s.clients.length).reverse.filter fun k =>
    (s.clients[k]?).any (·.id ≠ newId)) h.lock h.ids
  generalize detachClients now _ s d = r at hdet hretold ⊢
  obtain ⟨s₁, d₁, effects, dropped⟩ := r
  dsimp only at hdet hretold ⊢
  split
  · obtain ⟨hs, hd⟩ := executeWithFeedback_silent (W := W) d₁ (s₁.announceNextLeader W).1
      (ov ++ (s₁.announceNextLeader W).2) hdet.effect
    rw [hd]
    exact hretold.trans (((announceNextLeader_silent s₁).trans hs).retold rfl)
  · obtain ⟨hs, hd⟩ := executeWithFeedback_silent (W := W) d₁ s₁ ov hdet.effect
    rw [hd]
    exact hretold.trans (hs.retold rfl)

/-- A client is attached under the next id. -/
theorem attachClient_retold (d : DaemonState) (ov : List ClientId) {accepted : AcceptedClient}
    (hid : accepted.handle.id = s.nextClientId)
    (hoff : ∃ response, accepted.handle.offers = [⟨.control (.handshakeResponse response), .sent⟩]) :
    Retold s d (attachClient W s d ov accepted).1 d := by
  obtain ⟨ch, hch, hchid, hmode, -⟩ := attached_handle W d.lock s.missed s.screen hoff
  unfold attachClient
  generalize noticeLocked W d.lock s.missed accepted.handle = r at hch ⊢
  obtain ⟨handle, missed⟩ := r
  dsimp only at hch ⊢
  rw [← hch]
  have hjoin : ∀ s' : Session, s'.present = s.present ++ [(ch.id, decide (ch.mode ≠ .ro))] →
      s'.nextClientId = s.nextClientId + 1 → s'.childStopped = s.childStopped →
      s'.childSuspendPolicy = s.childSuspendPolicy → s'.screen = s.screen →
      s'.log = s.log ++ [.push (.lifecycle (.clientAttached ch.id ch.mode))] → Retold s d s' d := by
    intro s' hp hn hst hpol hscr hlog
    refine retold_entry hlog fun j hj => ?_
    refine ⟨{ j with present := j.present ++ [(ch.id, decide (ch.mode ≠ .ro))], nextId := j.nextId + 1 }, ?_, ?_⟩
    · rw [Journal.entry_lifecycle hj.recorded]
      simp [Journal.lifecycle, hj.nextId, hchid, hid]
    · have hnew : ch.id = j.nextId := by rw [hj.nextId, hchid, hid]
      refine ⟨by rw [hj.present, hp], by rw [hj.nextId, hn], fun p hmem => ?_, hj.lock, fun id hl => ?_,
        hj.stopped.trans hst.symm, hj.policy.trans hpol.symm, hj.screen.trans hscr.symm, hj.recorded⟩
      · rcases List.mem_append.1 hmem with hmem | hmem
        · exact Nat.lt_succ_of_lt (hj.fresh p hmem)
        · rw [List.mem_singleton.1 hmem]
          exact hnew ▸ Nat.lt_succ_self _
      · obtain ⟨hgone, hlt⟩ := hj.gone id hl
        refine ⟨?_, Nat.lt_succ_of_lt hlt⟩
        rw [Journal.attached] at hgone ⊢
        simp only [List.any_append, hgone, List.any_cons, List.any_nil, Bool.or_false, Bool.false_or,
          decide_eq_false_iff_not]
        exact fun he => absurd hlt (by rw [← he, hnew]; exact Nat.lt_irrefl _)
  split
  · refine (hjoin _ ?_ ?_ ?_ ?_ ?_ ?_).trans ((broadcastControl_silent W _ _).retold rfl)
    · exact List.map_append
    · rfl
    · rfl
    · rfl
    · rfl
    · rfl
  · exact hjoin _ List.map_append rfl rfl rfl rfl rfl

theorem processPendingHandshakes_retold (cfg : Config) (now : Instant) (unixMs : Nat) (h : Mid s d ov)
    (kept rest : List PendingHandshake) (polls : List HandshakePoll) :
    Retold s d (processPendingHandshakes W cfg now unixMs s d kept rest polls ov).1
      (processPendingHandshakes W cfg now unixMs s d kept rest polls ov).2.1 := by
  induction rest generalizing s d kept polls ov with
  | nil => exact .refl s d
  | cons entry rest ih =>
    unfold processPendingHandshakes
    split
    · split
      · rename_i accepted hok
        obtain ⟨hid, hlead, hbecame, hoff, -⟩ := finalizeAcceptedClient_ok hok
        have hattach := attachClient_stepped (W := W) h hid hlead hbecame hoff
        have hretold := attachClient_retold (W := W) d ov hid hoff
        dsimp only
        split
        · exact hretold.trans (detachOthers_retold hattach.mid accepted.handle.id now)
        · exact hretold.trans (ih hattach.mid kept polls.tail)
      · dsimp only
        split
        · rename_i c _
          have hst : Stepped W s d { s with closing := admitClosing s.closing c } d ov :=
            .congr h rfl rfl rfl rfl
          have hsilent : Silent s { s with closing := admitClosing s.closing c } := ⟨rfl, rfl, rfl, rfl, rfl, rfl⟩
          exact (hsilent.retold rfl).trans (ih hst.mid kept polls.tail)
        · exact ih h kept polls.tail
    · exact ih h kept polls.tail
    · exact ih h kept polls.tail
    · exact ih h _ polls.tail

theorem flushPendingRedraws_silent (s : Session) : Silent s (flushPendingRedraws W s) := by
  have hp := (flushPendingRedraws_talks (W := W) s).present
  unfold flushPendingRedraws at hp ⊢
  split at hp <;> rename_i hskip
  · rw [if_pos hskip]
    exact .refl s
  · rw [if_neg hskip]
    exact ⟨hp, rfl, rfl, rfl, rfl, rfl⟩

end Going

/-! ## The child -/

section Child

variable {W : World} {cfg : Config} {inp : IterInput}

/-- A phase of the turn, retold. -/
abbrev Work.Retold (w w' : Work) : Prop :=
  Daemon.Retold w.sess w.loc.daemonState w'.sess w'.loc.daemonState

theorem childStopped_retold (sigName : String) (sigNum pid : Nat) (s : Session) (d : DaemonState) :
    Retold s d ({ s with childStopped := true }.pushLifecycle (.childStoppedObserved sigName sigNum pid)) d :=
  retold_entry rfl fun j hj => ⟨{ j with stopped := true }, Journal.entry_lifecycle hj.recorded _,
    hj.present, hj.nextId, hj.fresh, hj.lock, hj.gone, rfl, hj.policy, hj.screen, hj.recorded⟩

theorem recordChildContinued_retold (s : Session) (d : DaemonState) : Retold s d (recordChildContinued cfg s) d :=
  retold_entry rfl fun j hj => ⟨{ j with stopped := false }, Journal.entry_lifecycle hj.recorded _,
    hj.present, hj.nextId, hj.fresh, hj.lock, hj.gone, rfl, hj.policy, hj.screen, hj.recorded⟩

theorem notifyChildStopped_retold (s : Session) (d : DaemonState) (sig : Signal) :
    Retold s d (notifyChildStopped W cfg s sig).1 d := by
  have ht : Talks (·.plain = true) (notifyChildStopped W cfg s sig).2 s (notifyChildStopped W cfg s sig).1 :=
    notifyChildStopped_talks s sig
  have hp := ht.present
  have hlog := childStopped_retold (W.signalName sig) sig cfg.childPid s d
  unfold notifyChildStopped at hp ⊢
  dsimp only at hp ⊢
  split
  · exact hlog.trans (killPgrp_retold (.inl rfl) _ d)
  · rename_i hpolicy
    rw [if_neg hpolicy] at hp
    have hsilent : Silent ({ s with childStopped := true }.pushLifecycle
        (.childStoppedObserved (W.signalName sig) sig cfg.childPid)) _ := ⟨hp, rfl, rfl, rfl, rfl, rfl⟩
    exact hlog.trans (hsilent.retold rfl)

theorem transition_retold (cfg : Config) (w : Work) (t : Option ChildTransition) : w.Retold (w.transition W cfg t) := by
  unfold Work.transition
  split
  · exact notifyChildStopped_retold w.sess _ _
  · exact recordChildContinued_retold w.sess _
  · exact .refl _ _
  · exact .refl _ _

theorem observeChildTransition_retold (cfg : Config) (w : Work) (evs : List ChildEvent) (now : Instant) :
    w.Retold (observeChildTransition W cfg w evs now) := by
  unfold observeChildTransition
  have hpoll : w.Retold (w.pollChild evs).1 := Silent.retold ⟨rfl, rfl, rfl, rfl, rfl, rfl⟩ rfl
  generalize w.pollChild evs = r at hpoll ⊢
  obtain ⟨w₁, childState, transition⟩ := r
  dsimp only at hpoll ⊢
  cases childState with
  | exited code =>
    have hdefer : w₁.Retold { w₁ with loc := deferChildExit w₁.loc now code } :=
      Silent.retold (.refl _) (congrArg (·.lock.holder) (deferChildExit_same _ _ _).1)
    exact (hpoll.trans hdefer).trans (transition_retold _ _ transition)
  | alive => exact hpoll.trans (transition_retold _ w₁ transition)
  | stopped => exact hpoll.trans (transition_retold _ w₁ transition)

theorem child_retold (s : Session) (d : DaemonState) (child : ChildProcess) : Retold s d { s with child } d :=
  Silent.retold ⟨rfl, rfl, rfl, rfl, rfl, rfl⟩ rfl

theorem handleSuspendSignals_retold (lifecycle : ChildLifecycle) (sigs : List (Signal × List ChildEvent)) (s : Session)
    (d : DaemonState) : Retold s d (handleSuspendSignals lifecycle sigs s).1 d := by
  induction sigs generalizing s with
  | nil => exact .refl s d
  | cons se rest ih =>
    obtain ⟨sig, evs⟩ := se
    have hevents : Retold s d { s with child := s.child.events evs } d := child_retold s d _
    have hgo : ∀ s' : Session, Retold s d s' d → Retold s d (handleSuspendSignals lifecycle rest s').1 d :=
      fun s' h => h.trans (ih s')
    unfold handleSuspendSignals
    dsimp only
    split
    · split
      · exact hgo _ (hevents.trans (killPgrp_retold (.inl rfl) _ d))
      · refine hgo _ ?_
        split
        · exact Retells.trans (child_retold s d _) (killPgrp_retold (.inl rfl) _ d)
        · exact child_retold s d _
    · split
      · have hasked : isUpgradeFailure "upgrade-request" = false := by decide
        refine hgo _ ((hevents.trans (terminated_retold hasked _ d)).trans ?_)
        exact Silent.retold ⟨rfl, rfl, rfl, rfl, rfl, rfl⟩ rfl
      · split
        · have hreason : isUpgradeFailure (if sig = sigInt then "sigint" else "sigterm") = false := by
            split <;> decide
          exact (hevents.trans (terminated_retold hreason _ d)).trans (killPgrp_retold (.inr rfl) _ d)
        · exact hgo _ hevents

theorem drainSignals_retold (w : Work) (inp : IterInput) : w.Retold (w.drainSignals inp).1 := by
  have hsig := handleSuspendSignals_retold w.loc.lifecycle inp.signals w.sess w.loc.daemonState
  unfold Work.drainSignals
  split
  · dsimp only
    split <;> exact hsig
  · exact .refl _ _

theorem sigchld_retold (cfg : Config) (w : Work) (inp : IterInput) (ready : Bool) : w.Retold (w.sigchld W cfg inp ready).1 := by
  unfold Work.sigchld
  split
  · have hdrain := drainSignals_retold w inp
    generalize w.drainSignals inp = r at hdrain ⊢
    obtain ⟨w₁, flow⟩ := r
    cases flow with
    | go => exact hdrain.trans (observeChildTransition_retold cfg w₁ _ _)
    | again => exact hdrain
    | ret o => exact hdrain
  · exact .refl _ _

theorem leave_retold (w : Work) (o : Option RelayOutcome) :
    Retold w.sess w.loc.daemonState (w.leave o).1.sess (w.leave o).1.loc.daemonState :=
  (ignore_silent _ _).retold rfl

theorem interrupted_retold (w : Work) (inp : IterInput) :
    Retold w.sess w.loc.daemonState (w.interrupted W cfg inp).1.sess (w.interrupted W cfg inp).1.loc.daemonState := by
  unfold Work.interrupted
  have hdrain := drainSignals_retold w inp
  generalize w.drainSignals inp = r at hdrain ⊢
  obtain ⟨w₁, flow⟩ := r
  cases flow with
  | go => exact (hdrain.trans (observeChildTransition_retold cfg w₁ _ _)).trans (leave_retold _ _)
  | again => exact hdrain.trans (leave_retold _ _)
  | ret o => exact hdrain.trans (leave_retold _ _)

theorem timeoutObserve_retold (cfg : Config) (w : Work) (inp : IterInput) : w.Retold (w.timeoutObserve W cfg inp) := by
  unfold Work.timeoutObserve
  split
  · have hobs := observeChildTransition_retold (W := W) cfg w inp.childBeforeObserve inp.observeNow
    dsimp only
    split
    · exact hobs.trans (recordChildContinued_retold _ _)
    · exact hobs
  · exact .refl _ _

theorem listen_retold (w : Work) (inp : IterInput) (ready : Bool) : w.Retold (w.listen inp ready).1 := by
  unfold Work.listen
  split
  · split
    · exact .refl _ _
    · split <;> exact .refl _ _
  · exact .refl _ _

theorem masterEof_retold (w : Work) (inp : IterInput) : w.Retold (w.masterEof W cfg inp) := by
  unfold Work.masterEof
  split
  · exact .refl _ _
  · have hpoll : w.Retold (w.pollChild inp.childBeforeRead).1 := Silent.retold ⟨rfl, rfl, rfl, rfl, rfl, rfl⟩ rfl
    generalize w.pollChild inp.childBeforeRead = r at hpoll ⊢
    obtain ⟨w₁, childState, transition⟩ := r
    dsimp only at hpoll ⊢
    have htrans := transition_retold (W := W) cfg w₁ transition
    cases childState with
    | exited code =>
      refine hpoll.trans (htrans.trans (Silent.retold (.refl _) ?_))
      exact congrArg (·.lock.holder) (deferChildExit_same _ _ _).1
    | alive => exact hpoll.trans htrans
    | stopped => exact hpoll.trans htrans

/-! ## Output -/

theorem takeOutput_retold (s : Session) (d : DaemonState) (now : Instant) (bytes : Bytes) :
    Retold s d (s.takeOutput now bytes) d :=
  retold_entry rfl fun j hj => ⟨{ j with screen := j.screen ++ [.process bytes] }, Journal.entry_push hj.recorded _,
    hj.present, hj.nextId, hj.fresh, hj.lock, hj.gone, hj.stopped, hj.policy, congrArg (· ++ _) hj.screen, hj.recorded⟩

theorem masterBytes_retold (w : Work) (inp : IterInput) (bytes : Bytes) : w.Retold (w.masterBytes W inp bytes).1 := by
  have htake := takeOutput_retold w.sess w.loc.daemonState inp.readNow bytes
  have hcast : Silent (w.sess.takeOutput inp.readNow bytes) { w.sess.takeOutput inp.readNow bytes with
      clients := (broadcastMasterBytes W (w.sess.takeOutput inp.readNow bytes).clients bytes inp.unixMs).1 } :=
    Clientside.silent ⟨_, _, rfl⟩ (broadcastMasterBytes_talks _ bytes _)
  have hboth := htake.trans (hcast.retold rfl)
  unfold Work.masterBytes
  dsimp only
  split
  · split
    · have huntil : isUpgradeFailure "until" = false := by decide
      exact (hboth.trans (terminated_retold huntil _ _)).trans (killPgrp_retold (.inr rfl) _ _)
    · exact hboth
  · exact hboth

theorem master_retold (cfg : Config) (w : Work) (inp : IterInput) (ready : Bool) : w.Retold (w.master W cfg inp ready).1 := by
  unfold Work.master
  split
  · split
    · exact masterEof_retold w inp
    · exact masterEof_retold w inp
    · exact masterEof_retold w inp
    · exact masterBytes_retold w inp _
    · exact .refl _ _
    · exact .refl _ _
  · exact .refl _ _

theorem handshakes_retold (cfg : Config) {w : Work} (h : w.Mid) (inp : IterInput) : w.Retold (w.handshakes W cfg inp) := by
  have hp := processPendingHandshakes_retold (W := W) cfg inp.handshakeNow inp.unixMs h [] w.loc.pendingHandshakes
    inp.handshakes
  unfold Work.handshakes
  generalize processPendingHandshakes W cfg inp.handshakeNow inp.unixMs w.sess w.loc.daemonState []
    w.loc.pendingHandshakes inp.handshakes w.overflow = r at hp ⊢
  obtain ⟨s, d, pending, overflow⟩ := r
  exact hp.trans ((flushPendingRedraws_silent s).retold rfl)

end Child

/-! ## Frames -/

section Frames

variable {W : World} {cfg : Config} {inp : IterInput}

theorem step_retold (cfg : Config) (inp : IterInput) {r : FrameRun} (h : r.Mid) (idx : Nat) (fre : FrameOrError) :
    Retold r.sess r.daemonState (r.step W cfg inp idx fre).sess (r.step W cfg inp idx fre).daemonState := by
  unfold FrameRun.step
  split
  · exact .refl _ _
  · split
    · exact .refl _ _
    · rename_i frame
      have hframe := handleClientFrame_retold (W := W) cfg h (inp.frameEnv ((r.sess.clients[idx]?).elim 0 (·.id))) idx frame
      dsimp only
      generalize handleClientFrame W cfg _ r.sess r.daemonState idx frame = res at hframe ⊢
      obtain ⟨s, d, outcome⟩ := res
      cases outcome <;> exact hframe

theorem frames_retold (cfg : Config) (inp : IterInput) {r : FrameRun} (h : r.Mid) (frames : List (Nat × FrameOrError)) :
    Retold r.sess r.daemonState (r.run W cfg inp frames).sess (r.run W cfg inp frames).daemonState := by
  induction frames generalizing r with
  | nil => exact .refl _ _
  | cons f frames ih =>
    have hstep := step_retold (W := W) cfg inp h f.1 f.2
    have hmid : Chatted W r.sess r.daemonState _ _ _ := FrameRun.step_chatted cfg inp h f.1 f.2
    exact hstep.trans (ih hmid.mid)

theorem frameRun_silent (w : Work) (inp : IterInput) (revents : List (ClientId × Bool)) :
    Silent w.sess (w.frameRun W inp revents).1.sess ∧
      (w.frameRun W inp revents).1.daemonState = w.loc.daemonState := by
  refine ⟨⟨?_, rfl, rfl, rfl, rfl, rfl⟩, rfl⟩
  refine forall₂_map_eq (fun a b hab => ?_) (collectFrames_same (W := W) inp.recv 0 w.sess.clients revents)
  obtain ⟨decoder, rfl⟩ := hab
  rfl

theorem dropClients_retold (inp : IterInput) {r : FrameRun} (h : r.Mid) :
    Retold r.sess r.daemonState (dropClients W inp r).1 (dropClients W inp r).2 := by
  unfold dropClients
  dsimp only
  have hdet := (detachClients_spec (s := r.sess) inp.dropNow h.lock
    (descending_pairwise r.sess.clients.length r.indicesToDrop)).2
  have hretold := detachClients_retold inp.dropNow (descending r.sess.clients.length r.indicesToDrop) h.lock h.ids
  generalize detachClients inp.dropNow _ r.sess r.daemonState = res at hdet hretold ⊢
  obtain ⟨s₁, d₁, effects, dropped⟩ := res
  dsimp only at hdet hretold ⊢
  split
  · obtain ⟨hs, hd⟩ := executeIgnoringOverflow_silent (W := W) d₁
      ((s₁.announceNextLeader W).1.ignore (s₁.announceNextLeader W).2) hdet.effect
    rw [hd]
    exact hretold.trans ((((announceNextLeader_silent s₁).trans (ignore_silent _ _)).trans hs).retold rfl)
  · obtain ⟨hs, hd⟩ := executeIgnoringOverflow_silent (W := W) d₁ s₁ hdet.effect
    rw [hd]
    exact hretold.trans (hs.retold rfl)

theorem workFrames_retold (cfg : Config) (inp : IterInput) {w : Work} (h : w.Mid) (revents : List (ClientId × Bool)) :
    Retold w.sess w.loc.daemonState (w.frames W cfg inp revents).1.sess (w.frames W cfg inp revents).1.loc.daemonState := by
  obtain ⟨hmid, -⟩ := Work.frameRun_mid (W := W) inp h revents
  obtain ⟨hsilent, hd⟩ := frameRun_silent (W := W) w inp revents
  unfold Work.frames
  generalize w.frameRun W inp revents = r at hmid hsilent hd ⊢
  obtain ⟨r, frames⟩ := r
  dsimp only at hmid hsilent hd ⊢
  have hframes := frames_retold (W := W) cfg inp hmid frames
  have hrun := FrameRun.run_chatted (W := W) cfg inp hmid frames
  have hdrop := dropClients_retold (W := W) (r := r.run W cfg inp frames) inp hrun.mid
  exact ((hsilent.retold (congrArg (·.lock.holder) hd)).trans hframes).trans hdrop

theorem tick_retold (inp : IterInput) {w : Work} (h : w.Mid) :
    Retold w.sess w.loc.daemonState (w.tick inp).1.sess (w.tick inp).1.loc.daemonState :=
  dropSilently_retold inp.dropNow _ h.ids

end Frames

/-! ## Turns -/

section Turns

variable {W : World} {cfg : Config} {inp : IterInput} {st : State}

theorem flushClients_present (clients : List ClientHandle) (scripts : ClientId → List WriteResult) :
    (flushClients clients scripts).map (fun ch => (ch.id, decide (ch.mode ≠ .ro))) =
      clients.map fun ch => (ch.id, decide (ch.mode ≠ .ro)) := by
  rw [flushClients, List.map_map]
  refine List.map_congr_left fun ch _ => ?_
  simp only [Function.comp_apply]
  split <;> rfl

theorem evalTimeout_plain {elapsed elapsed' : Nat} {limit limit' : Option Nat} {reason : String}
    (h : evalTimeout elapsed elapsed' limit limit' = some reason) : isUpgradeFailure reason = false := by
  unfold evalTimeout at h
  split at h
  · cases h
    decide
  · split at h
    · cases h
      decide
    · cases h

theorem beforePoll_retold (cfg : Config) (inp : IterInput) (st : State) :
    (∃ turn, beforePoll cfg inp st = .error turn ∧
        Retold st.sess st.loc.daemonState turn.1.sess turn.1.loc.daemonState) ∨
      ∃ w, beforePoll cfg inp st = .ok w ∧ Retold st.sess st.loc.daemonState w.sess w.loc.daemonState := by
  have hp := flushClients_present st.sess.clients inp.flush
  unfold beforePoll
  dsimp only
  split
  · refine .inl ⟨_, rfl, ?_⟩
    unfold awaitUpgradeFlush
    dsimp only
    split <;> exact Silent.retold ⟨hp, rfl, rfl, rfl, rfl, rfl⟩ rfl
  · have hflush : Silent st.sess { st.sess with
        clients := flushClients st.sess.clients inp.flush
        closing := advanceClosing inp.closingNow st.sess.closing inp.closingWrites } := ⟨hp, rfl, rfl, rfl, rfl, rfl⟩
    split
    · exact .inl ⟨_, rfl, (hflush.trans (ignore_silent _ _)).retold rfl⟩
    · split
      · rename_i reason htimeout
        exact .inl ⟨_, rfl, (((hflush.retold rfl).trans (terminated_retold (evalTimeout_plain htimeout) _ _)).trans
          (killPgrp_retold (.inr rfl) _ _)).trans ((ignore_silent _ _).retold rfl)⟩
      · exact .inr ⟨_, rfl, hflush.retold rfl⟩

/-- The turn up to a stage, retold. -/
def Work.RetoldTo (w : Work) : Stage → Prop
  | .done turn => Daemon.Retold w.sess w.loc.daemonState turn.1.sess turn.1.loc.daemonState
  | .tick w' | .frames w' _ => w.Retold w'

theorem Work.Retold.to {w w' : Work} {stage : Stage} (h : w.Retold w') (h' : w'.RetoldTo stage) : w.RetoldTo stage := by
  cases stage <;> exact Retells.trans h h'

theorem afterHandshakes_retold (cfg : Config) (inp : IterInput) (w : Work) (listener master sigchld : Bool)
    (revents : List (ClientId × Bool)) :
    w.RetoldTo (w.afterHandshakes W cfg inp listener master sigchld revents) := by
  unfold Work.afterHandshakes
  have hsig := sigchld_retold (W := W) cfg w inp sigchld
  generalize w.sigchld W cfg inp sigchld = r₁ at hsig ⊢
  obtain ⟨w₁, flow₁⟩ := r₁
  cases flow₁ with
  | ret o => exact hsig.trans (leave_retold _ _)
  | again => exact hsig.trans (leave_retold _ _)
  | go =>
    have hlisten := listen_retold w₁ inp listener
    dsimp only
    generalize w₁.listen inp listener = r₂ at hlisten ⊢
    obtain ⟨w₂, flow₂⟩ := r₂
    cases flow₂ with
    | ret o => exact (hsig.trans hlisten).trans (leave_retold _ _)
    | again => exact (hsig.trans hlisten).trans (leave_retold _ _)
    | go =>
      have hmaster := master_retold (W := W) cfg w₂ inp master
      dsimp only
      generalize w₂.master W cfg inp master = r₃ at hmaster ⊢
      obtain ⟨w₃, flow₃⟩ := r₃
      have hall := (hsig.trans hlisten).trans hmaster
      cases flow₃ with
      | ret o => exact hall.trans (leave_retold _ _)
      | again => exact hall.trans (leave_retold _ _)
      | go => exact hall

theorem afterPoll_retold (cfg : Config) (inp : IterInput) {w : Work} (h : w.Mid) :
    w.RetoldTo (w.afterPoll W cfg inp) := by
  have hrest : ∀ (w₁ : Work) (listener master sigchld : Bool) (revents : List (ClientId × Bool)), w.Chats W w₁ →
      w.Retold w₁ →
      w.RetoldTo ((w₁.handshakes W cfg inp).afterHandshakes W cfg inp listener master sigchld revents) := by
    intro w₁ listener master sigchld revents hc hw₁
    have hshake : w.Retold (w₁.handshakes W cfg inp) := hw₁.trans (handshakes_retold (W := W) cfg hc.mid inp)
    exact hshake.to (afterHandshakes_retold cfg inp _ listener master sigchld revents)
  unfold Work.afterPoll
  cases inp.poll with
  | error => exact leave_retold _ _
  | interrupted => exact interrupted_retold w inp
  | timeout =>
    have hobs : w.Chats W (w.timeoutObserve W cfg inp) := Work.timeoutObserve_chats h inp
    have hretold := timeoutObserve_retold (W := W) cfg w inp
    dsimp only
    split
    · exact hrest _ false false false [] hobs hretold
    · exact hretold.trans (handshakes_retold (W := W) cfg hobs.mid inp)
  | ready listener master readable sigchld =>
    exact hrest w listener master (sigchld && w.loc.sigchldPipe) _ (.refl h) (.refl _ _)

/-- A turn is retold by what it logs. -/
theorem iterate_retold (cfg : Config) (inp : IterInput) (h : st.Ok) :
    Retold st.sess st.loc.daemonState (iterate W cfg inp st).1.sess (iterate W cfg inp st).1.loc.daemonState := by
  have hspec := beforeFrames_spec (W := W) cfg inp h
  unfold iterate beforeFrames at *
  rcases beforePoll_retold cfg inp st with ⟨turn, heq, hpoll⟩ | ⟨w, heq, hpoll⟩
  · rw [heq]
    exact hpoll
  · obtain ⟨w', heq', harr, -⟩ := (beforePoll_spec (W := W) cfg inp h).resolve_left (by simp [heq])
    obtain rfl : w = w' := by simpa [heq] using heq'
    rw [heq] at hspec ⊢
    dsimp only at hspec ⊢
    have hafter := afterPoll_retold (W := W) cfg inp harr.mid
    generalize w.afterPoll W cfg inp = stage at hafter hspec ⊢
    cases stage with
    | done turn => exact hpoll.trans hafter
    | tick w' => exact (hpoll.trans hafter).trans (tick_retold inp hspec.mid)
    | frames w' revents => exact (hpoll.trans hafter).trans (workFrames_retold cfg inp hspec.mid revents)

theorem enterServeLoop_retold (cfg : Config) (e : EntryInput) (s : Session) (d : DaemonState) (hfree : d.lock.holder = none) :
    Retold s d (enterServeLoop W cfg e s).sess (enterServeLoop W cfg e s).loc.daemonState := by
  have hobs := observeChildTransition_retold (W := W) cfg { sess := s, loc := Locals.initial cfg e, overflow := [] }
    e.childEvents e.now
  have hstart : Retold s d s {} := Silent.retold (.refl s) hfree.symm
  exact hstart.trans hobs

theorem isUpgradeFailure_of {start : String} (h : start ∈ ["upgrade-precheck-failed: ", "upgrade-execve-failed: "])
    (message : String) : isUpgradeFailure (start ++ message) = true := by
  rw [isUpgradeFailure, List.any_eq_true]
  refine ⟨start, h, ?_⟩
  rw [String.toList_append, List.isPrefixOf_iff_prefix]
  exact List.prefix_append _ _

theorem failure_reason (failure : UpgradeFailure) : isUpgradeFailure failure.reason = true := by
  cases failure with
  | precheckFailed message => exact isUpgradeFailure_of List.mem_cons_self message
  | execFailed error => exact isUpgradeFailure_of (List.mem_cons_of_mem _ List.mem_cons_self) error

/-- After a failed upgrade the lock is free, and the log says why. -/
theorem resumeServe_retold (cfg : Config) (failure : UpgradeFailure) (e : EntryInput) (s : Session) (d : DaemonState) :
    Retold s d (resumeServe W cfg failure e s).sess (resumeServe W cfg failure e s).loc.daemonState := by
  have hlog : Retold s d ({ s with upgradeTarget := none }.pushLifecycle
      (.sessionTerminatedByCondition failure.reason)).clearUpgradePending {} := by
    refine retold_entry (e := .push (.lifecycle (.sessionTerminatedByCondition failure.reason))) rfl fun j hj => ?_
    refine ⟨{ j with lock := .free }, ?_, ?_⟩
    · rw [Journal.entry_lifecycle hj.recorded, Journal.lifecycle, failure_reason, if_pos rfl]
    · exact ⟨hj.present, hj.nextId, hj.fresh, rfl, by simp, hj.stopped, hj.policy, hj.screen, hj.recorded⟩
  exact hlog.trans (enterServeLoop_retold cfg e _ {} rfl)

end Turns

/-! ## Runs -/

/-- The journal of a daemon that starts, with the output an upgrade brought along. -/
def Journal.start (cfg : Config) (resumed : Bytes) : Journal where
  policy := cfg.onChildSuspend
  screen := if resumed.isEmpty then [] else [.process resumed]

section Runs

variable {W : World} {cfg : Config} {st : State}

theorem start_tells (nowMs : Instant) (resumed : Bytes) (child : ChildProcess) :
    (Journal.start cfg resumed).Tells (Session.initial cfg nowMs resumed child) none :=
  ⟨rfl, rfl, by simp [Journal.start], rfl, by simp [Journal.start], rfl, rfl, rfl, rfl⟩

theorem start_read (e : EntryInput) (nowMs : Instant) (resumed : Bytes) (child : ChildProcess) :
    ∃ j, replay Journal.entry (.start cfg resumed) (enterServeLoop W cfg e (Session.initial cfg nowMs resumed child)).sess.log =
        some j ∧ j.Tells (enterServeLoop W cfg e (Session.initial cfg nowMs resumed child)).sess
          (enterServeLoop W cfg e (Session.initial cfg nowMs resumed child)).loc.daemonState.lock.holder :=
  (enterServeLoop_retold (W := W) cfg e (Session.initial cfg nowMs resumed child) {} rfl).read rfl
    (start_tells nowMs resumed child)

/-- What a step adds to the log is read on. -/
theorem step_read (hr : (loop W cfg).Reachable st) {mv : Move} {st' : State} (hstep : (loop W cfg).step st mv = some st')
    {start : Journal} (h : ∃ j, replay Journal.entry start st.sess.log = some j ∧
      j.Tells st.sess st.loc.daemonState.lock.holder) :
    ∃ j, replay Journal.entry start st'.sess.log = some j ∧ j.Tells st'.sess st'.loc.daemonState.lock.holder := by
  obtain ⟨j, hread, htells⟩ := h
  have hretold : Retold st.sess st.loc.daemonState st'.sess st'.loc.daemonState := by
    cases mv with
    | turn inp =>
      have hit := iterate_retold (W := W) cfg inp (loop_ok hr)
      rwa [loop_turn hstep] at hit
    | retry inp failure e =>
      obtain ⟨st₁, hit, rfl⟩ := loop_retry hstep
      have hturn := iterate_retold (W := W) cfg inp (loop_ok hr)
      rw [hit] at hturn
      exact hturn.trans (resumeServe_retold cfg failure e st₁.sess _)
  obtain ⟨more, hlog, hmore⟩ := hretold
  obtain ⟨j', hread', htells'⟩ := hmore j htells
  have hlog : st'.sess.log = st.sess.log ++ more := hlog
  refine ⟨j', ?_, htells'⟩
  rw [hlog, replay_append, hread]
  exact hread'

theorem log_read (h : (loop W cfg).Reachable st) :
    ∃ resumed j, replay Journal.entry (.start cfg resumed) st.sess.log = some j ∧
      j.Tells st.sess st.loc.daemonState.lock.holder := by
  refine h.inv (fun st => ∃ resumed j, replay Journal.entry (.start cfg resumed) st.sess.log = some j ∧
    j.Tells st.sess st.loc.daemonState.lock.holder) ?_ ?_
  · rintro _ ⟨e, nowMs, resumed, child, -, rfl⟩
    exact ⟨resumed, start_read e nowMs resumed child⟩
  · rintro st mv st' hr ⟨resumed, hread⟩ - hstep
    exact ⟨resumed, step_read hr hstep hread⟩

/-- The log of every run is read to the end, from the output its session started with (none, but after an upgrade), and
it tells the session as it is: who is attached and may type, who holds the lock, whether the child is stopped, the policy,
and all the screen was fed. -/
theorem log_tells_session {e : EntryInput} {nowMs : Instant} {resumed : Bytes} {child : ChildProcess} (halive : child.reaped = none)
    (h : (loopFrom W cfg (enterServeLoop W cfg e (Session.initial cfg nowMs resumed child))).Reachable st) :
    ∃ j, replay Journal.entry (.start cfg resumed) st.sess.log = some j ∧ j.Tells st.sess st.loc.daemonState.lock.holder := by
  have hstart : (loop W cfg).Reachable (enterServeLoop W cfg e (Session.initial cfg nowMs resumed child)) :=
    .init ⟨e, nowMs, resumed, child, halive, rfl⟩
  refine h.inv (fun st => ∃ j, replay Journal.entry (.start cfg resumed) st.sess.log = some j ∧
    j.Tells st.sess st.loc.daemonState.lock.holder) ?_ ?_
  · rintro _ rfl
    exact start_read e nowMs resumed child
  · intro st mv st' hr hread _ hstep
    exact step_read (loopFrom_reachable hstart hr) hstep hread

/-- The journal of a fresh session whose only client has taken the lock. -/
theorem log_tells_session_locked : ∃ (st : State) (j : Journal),
    replay Journal.entry (.start {} []) st.sess.log = some j ∧ j.Tells st.sess (some 0) := by
  have hstart : (loopFrom World.pristine {} (enterServeLoop World.pristine {} {} (Session.initial {} 0 [] {}))).Reachable
      (enterServeLoop World.pristine {} {} (Session.initial {} 0 [] {})) := .init rfl
  obtain ⟨st, hreach, hholder⟩ := hstart.exists_run lockedMoves
    (p := fun st => st.loc.daemonState.lock.holder = some 0) (by decide +kernel)
  obtain ⟨j, hread, htells⟩ := log_tells_session rfl hreach
  exact ⟨st, j, hread, hholder ▸ htells⟩

end Runs

end Hyoui.Daemon
