import Hyoui.Daemon.Answers
import Hyoui.Daemon.Pristine
import Hyoui.Daemon.Readiness
/-!
# Clients whose stream has a gap

A client for which an enqueue overflowed is to be dropped by the end of the turn. Two kinds of
enqueues find a queue full. Some report it in `overflow_ids`, which is lost where the turn is left
before its frames; the others (`Answers`, the lock's notice to a client that attaches, what is
announced after a drop) throw the report away. `lostReports` goes through the turn and applies the
queue's own test at each of them, to the clients as they are just before it. In a run whose turns
lose no report, no client is attached after a turn that had a gap in its stream.
-/

namespace Hyoui.Daemon

open Hyoui.Protocol Hyoui.Lib

/-! ## Who is found to have no room -/

/-- The clients that enqueues find to have no room: those whose report is thrown away at once, and
those that are reported. -/
structure Refusals where
  lost : List ClientId := []
  reported : List ClientId := []

namespace Refusals

instance : Append Refusals := ⟨fun r r' => ⟨r.lost ++ r'.lost, r.reported ++ r'.reported⟩⟩

theorem mk_append (l m l' m' : List ClientId) : (⟨l, m⟩ : Refusals) ++ ⟨l', m'⟩ = ⟨l ++ l', m ++ m'⟩ := rfl

theorem append_empty (r : Refusals) : r ++ {} = r := by
  obtain ⟨lost, reported⟩ := r
  rw [mk_append, List.append_nil, List.append_nil]

def all (r : Refusals) : List ClientId := r.lost ++ r.reported

theorem mem_all_append {r r' : Refusals} {id : ClientId} : id ∈ (r ++ r').all ↔ id ∈ r.all ∨ id ∈ r'.all := by
  have happ : (r ++ r').all = (r.lost ++ r'.lost) ++ (r.reported ++ r'.reported) := rfl
  rw [happ]
  simp only [all, List.mem_append]
  tauto

theorem mem_lost_append {r r' : Refusals} {id : ClientId} : id ∈ (r ++ r').lost ↔ id ∈ r.lost ∨ id ∈ r'.lost :=
  List.mem_append

end Refusals

section Walk

variable (W : World) (cfg : Config)

/-! ### The child and its output -/

/-- Who has no room for the notice that the child stopped. -/
def stopRefused (s : Session) (sig : Signal) : List ClientId :=
  if s.childSuspendPolicy = .autoResume then []
  else refusing s.clients fun ch =>
    if ch.mode = .ro ∨ .childStateV1 ∉ ch.negotiatedCaps then none
    else W.controlFrame (.sessionChildStoppedNotify cfg.childPid (some (W.signalName sig)))

def transitionRefused (s : Session) : Option ChildTransition → List ClientId
  | some (.stopped sig) => stopRefused W cfg s sig
  | some .continued | some (.exited _) | none => []

def Work.observeRefused (w : Work) (evs : List ChildEvent) : List ClientId :=
  transitionRefused W cfg w.sess (w.pollChild evs).2.2

/-- Signals first; the child is looked at where they let the turn go on. -/
def Work.drainRefused (w : Work) (inp : IterInput) : List ClientId :=
  match w.drainSignals inp with
  | (w, .go) => w.observeRefused W cfg inp.childBeforeObserve
  | (_, .again) | (_, .ret _) => []

def Work.timeoutRefused (w : Work) (inp : IterInput) : List ClientId :=
  if ¬ w.loc.sigchldPipe ∨ w.loc.lifecycle.stopped then w.observeRefused W cfg inp.childBeforeObserve else []

/-- Who has no room for output of the child. -/
def outputRefused (clients : List ClientHandle) (bytes : Bytes) (tsMs : Int) : List ClientId :=
  refusing clients fun ch =>
    match ch.subscription with
    | .raw => rawDataFrame bytes
    | .tailFollow strip => W.controlFrame (.tailData (if strip then W.stripAnsi bytes else bytes) tsMs)

def Work.masterRefused (w : Work) (inp : IterInput) (ptyReady : Bool) : List ClientId :=
  if ptyReady ∧ ¬ w.loc.masterDrained then
    match inp.masterRead with
    | .eof | .eio | .bytes [] =>
      if w.loc.deferredExit.isSome then [] else w.observeRefused W cfg inp.childBeforeRead
    | .bytes b => outputRefused W w.sess.clients (b.take masterReadChunk) inp.unixMs
    | .eagain | .error => []
  else []

def Work.restRefused (w : Work) (inp : IterInput) (listenerReady masterReady sigchldReady : Bool) : List ClientId :=
  (if sigchldReady then w.drainRefused W cfg inp else []) ++
    -- a part that leaves the turn keeps those behind it from their enqueues
    match w.sigchld W cfg inp sigchldReady with
    | (w, .go) =>
      match w.listen inp listenerReady with
      | (w, .go) => w.masterRefused W cfg inp masterReady
      | (_, .again) | (_, .ret _) => []
    | (_, .again) | (_, .ret _) => []

/-! ### Handshakes -/

/-- Whether a client that attaches has no room for the lock's notice. -/
def noticeRefused (lock : LockState) (ch : ClientHandle) : List ClientId :=
  match lock.holder with
  | none => []
  | some holder =>
    if ch.refuses (W.controlFrame (.modeChange { sessionMode := .locked, lockHolder := some holder, clientMode := none }))
    then [ch.id] else []

/-- Who has no room for the announcement of a client that attaches as leader; the list is that
which it has just joined. -/
def leaderRefused (s : Session) (d : DaemonState) (accepted : AcceptedClient) : List ClientId :=
  if accepted.becameLeader then
    answersRefused W (attachClient W s d [] { accepted with becameLeader := false }).1.clients
      [.announce none (.leaderNotify (some accepted.handle.id))]
  else []

/-- What is announced to those that stay when clients were dropped. -/
def leaveAnswers (clients : List ClientHandle) (effects : List Effect) (droppedAnyLeader : Bool) : List Answer :=
  (if droppedAnyLeader then [.announce none (.leaderNotify (elevateNextLeader clients).2)] else []) ++
    effects.filterMap Answer.ofEffect

/-- Who of those that stay has no room for what is announced to them. -/
def leaveRefused (now : Instant) (idxs : List Nat) (s : Session) (d : DaemonState) : List ClientId :=
  let (s, _, effects, droppedAnyLeader) := detachClients now idxs s d
  answersRefused W s.clients (leaveAnswers s.clients effects droppedAnyLeader)

def detachOthersRefused (newId : ClientId) (now : Instant) (s : Session) (d : DaemonState) : List ClientId :=
  leaveRefused W now ((List.range s.clients.length).reverse.filter fun k => (s.clients[k]?).any (·.id ≠ newId)) s d

/-- The pass over the handshakes. -/
def passRefusals (now : Instant) (unixMs : Nat) (s : Session) (d : DaemonState) (kept rest : List PendingHandshake)
    (polls : List HandshakePoll) : Refusals :=
  match rest with
  | [] => {}
  | entry :: rest =>
    match polls.headD (.empty entry.startedAt) with
    | .ready req intersect setNonblocking =>
      match finalizeAcceptedClient W cfg req intersect setNonblocking s.nextClientId s.clients
          (kept.length + rest.length) s.childStopped now unixMs with
      | .ok accepted =>
        let attaching : Refusals := ⟨noticeRefused W d.lock accepted.handle, leaderRefused W s d accepted⟩
        let s := (attachClient W s d [] accepted).1
        -- with the others the handshakes behind it are gone
        if accepted.detachOthers then attaching ++ ⟨[], detachOthersRefused W accepted.handle.id now s d⟩
        else attaching ++ passRefusals now unixMs s d kept rest polls.tail
      | .error rejected =>
        let s := match rejected with
          | some c => { s with closing := admitClosing s.closing c }
          | none => s
        passRefusals now unixMs s d kept rest polls.tail
    | .failed | .disconnected => passRefusals now unixMs s d kept rest polls.tail
    | .empty at_ =>
      let kept := if at_ - entry.startedAt ≥ handshakeTimeout then kept else kept ++ [entry]
      passRefusals now unixMs s d kept rest polls.tail

def Work.handshakeRefusals (w : Work) (inp : IterInput) : Refusals :=
  passRefusals W cfg inp.handshakeNow inp.unixMs w.sess w.loc.daemonState [] w.loc.pendingHandshakes inp.handshakes

/-! ### The turn -/

/-- From the result of `poll` up to the frames. -/
def Work.refusals (w : Work) (inp : IterInput) : Refusals :=
  match inp.poll with
  | .error => {}
  | .interrupted => ⟨[], w.drainRefused W cfg inp⟩
  | .timeout =>
    let w' := w.timeoutObserve W cfg inp
    ⟨[], w.timeoutRefused W cfg inp⟩ ++ w'.handshakeRefusals W cfg inp ++
      ⟨[], if w.sess.clients.any (·.decoder.isReady) then
        (w'.handshakes W cfg inp).restRefused W cfg inp false false false else []⟩
  | .ready listener master _ sigchld =>
    w.handshakeRefusals W cfg inp ++
      ⟨[], (w.handshakes W cfg inp).restRefused W cfg inp listener master (sigchld && w.loc.sigchldPipe)⟩

def turnRefusals (inp : IterInput) (st : State) : Refusals :=
  match beforePoll cfg inp st with
  | .error _ => {}
  | .ok w => w.refusals W cfg inp

/-- Who is not to be dropped yet, and has no room for what the handling of a frame sends unchecked. -/
def FrameRun.stepLost (inp : IterInput) (r : FrameRun) (idx : Nat) (fre : FrameOrError) : List ClientId :=
  if r.shouldReturn.isSome then []
  else match fre with
    | .error => []
    | .frame frame =>
      (frameRefused W cfg (inp.frameEnv ((r.sess.clients[idx]?).elim 0 (·.id))) r.sess r.daemonState idx frame).filter
        (· ∉ keysAt (·.id) r.indicesToDrop r.sess.clients)

def FrameRun.runLost (inp : IterInput) (r : FrameRun) : List (Nat × FrameOrError) → List ClientId
  | [] => []
  | f :: frames => r.stepLost W cfg inp f.1 f.2 ++ (r.step W cfg inp f.1 f.2).runLost inp frames

/-- The frames, and the announcements to those that stay. -/
def Work.framesLost (w : Work) (inp : IterInput) (revents : List (ClientId × Bool)) : List ClientId :=
  let (r, frames) := w.frameRun W inp revents
  let r' := r.run W cfg inp frames
  r.runLost W cfg inp frames ++
    leaveRefused W inp.dropNow (descending r'.sess.clients.length r'.indicesToDrop) r'.sess r'.daemonState

/-- The clients that overflowed when the loop was entered. -/
def State.carried (st : State) : List ClientId := (st.sess.clients.filter (·.overflowed)).map (·.id)

/-- The reports of a full queue that are lost in a turn: all of them where it is left before its
frames, else those that are thrown away, unless their client is to be dropped anyway. -/
def lostReports (inp : IterInput) (st : State) : List ClientId :=
  match beforeFrames W cfg inp st with
  | .done _ => st.carried ++ (turnRefusals W cfg inp st).all
  | .tick w => (turnRefusals W cfg inp st).lost.filter (· ∉ w.overflow)
  | .frames w revents => (turnRefusals W cfg inp st).lost.filter (· ∉ w.overflow) ++ w.framesLost W cfg inp revents

/-- The turn a move begins with loses no report. -/
def ReportsKept (st : State) (mv : Move) : Prop := lostReports W cfg mv.input st = []

instance (st : State) (mv : Move) : Decidable (ReportsKept W cfg st mv) := inferInstanceAs (Decidable (_ = _))

end Walk

/-! ## Up to the frames -/

/-- From `s` to `s'` new gaps are those of clients that were found to have no room, and who is newly
missed was so by an enqueue whose report is thrown away. -/
structure Passed (s s' : Session) (r : Refusals) : Prop where
  gaps : GapsIn r.all s.clients s'.clients
  missed : ∀ id ∈ s'.missed, id ∈ s.missed ∨ id ∈ r.lost

section Passed

variable {W : World} (cfg : Config) {s s' s'' : Session} {r r' : Refusals} {w : Work} {inp : IterInput}

theorem Passed.trans (h : Passed s s' r) (h' : Passed s' s'' r') : Passed s s'' (r ++ r') where
  gaps := (h.gaps.trans h'.gaps).mono fun id hid => by
    rw [Refusals.mem_all_append]
    exact List.mem_append.1 hid
  missed id hid := by
    rw [Refusals.mem_lost_append]
    rcases h'.missed id hid with hid | hid
    · exact (h.missed id hid).imp (fun hid => hid) .inl
    · exact .inr (.inr hid)

/-- Nobody is sent anything. -/
theorem Passed.same (hc : s'.clients = s.clients) (hm : s'.missed = s.missed) : Passed s s' r where
  gaps := .of_mem fun _ hch => hc ▸ hch
  missed _ hid := .inl (hm ▸ hid)

/-- Who has no room is reported. -/
theorem Passed.reports {ids : List ClientId} (h : GapsIn ids s.clients s'.clients) (hm : s'.missed = s.missed) :
    Passed s s' ⟨[], ids⟩ := ⟨h, fun _ hid => .inl (hm ▸ hid)⟩

/-! ### The child and its output -/

theorem notifyChildStopped_meets (s : Session) (sig : Signal) :
    Passed s (notifyChildStopped W cfg s sig).1 ⟨[], stopRefused W cfg s sig⟩ := by
  unfold notifyChildStopped stopRefused
  dsimp only
  split
  · exact .same rfl rfl
  · refine .reports ?_ rfl
    rw [List.map_map]
    refine offers_gaps s.clients (.control (.sessionChildStoppedNotify cfg.childPid (some (W.signalName sig)))) _ fun ch => ?_
    simp only [Function.comp_apply]
    split
    · rfl
    · rfl

theorem transition_meets (w : Work) (t : Option ChildTransition) :
    Passed w.sess (w.transition W cfg t).sess ⟨[], transitionRefused W cfg w.sess t⟩ := by
  unfold Work.transition
  split
  · exact notifyChildStopped_meets cfg w.sess _
  · exact .same rfl rfl
  · exact .same rfl rfl
  · exact .same rfl rfl

theorem observe_meets (w : Work) (evs : List ChildEvent) (now : Instant) :
    Passed w.sess (observeChildTransition W cfg w evs now).sess ⟨[], w.observeRefused W cfg evs⟩ := by
  unfold observeChildTransition Work.observeRefused
  have htrans : ∀ (w₁ : Work) (t : Option ChildTransition), w₁.sess.clients = w.sess.clients →
      w₁.sess.missed = w.sess.missed → w₁.sess.childSuspendPolicy = w.sess.childSuspendPolicy →
      Passed w.sess (w₁.transition W cfg t).sess ⟨[], transitionRefused W cfg w.sess t⟩ := by
    intro w₁ t hc hm hp
    have hrefused : transitionRefused W cfg w₁.sess t = transitionRefused W cfg w.sess t := by
      unfold transitionRefused stopRefused
      rw [hc, hp]
    exact hrefused ▸ (Passed.same (r := {}) hc hm).trans (transition_meets cfg w₁ t)
  dsimp only
  split <;> exact htrans _ _ rfl rfl rfl

/-- What a phase meets behind one that says nothing to anybody. -/
theorem Passed.after (hc : s'.clients = s.clients) (hm : s'.missed = s.missed) (h : Passed s' s'' r) : Passed s s'' r where
  gaps := hc ▸ h.gaps
  missed id hid := hm ▸ h.missed id hid

theorem drainSignals_quiet (w : Work) (inp : IterInput) :
    (w.drainSignals inp).1.sess.clients = w.sess.clients ∧ (w.drainSignals inp).1.sess.missed = w.sess.missed := by
  unfold Work.drainSignals
  split
  · obtain ⟨hc, -, hm⟩ := handleSuspendSignals_same w.loc.lifecycle inp.signals w.sess
    dsimp only
    split <;> exact ⟨hc, hm⟩
  · exact ⟨rfl, rfl⟩

theorem interrupted_gaps (w : Work) (inp : IterInput) :
    GapsIn (w.drainRefused W cfg inp) w.sess.clients (w.interrupted W cfg inp).1.sess.clients := by
  obtain ⟨hc, -⟩ := drainSignals_quiet w inp
  unfold Work.interrupted Work.drainRefused
  generalize w.drainSignals inp = r at hc ⊢
  obtain ⟨w₁, flow⟩ := r
  cases flow with
  | go => exact hc ▸ (observe_meets cfg w₁ _ _).gaps
  | again => exact .of_mem fun _ hch => hc ▸ hch
  | ret o => exact .of_mem fun _ hch => hc ▸ hch

theorem timeoutObserve_meets (w : Work) (inp : IterInput) :
    Passed w.sess (w.timeoutObserve W cfg inp).sess ⟨[], w.timeoutRefused W cfg inp⟩ := by
  unfold Work.timeoutObserve Work.timeoutRefused
  split
  · have hobs := observe_meets (W := W) cfg w inp.childBeforeObserve inp.observeNow
    dsimp only
    split
    · exact ⟨hobs.gaps, hobs.missed⟩
    · exact hobs
  · exact .same rfl rfl

theorem sigchld_meets (w : Work) (inp : IterInput) (ready : Bool) :
    Passed w.sess (w.sigchld W cfg inp ready).1.sess ⟨[], if ready then w.drainRefused W cfg inp else []⟩ := by
  unfold Work.sigchld
  split
  · obtain ⟨hc, hm⟩ := drainSignals_quiet w inp
    unfold Work.drainRefused
    generalize w.drainSignals inp = r at hc hm ⊢
    obtain ⟨w₁, flow⟩ := r
    cases flow with
    | go => exact .after hc hm (observe_meets cfg w₁ _ _)
    | again => exact .same hc hm
    | ret o => exact .same hc hm
  · exact .same rfl rfl

theorem listen_quiet (w : Work) (inp : IterInput) (ready : Bool) : (w.listen inp ready).1.sess = w.sess := by
  unfold Work.listen
  split
  · split
    · rfl
    · split <;> rfl
  · rfl

theorem masterEof_meets (w : Work) (inp : IterInput) :
    Passed w.sess (w.masterEof W cfg inp).sess
      ⟨[], if w.loc.deferredExit.isSome then [] else w.observeRefused W cfg inp.childBeforeRead⟩ := by
  unfold Work.masterEof
  split
  · exact .same rfl rfl
  · have htrans := transition_meets (W := W) cfg (w.pollChild inp.childBeforeRead).1
      (w.pollChild inp.childBeforeRead).2.2
    dsimp only
    split <;> exact ⟨htrans.gaps, htrans.missed⟩

theorem masterBytes_meets (w : Work) (inp : IterInput) (bytes : Bytes) :
    Passed w.sess (w.masterBytes W inp bytes).1.sess ⟨[], outputRefused W w.sess.clients bytes inp.unixMs⟩ := by
  have hrefused : (broadcastMasterBytes W w.sess.clients bytes inp.unixMs).2 =
      outputRefused W w.sess.clients bytes inp.unixMs := by
    rw [broadcastMasterBytes, broadcastWith_refusing, outputRefused]
    congr 1
    funext ch
    cases ch.subscription with
    | raw => cases rawDataFrame bytes <;> rfl
    | tailFollow strip =>
      dsimp only
      cases W.controlFrame _ <;> rfl
  have hgaps := hrefused ▸ broadcastWith_gaps (W := W) w.sess.clients _
  unfold Work.masterBytes
  dsimp only
  split
  · split <;> exact .reports hgaps rfl
  · exact .reports hgaps rfl

theorem master_meets (w : Work) (inp : IterInput) (ready : Bool) :
    Passed w.sess (w.master W cfg inp ready).1.sess ⟨[], w.masterRefused W cfg inp ready⟩ := by
  unfold Work.master Work.masterRefused
  split
  · cases inp.masterRead with
    | eof => exact masterEof_meets cfg w inp
    | eio => exact masterEof_meets cfg w inp
    | eagain => exact .same rfl rfl
    | error => exact .same rfl rfl
    | bytes b =>
      cases b with
      | nil => exact masterEof_meets cfg w inp
      | cons x xs => exact masterBytes_meets w inp _
  · exact .same rfl rfl

/-! ### Handshakes -/

theorem attachClient_session (s : Session) (d : DaemonState) (overflowIds : List ClientId) (accepted : AcceptedClient) :
    (attachClient W s d overflowIds accepted).1 = (attachClient W s d [] accepted).1 := by
  unfold attachClient
  dsimp only
  split <;> rfl

theorem redraw_id (ch : ClientHandle) (screen : Screen) : (sendInitialAttachRedraw W ch screen).id = ch.id := by
  have hs : Spoke (·.plain = true) [] ch (sendInitialAttachRedraw W ch screen) := sendInitialAttachRedraw_spoke ch screen
  exact hs.id

/-- A client that attaches: it may have no room for the lock's notice. -/
theorem joined_meets (s : Session) (d : DaemonState) (accepted : AcceptedClient) (hb : accepted.becameLeader = false)
    (hno : accepted.handle.overflowed = false) :
    Passed s (attachClient W s d [] accepted).1 ⟨noticeRefused W d.lock accepted.handle, []⟩ := by
  have hnotice : (noticeLocked W d.lock s.missed accepted.handle).2 =
        s.missed ++ noticeRefused W d.lock accepted.handle ∧
      ((noticeLocked W d.lock s.missed accepted.handle).1.overflowed = true →
        accepted.handle.id ∈ noticeRefused W d.lock accepted.handle) ∧
      (noticeLocked W d.lock s.missed accepted.handle).1.id = accepted.handle.id := by
    unfold noticeLocked noticeRefused
    cases d.lock.holder with
    | none => exact ⟨(List.append_nil _).symm, fun ho => absurd ho (by rw [hno]; decide), rfl⟩
    | some holder =>
      have hover := offer_overflow accepted.handle
        (.control (.modeChange { sessionMode := .locked, lockHolder := some holder, clientMode := none }))
        (W.controlFrame (.modeChange { sessionMode := .locked, lockHolder := some holder, clientMode := none }))
      dsimp only [sendControl]
      rw [offer_refused, hno, Bool.false_or, offer_id]
      refine ⟨?_, fun ho => by rw [if_pos ho]; exact List.mem_singleton.2 rfl, rfl⟩
      by_cases hr : accepted.handle.refuses (W.controlFrame (.modeChange
          { sessionMode := .locked, lockHolder := some holder, clientMode := none })) = true
      · rw [if_pos (hover.2 hr), if_pos hr]
      · rw [if_neg fun ho => hr (hover.1 ho), if_neg hr, List.append_nil]
  obtain ⟨hmissed, hgap, hid⟩ := hnotice
  unfold attachClient
  simp only [hb, Bool.false_eq_true, if_false]
  generalize noticeLocked W d.lock s.missed accepted.handle = r at hmissed hgap hid ⊢
  refine ⟨fun ch hch ho => ?_, fun id hid => List.mem_append.1 (hmissed ▸ hid)⟩
  rcases List.mem_append.1 hch with hch | hch
  · exact .inr ⟨ch, hch, rfl, ho⟩
  · refine .inl (List.mem_append_left _ ?_)
    rw [List.mem_singleton.1 hch] at ho ⊢
    split at ho <;> rename_i hsync
    · rw [if_pos hsync, hid]
      exact hgap ho
    · rw [if_neg hsync, redraw_id, hid]
      exact hgap ((sendInitialAttachRedraw_same _ _).1 ▸ ho)

theorem attachClient_meets (s : Session) (d : DaemonState) {accepted : AcceptedClient}
    (hno : accepted.handle.overflowed = false) :
    Passed s (attachClient W s d [] accepted).1
      ⟨noticeRefused W d.lock accepted.handle, leaderRefused W s d accepted⟩ := by
  unfold leaderRefused
  cases hb : accepted.becameLeader with
  | false => exact joined_meets s d accepted hb hno
  | true =>
    have hjoined := joined_meets (W := W) s d { accepted with becameLeader := false } rfl hno
    have hid : (if W.syncInProgress s.screen then (noticeLocked W d.lock s.missed accepted.handle).1
        else sendInitialAttachRedraw W (noticeLocked W d.lock s.missed accepted.handle).1 s.screen).id =
        accepted.handle.id := by
      have hnotice : (noticeLocked W d.lock s.missed accepted.handle).1.id = accepted.handle.id := by
        unfold noticeLocked
        split
        · rfl
        · exact offer_id accepted.handle _ _
      split
      · exact hnotice
      · exact (redraw_id _ s.screen).trans hnotice
    have heq : (attachClient W s d [] accepted).1 =
        ((attachClient W s d [] { accepted with becameLeader := false }).1.broadcastControl W
          (.leaderNotify (some accepted.handle.id))).1 := by
      unfold attachClient
      simp only [hb, if_true, Bool.false_eq_true, if_false]
      rw [hid]
    rw [heq]
    have htold := broadcast_answered (W := W) (attachClient W s d [] { accepted with becameLeader := false }).1
      (.leaderNotify (some accepted.handle.id))
    have hall := hjoined.trans (Passed.reports htold.gaps rfl)
    rwa [Refusals.mk_append, List.append_nil, List.nil_append] at hall

theorem announceNextLeader_answered (s : Session) :
    Tells W s (s.announceNextLeader W).1 [.announce none (.leaderNotify (elevateNextLeader s.clients).2)] :=
  Tells.after { s with clients := (elevateNextLeader s.clients).1 }
    (elevateNextLeader_map (fun _ _ => rfl) s.clients) rfl (broadcast_answered _ _)

theorem detachClients_broadcasts (now : Instant) (idxs : List Nat) (s : Session) (d : DaemonState) :
    ∀ e ∈ (detachClients now idxs s d).2.2.1, e.isBroadcast = true := by
  induction idxs generalizing s d with
  | nil => exact fun _ he => nomatch he
  | cons i idxs ih =>
    unfold detachClients
    cases hch : s.clients[i]? with
    | none => exact ih s d
    | some ch =>
      intro e he
      rcases List.mem_append.1 he with he | he
      · rw [DaemonState.handle_detached] at he
        simp only [LockState.reduceMsg, LockState.reduce] at he
        split at he
        · simp only [LockState.eventsEffects, LockState.eventEffects, LockState.emit, LockState.modeChange,
            List.append_nil, List.mem_singleton] at he
          rw [he]
          rfl
        · cases he
      · exact ih _ _ e he

theorem execute_broadcasts {effects : List Effect} (ctx : ExecuteCtx) (h : ∀ e ∈ effects, e.isBroadcast = true) :
    (ctx.execute W effects).1.session.missed = ctx.session.missed := by
  induction effects generalizing ctx with
  | nil => rfl
  | cons e es ih =>
    obtain ⟨eid, kind⟩ := e
    have hb := h _ List.mem_cons_self
    cases kind <;> simp only [Effect.isBroadcast, Bool.false_eq_true] at hb
    exact ih _ fun e' he' => h e' (List.mem_cons_of_mem _ he')

/-- `--detach-others`: those that stay are told, and who has no room is reported. -/
theorem detachOthers_meets {d : DaemonState} {ov : List ClientId} (h : Mid s d ov) (newId : ClientId) (now : Instant) :
    Passed s (detachOthers W newId now s d ov).1 ⟨[], detachOthersRefused W newId now s d⟩ := by
  have hr := detachClients_remains now h
    (range_descending (fun k => (s.clients[k]?).any (·.id ≠ newId)) s.clients.length)
  obtain ⟨-, hdet⟩ := detachClients_spec now h.lock
    (range_descending (fun k => (s.clients[k]?).any (·.id ≠ newId)) s.clients.length) (s := s)
  have hbroadcasts := detachClients_broadcasts now
    ((List.range s.clients.length).reverse.filter fun k => (s.clients[k]?).any (·.id ≠ newId)) s d
  unfold detachOthers detachOthersRefused leaveRefused
  dsimp only
  generalize detachClients now _ s d = r at hr hdet hbroadcasts ⊢
  obtain ⟨s₁, d₁, effects, dropped⟩ := r
  dsimp only at hr hdet hbroadcasts ⊢
  have hstay : GapsIn [] s.clients s₁.clients := .of_mem fun ch hch => (List.mem_filter.1 (hr.kept ▸ hch)).1
  have hn : (s₁.clients.map (·.id)).Nodup := by
    rw [hr.kept]
    exact h.ids.sublist (List.filter_sublist.map _)
  -- the announcement, then the release of the lock
  have htold : ∀ s₂ ids as, Tells W s₁ s₂ as → s₂.missed = s₁.missed →
      Tells W s₁ (executeWithFeedback W d₁ effects s₂ ids).2.1 (as ++ effects.filterMap Answer.ofEffect) ∧
        (executeWithFeedback W d₁ effects s₂ ids).2.1.missed = s₁.missed := by
    intro s₂ ids as hans hm
    simp only [executeWithFeedback, feedback_lock d₁ _ hr.effect]
    exact ⟨hans.trans (execute_answered { session := s₂, overflowIds := ids } (hans.ids ▸ hn) hr.effect).1,
      (execute_broadcasts _ hbroadcasts).trans hm⟩
  unfold leaveAnswers
  cases dropped with
  | true =>
    obtain ⟨hans, hm⟩ := htold _ (ov ++ (s₁.announceNextLeader W).2) _ (announceNextLeader_answered s₁) rfl
    exact .reports (hstay.trans hans.gaps) (hm.trans hdet.missed)
  | false =>
    obtain ⟨hans, hm⟩ := htold s₁ ov [] (.same rfl rfl) rfl
    exact .reports (hstay.trans hans.gaps) (hm.trans hdet.missed)

theorem processPendingHandshakes_meets (now : Instant) (unixMs : Nat) {d : DaemonState} {ov : List ClientId}
    (h : Mid s d ov) (kept rest : List PendingHandshake) (polls : List HandshakePoll) :
    Passed s (processPendingHandshakes W cfg now unixMs s d kept rest polls ov).1
      (passRefusals W cfg now unixMs s d kept rest polls) := by
  induction rest generalizing s d kept polls ov with
  | nil => exact .same rfl rfl
  | cons entry rest ih =>
    unfold processPendingHandshakes passRefusals
    cases polls.headD (.empty entry.startedAt) with
    | ready req intersect setNonblocking =>
      dsimp only
      cases hok : finalizeAcceptedClient W cfg req intersect setNonblocking s.nextClientId s.clients
          (kept.length + rest.length) s.childStopped now unixMs with
      | ok accepted =>
        obtain ⟨hid, hlead, hbecame, hoff, -⟩ := finalizeAcceptedClient_ok hok
        have hno : accepted.handle.overflowed = false := by
          obtain ⟨response, hresponse⟩ := hoff
          rw [ClientHandle.overflowed, hresponse]
          rfl
        have hattach := attachClient_stepped (W := W) h hid hlead hbecame hoff
        have hmeets := attachClient_meets (W := W) s d hno
        have hsame := attachClient_session (W := W) s d ov accepted
        dsimp only at hattach ⊢
        rw [← hsame] at hmeets ⊢
        split
        · exact hmeets.trans (detachOthers_meets hattach.mid accepted.handle.id now)
        · exact hmeets.trans (ih hattach.mid kept polls.tail)
      | error rejected =>
        cases rejected with
        | some c =>
          have hst : Stepped W s d { s with closing := admitClosing s.closing c } d ov := .congr h rfl rfl rfl rfl
          have hrest := ih hst.mid kept polls.tail
          exact ⟨hrest.gaps, hrest.missed⟩
        | none => exact ih h kept polls.tail
    | failed => exact ih h kept polls.tail
    | disconnected => exact ih h kept polls.tail
    | empty at_ => exact ih h _ polls.tail

theorem handshakes_meets (h : w.Mid) (inp : IterInput) :
    Passed w.sess (w.handshakes W cfg inp).sess (w.handshakeRefusals W cfg inp) := by
  have hpass := processPendingHandshakes_meets (W := W) cfg inp.handshakeNow inp.unixMs h [] w.loc.pendingHandshakes inp.handshakes
  unfold Work.handshakes Work.handshakeRefusals
  generalize processPendingHandshakes W cfg inp.handshakeNow inp.unixMs w.sess w.loc.daemonState []
    w.loc.pendingHandshakes inp.handshakes w.overflow = r at hpass ⊢
  obtain ⟨s₁, d₁, pending, overflow⟩ := r
  -- a redraw always fits
  have hredraw : ∀ (ids : List ClientId) (clients : List ClientHandle),
      GapsIn [] clients (ids.foldl (redrawClient W s₁.screen) clients) := by
    intro ids
    induction ids with
    | nil => exact fun clients => .refl clients
    | cons id ids ih =>
      intro clients
      have hone : GapsIn [] clients (redrawClient W s₁.screen clients id) := .of_spokes (redrawClient_spoke _ _ _)
      exact hone.trans (ih _)
  have hflush : Passed s₁ (flushPendingRedraws W s₁) {} := by
    unfold flushPendingRedraws
    split
    · exact .same rfl rfl
    · exact .reports (hredraw _ _) rfl
  have hall := hpass.trans hflush
  rwa [Refusals.append_empty] at hall

/-- What is met on the way to a stage: where the turn is over, its gaps. -/
def Stage.Met (s : Session) (r : Refusals) : Stage → Prop
  | .done turn => GapsIn r.all s.clients turn.1.sess.clients
  | .tick w | .frames w _ => Passed s w.sess r

theorem Stage.Met.behind {stage : Stage} (h : Passed s s' r) (h' : stage.Met s' r') : stage.Met s (r ++ r') := by
  cases stage with
  | done turn => exact (h.gaps.trans h').mono fun id hid => Refusals.mem_all_append.2 (List.mem_append.1 hid)
  | tick w => exact h.trans h'
  | frames w revents => exact h.trans h'

theorem left_met {ids : List ClientId} {w' : Work} (h : Passed s w'.sess ⟨[], ids⟩) (o : Option RelayOutcome)
    (more : List ClientId) : Stage.Met s ⟨[], ids ++ more⟩ (.done (w'.leave o)) :=
  h.gaps.mono fun id hid => by
    simp only [Refusals.all, List.nil_append] at hid ⊢
    exact List.mem_append_left _ hid

theorem afterHandshakes_met (w : Work) (inp : IterInput) (listener master sigchld : Bool)
    (revents : List (ClientId × Bool)) :
    Stage.Met w.sess ⟨[], w.restRefused W cfg inp listener master sigchld⟩
      (w.afterHandshakes W cfg inp listener master sigchld revents) := by
  have hsig := sigchld_meets (W := W) cfg w inp sigchld
  unfold Work.afterHandshakes Work.restRefused
  generalize w.sigchld W cfg inp sigchld = r₁ at hsig ⊢
  obtain ⟨w₁, flow₁⟩ := r₁
  cases flow₁ with
  | ret o => exact left_met hsig _ _
  | again => exact left_met hsig _ _
  | go =>
    have hlisten := listen_quiet w₁ inp listener
    dsimp only at hsig ⊢
    generalize w₁.listen inp listener = r₂ at hlisten ⊢
    obtain ⟨w₂, flow₂⟩ := r₂
    dsimp only at hlisten
    have hsig₂ := hlisten ▸ hsig
    cases flow₂ with
    | ret o => exact left_met hsig₂ _ _
    | again => exact left_met hsig₂ _ _
    | go =>
      have hmaster := master_meets (W := W) cfg w₂ inp master
      dsimp only
      generalize w₂.masterRefused W cfg inp master = ids at hmaster ⊢
      generalize w₂.master W cfg inp master = r₃ at hmaster ⊢
      obtain ⟨w₃, flow₃⟩ := r₃
      have hall : Passed w.sess w₃.sess _ := hsig₂.trans hmaster
      cases flow₃ with
      | ret o => exact hall.gaps
      | again => exact hall.gaps
      | go => exact hall

theorem afterPoll_met (h : w.Mid) (inp : IterInput) :
    Stage.Met w.sess (w.refusals W cfg inp) (w.afterPoll W cfg inp) := by
  unfold Work.afterPoll Work.refusals
  cases inp.poll with
  | error => exact .refl _
  | interrupted => exact interrupted_gaps cfg w inp
  | timeout =>
    have hobs : w.Chats W (w.timeoutObserve W cfg inp) := Work.timeoutObserve_chats h inp
    have hshakes := (timeoutObserve_meets (W := W) cfg w inp).trans (handshakes_meets (W := W) cfg hobs.mid inp)
    dsimp only
    cases w.sess.clients.any (·.decoder.isReady) with
    | true => exact Stage.Met.behind hshakes (afterHandshakes_met cfg _ inp false false false [])
    | false => exact hshakes.trans (.same rfl rfl)
  | ready listener master readable sigchld =>
    exact Stage.Met.behind (handshakes_meets cfg h inp) (afterHandshakes_met cfg _ inp listener master _ _)

end Passed

/-! ## The frames -/

section Frames

variable {W : World} (cfg : Config) (inp : IterInput) {r : FrameRun}

/-- Who is missed after the handling of a frame was missed before, has no room for what is sent
unchecked, or is to be dropped. -/
theorem step_missed (h : r.Mid) {idx : Nat} (hlt : idx < r.sess.clients.length) (fre : FrameOrError) :
    ∀ id ∈ (r.step W cfg inp idx fre).sess.missed, id ∈ r.sess.missed ∨ id ∈ r.stepLost W cfg inp idx fre ∨
      id ∈ keysAt (·.id) (r.step W cfg inp idx fre).indicesToDrop (r.step W cfg inp idx fre).sess.clients := by
  intro id hid
  have hstep := FrameRun.step_chatted (W := W) cfg inp h idx fre
  rw [keysAt_congr hstep.ids]
  unfold FrameRun.step FrameRun.stepLost at *
  split
  · rename_i hret
    rw [if_pos hret] at hid
    exact .inl hid
  · rename_i hret
    rw [if_neg hret] at hid
    cases fre with
    | error => exact .inl hid
    | frame frame =>
      dsimp only at hid ⊢
      have hmissed := handleClientFrame_missed (W := W) cfg h (List.getElem?_eq_getElem hlt)
        (inp.frameEnv ((r.sess.clients[idx]?).elim 0 (·.id))) frame
      generalize frameRefused W cfg _ r.sess r.daemonState idx frame = refused at hmissed ⊢
      generalize handleClientFrame W cfg _ r.sess r.daemonState idx frame = res at hid hmissed ⊢
      obtain ⟨s, d, outcome⟩ := res
      have hid' : id ∈ s.missed := by cases outcome <;> exact hid
      -- what was to be dropped before still is
      have hkeep : id ∈ keysAt (·.id) r.indicesToDrop r.sess.clients → ∀ more,
          id ∈ keysAt (·.id) (r.indicesToDrop ++ more) r.sess.clients := fun hk more => by
        rw [keysAt_append]
        exact List.mem_append_left _ hk
      rcases hmissed id hid' with hbefore | hdropped | hrefused | hdrops
      · exact .inl hbefore
      · refine .inr (.inr ?_)
        cases outcome with
        | «continue» => exact hdropped
        | terminateSession o => exact hdropped
        | dropClient => exact hkeep hdropped _
        | dropClients indices cancelPending => exact hkeep hdropped _
      · by_cases hk : id ∈ keysAt (·.id) r.indicesToDrop r.sess.clients
        · refine .inr (.inr ?_)
          cases outcome with
          | «continue» => exact hk
          | terminateSession o => exact hk
          | dropClient => exact hkeep hk _
          | dropClients indices cancelPending => exact hkeep hk _
        · exact .inr (.inl (List.mem_filter.2 ⟨hrefused, decide_eq_true hk⟩))
      · refine .inr (.inr ?_)
        cases outcome with
        | «continue» => cases hdrops
        | terminateSession o => cases hdrops
        | dropClient =>
          dsimp only
          rw [keysAt_append]
          exact List.mem_append_right _ hdrops
        | dropClients indices cancelPending =>
          dsimp only
          rw [keysAt_append]
          exact List.mem_append_right _ hdrops

theorem step_keys {idx : Nat} (fre : FrameOrError) :
    ∀ i ∈ r.indicesToDrop, i ∈ (r.step W cfg inp idx fre).indicesToDrop := by
  intro i hi
  unfold FrameRun.step
  split
  · exact hi
  · cases fre with
    | error => exact List.mem_append_left _ hi
    | frame frame =>
      dsimp only
      split
      · exact hi
      · exact List.mem_append_left _ hi
      · exact List.mem_append_left _ hi
      · exact hi

theorem run_keys (frames : List (Nat × FrameOrError)) :
    ∀ i ∈ r.indicesToDrop, i ∈ (r.run W cfg inp frames).indicesToDrop := by
  induction frames generalizing r with
  | nil => exact fun _ hi => hi
  | cons f frames ih => exact fun i hi => ih i (step_keys cfg inp f.2 i hi)

theorem run_missed (h : r.Mid) (frames : List (Nat × FrameOrError)) (hlt : ∀ f ∈ frames, f.1 < r.sess.clients.length) :
    ∀ id ∈ (r.run W cfg inp frames).sess.missed, id ∈ r.sess.missed ∨ id ∈ r.runLost W cfg inp frames ∨
      id ∈ keysAt (·.id) (r.run W cfg inp frames).indicesToDrop (r.run W cfg inp frames).sess.clients := by
  induction frames generalizing r with
  | nil => exact fun _ hid => .inl hid
  | cons f frames ih =>
    intro id hid
    have hstep := FrameRun.step_chatted (W := W) cfg inp h f.1 f.2
    have hlen : (r.step W cfg inp f.1 f.2).sess.clients.length = r.sess.clients.length := by
      have hids := congrArg List.length hstep.ids
      rwa [List.length_map, List.length_map] at hids
    have hrest : (r.run W cfg inp (f :: frames)) = (r.step W cfg inp f.1 f.2).run W cfg inp frames := rfl
    rw [hrest] at hid ⊢
    rw [FrameRun.runLost, List.mem_append]
    rcases ih hstep.mid (fun g hg => hlen ▸ hlt g (List.mem_cons_of_mem _ hg)) id hid with hid | hid | hid
    · rcases step_missed cfg inp h (hlt f List.mem_cons_self) f.2 id hid with hid | hid | hid
      · exact .inl hid
      · exact .inr (.inl (.inl hid))
      · -- who is to be dropped stays so
        refine .inr (.inr ?_)
        have hids := (FrameRun.run_chatted (W := W) cfg inp hstep.mid frames).ids
        rw [keysAt_congr hids]
        obtain ⟨i, hi, hkey⟩ := List.mem_filterMap.1 hid
        exact List.mem_filterMap.2 ⟨i, run_keys cfg inp frames i hi, hkey⟩
    · exact .inr (.inl (.inr hid))
    · exact .inr (.inr hid)

theorem dropClients_missed (h : r.Mid) :
    ∀ id ∈ (dropClients W inp r).1.missed, id ∈ r.sess.missed ∨
      id ∈ leaveRefused W inp.dropNow (descending r.sess.clients.length r.indicesToDrop) r.sess r.daemonState := by
  have hr := detachClients_remains inp.dropNow h (descending_pairwise r.sess.clients.length r.indicesToDrop)
  obtain ⟨-, hdet⟩ := detachClients_spec inp.dropNow h.lock (s := r.sess)
    (descending_pairwise r.sess.clients.length r.indicesToDrop)
  unfold dropClients leaveRefused
  dsimp only
  generalize detachClients inp.dropNow _ r.sess r.daemonState = res at hr hdet ⊢
  obtain ⟨s₁, d₁, effects, dropped⟩ := res
  dsimp only at hr hdet ⊢
  have hn : (s₁.clients.map (·.id)).Nodup := by
    rw [hr.kept]
    exact h.ids.sublist (List.filter_sublist.map _)
  rw [← hdet.missed]
  unfold leaveAnswers
  cases dropped with
  | true =>
    have hann := (announceNextLeader_answered (W := W) s₁).ignore (s₁.announceNextLeader W).2 fun id hid => by
      have hrefused := announce_refusing (W := W) (elevateNextLeader s₁.clients).1
        (.leaderNotify (elevateNextLeader s₁.clients).2)
      rw [Session.announceNextLeader] at hid
      rw [answersRefused, answersRefused, List.append_nil,
        refusing_wires _ (elevateNextLeader_map (f := ClientHandle.wire) (fun _ _ => rfl) s₁.clients).symm, ← hrefused]
      exact hid
    exact (hann.trans (executeIgnoring_answered (hann.ids ▸ hn) d₁ hr.effect)).missed
  | false => exact (executeIgnoring_answered hn d₁ hr.effect).missed

/-- Whoever was to be dropped when the frames began is gone. -/
theorem frames_stay {w : Work} (h : w.Mid) (revents : List (ClientId × Bool)) {ch : ClientHandle}
    (hch : ch ∈ (w.frames W cfg inp revents).1.sess.clients) : ch.id ∉ w.overflow := by
  intro hov
  unfold Work.frames at hch
  obtain ⟨hmid, -⟩ := Work.frameRun_mid (W := W) inp h revents
  have hdrops : (w.frameRun W inp revents).1.indicesToDrop = (w.frameRun W inp revents).1.sess.indicesOf w.overflow := rfl
  generalize w.frameRun W inp revents = r at hmid hdrops hch
  obtain ⟨r, frames⟩ := r
  dsimp only at hmid hdrops hch
  have hrun := FrameRun.run_chatted (W := W) cfg inp hmid frames
  have hmem := List.mem_map_of_mem (f := fun c : ClientHandle => c.id) hch
  rw [(dropClients_stepped (W := W) inp hrun.mid).2] at hmem
  obtain ⟨c, hc, he⟩ := List.mem_map.1 hmem
  obtain ⟨hc, hstay⟩ := List.mem_filter.1 hc
  have hbefore : c.id ∈ r.sess.clients.map (·.id) := hrun.ids ▸ List.mem_map_of_mem hc
  obtain ⟨c₀, hc₀, hid₀⟩ := List.mem_map.1 hbefore
  have hkey := (indicesOf_keys hmid.ids w.overflow hc₀).2 (by rw [hid₀, he]; exact hov)
  rw [← hdrops, hid₀] at hkey
  obtain ⟨i, hi, hkey⟩ := List.mem_filterMap.1 hkey
  refine absurd ?_ (of_decide_eq_true hstay)
  rw [keysAt_congr hrun.ids]
  exact List.mem_filterMap.2 ⟨i, run_keys cfg inp frames i hi, hkey⟩

theorem frames_missed {w : Work} (h : w.Mid) (revents : List (ClientId × Bool)) {ch : ClientHandle}
    (hch : ch ∈ (w.frames W cfg inp revents).1.sess.clients) (hid : ch.id ∈ (w.frames W cfg inp revents).1.sess.missed) :
    ch.id ∈ w.sess.missed ∨ ch.id ∈ w.framesLost W cfg inp revents := by
  unfold Work.frames at hch hid
  unfold Work.framesLost
  obtain ⟨hmid, -⟩ := Work.frameRun_mid (W := W) inp h revents
  have hsess : (w.frameRun W inp revents).1.sess.missed = w.sess.missed := rfl
  have hlt : ∀ f ∈ (w.frameRun W inp revents).2, f.1 < (w.frameRun W inp revents).1.sess.clients.length := by
    intro f hf
    have hall := collectFrames_same (W := W) inp.recv 0 w.sess.clients revents
    obtain ⟨-, hi⟩ := collectFrames_index hf
    rw [Nat.zero_add, hall.length_eq] at hi
    exact hi
  generalize w.frameRun W inp revents = r at hmid hsess hlt hch hid ⊢
  obtain ⟨r, frames⟩ := r
  dsimp only at hmid hsess hlt hch hid ⊢
  have hrun := FrameRun.run_chatted (W := W) cfg inp hmid frames
  have hmissed := run_missed (W := W) cfg inp hmid frames hlt
  have hdrop := dropClients_missed (W := W) inp hrun.mid
  have hstay := (dropClients_stepped (W := W) inp hrun.mid).2
  rw [List.mem_append]
  rcases hdrop _ hid with hid | hid
  · rcases hmissed _ hid with hid | hid | hid
    · exact .inl (hsess ▸ hid)
    · exact .inr (.inl hid)
    · -- who is to be dropped is not there any more
      have hmem := List.mem_map_of_mem (f := fun c : ClientHandle => c.id) hch
      rw [hstay] at hmem
      obtain ⟨c, hc, he⟩ := List.mem_map.1 hmem
      exact absurd (he ▸ hid) (of_decide_eq_true (List.mem_filter.1 hc).2)
  · exact .inr (.inr hid)

end Frames

/-! ## The turn, and runs -/

section Runs

variable {W : World} {cfg : Config} {inp : IterInput} {st : State}

/-- At the end of a turn every overflow is accounted for by a report that was thrown away. -/
theorem turn_accounted (inp : IterInput) {ok : State → Move → Prop} (h : (loop W cfg).Reach ok st) :
    (iterate W cfg inp st).1.sess.Accounted [] := by
  by_cases hw : ∃ w, beforeFrames W cfg inp st = .tick w
  · obtain ⟨w, hw⟩ := hw
    obtain ⟨-, hok, -, hst⟩ := iterate_tick (loop_ok h) hw
    exact hst ▸ hok.mid.accounted
  · exact (iterate_turned (loop_ok h) fun w hw' => hw ⟨w, hw'⟩).mid.accounted

/-- No report of a full queue was thrown away for a client that is still attached. -/
def State.Clear (st : State) : Prop := ∀ ch ∈ st.sess.clients, ch.id ∉ st.sess.missed

/-- A client that comes later has a new id. -/
theorem clear_missed (h : st.Ok) (hclear : st.Clear) {s : Session} {holder : Option ClientId}
    (hsteps : Relation.ReflTransGen (Step (Encodes W)) st.registry (s.registry holder)) {ch : ClientHandle}
    (hch : ch ∈ s.clients) : ch.id ∉ st.sess.missed := by
  intro hmiss
  obtain ⟨-, survivors, added, hids, hsub, hadded⟩ := steps_renewed hsteps
  have hmem : ch.id ∈ survivors ++ added := by
    rw [← hids]
    exact List.mem_map_of_mem (List.mem_map_of_mem hch)
  rcases List.mem_append.1 hmem with hold | hnew
  · obtain ⟨m, hm, hid⟩ := List.mem_map.1 (hsub.subset hold)
    obtain ⟨c, hc, rfl⟩ := List.mem_map.1 hm
    exact hclear c hc ((show c.id = ch.id from hid) ▸ hmiss)
  · exact absurd (h.mid.accounted.fresh _ hmiss) (not_lt.2 (hadded _ hnew))

theorem flushClients_gaps (clients : List ClientHandle) (scripts : ClientId → List WriteResult) :
    GapsIn [] clients (flushClients clients scripts) := by
  intro ch' hch' ho
  obtain ⟨ch, hch, rfl⟩ := List.mem_map.1 hch'
  split at ho <;> rename_i hs
  · exact .inr ⟨ch, hch, by rw [if_pos hs], ho⟩
  · exact .inr ⟨ch, hch, by rw [if_neg hs]; rfl, ho⟩

theorem beforePoll_missed {w : Work} (h : beforePoll cfg inp st = .ok w) : w.sess.missed = st.sess.missed := by
  unfold beforePoll at h
  dsimp only at h
  split at h
  · cases h
  · split at h
    · cases h
    · split at h
      · cases h
      · cases h
        rfl

theorem mem_carried {clients : List ClientHandle} {ch : ClientHandle} (hgaps : GapsIn [] st.sess.clients clients)
    (hch : ch ∈ clients) (ho : ch.overflowed = true) : ch.id ∈ st.carried := by
  rcases hgaps ch hch ho with hid | ⟨c, hc, hid, hover⟩
  · cases hid
  · exact hid ▸ List.mem_map_of_mem (List.mem_filter.2 ⟨hc, hover⟩)

/-- Where no report but those of `overflow` was lost, nobody else is missed. -/
theorem Passed.not_missed {s s' : Session} {r : Refusals} {overflow : List ClientId} {id : ClientId} (h : Passed s s' r)
    (hnone : r.lost.filter (· ∉ overflow) = []) (hid : id ∉ overflow) (hno : id ∉ s.missed) : id ∉ s'.missed := by
  intro hmiss
  rcases h.missed _ hmiss with hbefore | hlost
  · exact hno hbefore
  · have hmem : id ∈ r.lost.filter (· ∉ overflow) := List.mem_filter.2 ⟨hlost, decide_eq_true hid⟩
    rw [hnone] at hmem
    cases hmem

/-- A turn in which no report gets lost leaves nobody attached who overflowed. -/
theorem turn_clear (h : st.Ok) (hclear : st.Clear) (hacc : (iterate W cfg inp st).1.sess.Accounted [])
    (hkept : lostReports W cfg inp st = []) :
    ∀ ch ∈ (iterate W cfg inp st).1.sess.clients, ch.overflowed = false := by
  intro ch hch
  by_contra ho
  rw [Bool.not_eq_false] at ho
  have hmiss : ch.id ∈ (iterate W cfg inp st).1.sess.missed := (hacc.gap ch hch ho).resolve_right fun hid => nomatch hid
  have hspec := beforeFrames_spec (W := W) cfg inp h
  unfold iterate at hch hmiss
  unfold lostReports turnRefusals at hkept
  unfold beforeFrames at hspec hch hmiss hkept
  rcases beforePoll_spec (W := W) cfg inp h with ⟨turn, heq, -, hflushed⟩ | ⟨w, heq, harr, hflushed⟩
  · -- the turn is over before `poll`
    rw [heq] at hkept hch
    have hnone := (List.append_eq_nil_iff.1 hkept).1
    have hmem := mem_carried (hflushed ▸ flushClients_gaps st.sess.clients inp.flush) hch ho
    rw [hnone] at hmem
    cases hmem
  · have hmet := afterPoll_met (W := W) cfg harr.mid inp
    have hmissed := beforePoll_missed heq
    rw [heq] at hspec hkept hch hmiss
    dsimp only at hspec hkept hch hmiss
    generalize w.afterPoll W cfg inp = stage at hmet hspec hkept hch hmiss
    cases stage with
    | done turn =>
      -- left early: neither carried nor found to have no room
      obtain ⟨hnone, hall⟩ := List.append_eq_nil_iff.1 hkept
      rcases hmet ch hch ho with hid | ⟨c, hc, hid, hover⟩
      · rw [hall] at hid
        cases hid
      · have hmem := mem_carried (hflushed ▸ flushClients_gaps st.sess.clients inp.flush) hc hover
        rw [hnone] at hmem
        cases hmem
    | tick w' =>
      obtain ⟨-, -, hstay⟩ := tick_loses inp hspec.mid
      dsimp only at hch
      rw [hstay] at hch
      obtain ⟨hch, hov⟩ := List.mem_filter.1 hch
      have hov : ch.id ∉ w'.overflow := of_decide_eq_true hov
      rcases hspec.mid.accounted.gap ch hch ho with hid | hid
      · exact hmet.not_missed hkept hov (hmissed ▸ clear_missed h hclear hspec.steps hch) hid
      · exact hov hid
    | frames w' revents =>
      obtain ⟨hnone, hframes⟩ := List.append_eq_nil_iff.1 hkept
      have hov := frames_stay cfg inp hspec.mid revents hch
      have hturned : Turned W st (w'.frames W cfg inp revents) := Arrives.frames hspec revents
      rcases frames_missed cfg inp hspec.mid revents hch hmiss with hid | hid
      · exact hmet.not_missed hnone hov (hmissed ▸ clear_missed h hclear hturned.steps hch) hid
      · rw [hframes] at hid
        cases hid

theorem enterServeLoop_clear (e : EntryInput) {s : Session} (hmid : Mid s {} [])
    (h : ∀ ch ∈ s.clients, ch.id ∉ s.missed) : (enterServeLoop W cfg e s).Clear := by
  intro ch hch hmiss
  have hchats : Work.Chats W { sess := s, loc := Locals.initial cfg e, overflow := [] } _ :=
    observeChildTransition_chats (W := W) cfg hmid e.childEvents e.now
  have hmeets := observe_meets (W := W) cfg { sess := s, loc := Locals.initial cfg e, overflow := [] }
    e.childEvents e.now
  have hid : ch.id ∈ s.clients.map (·.id) := hchats.ids ▸ List.mem_map_of_mem hch
  obtain ⟨c, hc, he⟩ := List.mem_map.1 hid
  rcases hmeets.missed _ hmiss with hid | hid
  · exact h c hc (he ▸ hid)
  · cases hid

/-- Where no report gets lost, nobody who is attached at the top of a turn was missed. -/
theorem kept_clear (h : (loop W cfg).Reach (ReportsKept W cfg) st) : st.Clear := by
  have hafter : ∀ {st : State} {inp : IterInput}, (loop W cfg).Reach (ReportsKept W cfg) st → st.Clear →
      lostReports W cfg inp st = [] →
      ∀ ch ∈ (iterate W cfg inp st).1.sess.clients, ch.id ∉ (iterate W cfg inp st).1.sess.missed := by
    intro st inp hr hclear hkept ch hch hmiss
    have hacc := turn_accounted inp hr
    exact absurd (hacc.missed ch hch hmiss) (by rw [turn_clear (loop_ok hr) hclear hacc hkept ch hch]; decide)
  refine h.inv State.Clear (fun st hi => ?_) ?_
  · obtain ⟨e, nowMs, resumeScrollback, child, -, rfl⟩ := hi
    exact enterServeLoop_clear e (initial_mid nowMs resumeScrollback child) fun ch hch => nomatch hch
  · intro st mv st' hr hclear hok hstep
    have hno := hafter hr hclear hok
    cases mv with
    | turn inp =>
      rw [show Move.input (.turn inp) = inp from rfl, loop_turn hstep] at hno
      exact hno
    | retry inp failure e =>
      obtain ⟨st₁, hit, rfl⟩ := loop_retry hstep
      rw [show Move.input (.retry inp failure e) = inp from rfl, hit] at hno
      have hmid := (upgrade_turned (loop_ok hr) hit).mid
      refine enterServeLoop_clear e ⟨hmid.sound.of_roles rfl (le_refl _),
        ⟨hmid.accounted.gap, hmid.accounted.missed, hmid.accounted.fresh, hmid.accounted.sent⟩,
        lock_ok_initial, idle_initial⟩ hno

/-- In a run whose turns lose no report, whoever overflowed in a turn is gone at its end, however the
turn ends. -/
theorem turn_leaves_no_gap (mv : Move) (h : (loop W cfg).Reach (ReportsKept W cfg) st) (hkept : ReportsKept W cfg st mv) :
    ∀ ch ∈ (iterate W cfg mv.input st).1.sess.clients, ch.overflowed = false :=
  turn_clear (loop_ok h) (kept_clear h) (turn_accounted mv.input h) hkept

/-- The child's stop overflows the queue of the first client, which is dropped in that turn. -/
theorem turn_leaves_no_gap_one :
    ∃ st, (loop World.pristine { clientBufferBytes := 200 }).Reach
        (ReportsKept World.pristine { clientBufferBytes := 200 }) st ∧
      st.sess.clients.length = 2 ∧
      (iterate World.pristine { clientBufferBytes := 200 } { childBeforeObserve := [.stop 19] } st).1.sess.clients.length = 1 ∧
      ∀ ch ∈ (iterate World.pristine { clientBufferBytes := 200 } { childBeforeObserve := [.stop 19] } st).1.sess.clients,
        ch.overflowed = false := by
  obtain ⟨st, hreach, htwo, hone, hkept⟩ : ∃ st, (loop World.pristine { clientBufferBytes := 200 }).Reach
        (ReportsKept World.pristine { clientBufferBytes := 200 }) st ∧
      st.sess.clients.length = 2 ∧
      (iterate World.pristine { clientBufferBytes := 200 } { childBeforeObserve := [.stop 19] } st).1.sess.clients.length = 1 ∧
      ReportsKept World.pristine { clientBufferBytes := 200 } st (.turn { childBeforeObserve := [.stop 19] }) :=
    (pristineStart_reach { clientBufferBytes := 200 } { sigchldPipe := false } _).exists_run
      (attachMoves .rw [.childStateV1] ++ attachMoves .rw []) (by decide +kernel)
  exact ⟨st, hreach, htwo, hone, turn_leaves_no_gap (.turn { childBeforeObserve := [.stop 19] }) hreach hkept⟩

/-- A client that does not read asks for the lock without the capability. The refusal does not
fit its queue, and it stays attached without it. -/
theorem refusal_lost_in_full_queue :
    ∃ st, (loop World.pristine { clientBufferBytes := 120 }).Reachable st ∧
      (iterate World.pristine { clientBufferBytes := 120 } (lockInput 0) st).2 = none ∧
      ∃ ch ∈ (iterate World.pristine { clientBufferBytes := 120 } (lockInput 0) st).1.sess.clients, ch.overflowed = true :=
  (pristineStart_reach _ {} _).exists_run (attachMoves .rwNoLeader []) (by decide +kernel)

end Runs

end Hyoui.Daemon
