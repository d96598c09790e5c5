import Hyoui.Daemon.Turn
import Hyoui.Lib.Transition
/-!
# Turns and runs of the serve loop

`afterPoll_cases` says once how a turn can go; the state at the top of every turn is `State.Ok`,
and a turn moves the registry by its steps, but for the clients a poll timeout loses. `loop` is
the system whose moves are the turns and the attempts to upgrade that fail.
-/

namespace Hyoui.Daemon

open Hyoui.Protocol Hyoui.Lib

/-! ## How a turn can go -/

section Cases

variable {W : World} {cfg : Config} {w : Work} {inp : IterInput}

theorem Work.interrupted_left (cfg : Config) (inp : IterInput) (h : w.Mid) :
    ∃ w' o, w.Chats W w' ∧ w.interrupted W cfg inp = w'.leave o := by
  unfold Work.interrupted
  have hdrain : w.Chats W (w.drainSignals inp).1 := Work.drainSignals_chats h inp
  generalize w.drainSignals inp = r at hdrain ⊢
  obtain ⟨w₁, flow⟩ := r
  cases flow with
  | go => exact ⟨_, none, hdrain.trans (observeChildTransition_chats _ hdrain.mid _ _), rfl⟩
  | again => exact ⟨w₁, none, hdrain, rfl⟩
  | ret o => exact ⟨w₁, some o, hdrain, rfl⟩

/-- After the handshakes nobody comes, and nobody goes before the frames. -/
theorem Work.afterHandshakes_cases (cfg : Config) (inp : IterInput) (h : w.Mid) (listener master sigchld : Bool)
    (revents : List (ClientId × Bool)) :
    ∃ w', w.Chats W w' ∧ ((∃ o, w.afterHandshakes W cfg inp listener master sigchld revents = .done (w'.leave o)) ∨
      w.afterHandshakes W cfg inp listener master sigchld revents = .frames w' revents) := by
  unfold Work.afterHandshakes
  have hsig : w.Chats W (w.sigchld W cfg inp sigchld).1 := Work.sigchld_chats h inp sigchld
  generalize w.sigchld W cfg inp sigchld = r₁ at hsig ⊢
  obtain ⟨w₁, flow₁⟩ := r₁
  cases flow₁ with
  | ret o => exact ⟨w₁, hsig, .inl ⟨_, rfl⟩⟩
  | again => exact ⟨w₁, hsig, .inl ⟨_, rfl⟩⟩
  | go =>
    have hlisten : w₁.Chats W (w₁.listen inp listener).1 := Work.listen_chats hsig.mid inp listener
    dsimp only
    generalize w₁.listen inp listener = r₂ at hlisten ⊢
    obtain ⟨w₂, flow₂⟩ := r₂
    cases flow₂ with
    | ret o => exact ⟨w₂, hsig.trans hlisten, .inl ⟨_, rfl⟩⟩
    | again => exact ⟨w₂, hsig.trans hlisten, .inl ⟨_, rfl⟩⟩
    | go =>
      have hmaster : w₂.Chats W (w₂.master W cfg inp master).1 := Work.master_chats hlisten.mid inp master
      dsimp only
      generalize w₂.master W cfg inp master = r₃ at hmaster ⊢
      obtain ⟨w₃, flow₃⟩ := r₃
      have hall := (hsig.trans hlisten).trans hmaster
      cases flow₃ with
      | ret o => exact ⟨w₃, hall, .inl ⟨_, rfl⟩⟩
      | again => exact ⟨w₃, hall, .inl ⟨_, rfl⟩⟩
      | go => exact ⟨w₃, hall, .inr rfl⟩

/-- The work with which a turn comes to its handshakes, where it does. -/
def Work.toHandshakes (W : World) (cfg : Config) (w : Work) (inp : IterInput) : Option Work :=
  match inp.poll with
  | .error | .interrupted => none
  | .timeout => some (w.timeoutObserve W cfg inp)
  | .ready _ _ _ _ => some w

/-- How a stage follows from the work `w'` that led to it. -/
inductive Stage.From (w' : Work) : Stage → Prop
  | left (o : Option RelayOutcome) : From w' (.done (w'.leave o))
  | tick : From w' (.tick w')
  | frames (revents : List (ClientId × Bool)) : From w' (.frames w' revents)

/-- A turn is left without a look at the handshakes, or it goes on after them. -/
theorem Work.afterPoll_cases (cfg : Config) (inp : IterInput) (h : w.Mid) :
    (w.toHandshakes W cfg inp = none ∧ ∃ w' o, w.Chats W w' ∧ w.afterPoll W cfg inp = .done (w'.leave o)) ∨
    ∃ w₁ w', w.toHandshakes W cfg inp = some w₁ ∧ w.Chats W w₁ ∧ (w₁.handshakes W cfg inp).Chats W w' ∧
      Stage.From w' (w.afterPoll W cfg inp) := by
  have hrest : ∀ {w₁ : Work} (listener master sigchld : Bool) (revents : List (ClientId × Bool)), w.Chats W w₁ →
      ∃ w', (w₁.handshakes W cfg inp).Chats W w' ∧
        Stage.From w' ((w₁.handshakes W cfg inp).afterHandshakes W cfg inp listener master sigchld revents) := by
    intro w₁ listener master sigchld revents hw₁
    have hshake : w₁.Moves W (w₁.handshakes W cfg inp) := Work.handshakes_moves _ hw₁.mid inp
    obtain ⟨w', hc, ⟨o, heq⟩ | heq⟩ :=
      Work.afterHandshakes_cases (W := W) cfg inp hshake.mid listener master sigchld revents
    · exact ⟨w', hc, heq ▸ .left o⟩
    · exact ⟨w', hc, heq ▸ .frames revents⟩
  unfold Work.afterPoll Work.toHandshakes
  cases inp.poll with
  | error => exact .inl ⟨rfl, w, _, .refl h, rfl⟩
  | interrupted =>
    obtain ⟨w', o, hc, heq⟩ := Work.interrupted_left (W := W) cfg inp h
    exact .inl ⟨rfl, w', o, hc, congrArg Stage.done heq⟩
  | timeout =>
    have hobs : w.Chats W (w.timeoutObserve W cfg inp) := Work.timeoutObserve_chats h inp
    dsimp only
    split
    · obtain ⟨w', hc, hfrom⟩ := hrest false false false [] hobs
      exact .inr ⟨_, w', rfl, hobs, hc, hfrom⟩
    · exact .inr ⟨_, _, rfl, hobs, .refl (Work.handshakes_moves (W := W) cfg hobs.mid inp).mid, .tick⟩
  | ready listener master readable sigchld =>
    obtain ⟨w', hc, hfrom⟩ := hrest listener master (sigchld && w.loc.sigchldPipe)
      (w.sess.clients.map fun ch => (ch.id, readable ch.id)) (.refl h)
    exact .inr ⟨w, w', rfl, .refl h, hc, hfrom⟩

end Cases

/-! ## The state at the top of a turn -/

def State.registry (st : State) : Registry := st.sess.registry st.loc.daemonState.lock.holder

structure State.Ok (st : State) : Prop where
  mid : Mid st.sess st.loc.daemonState st.loc.startupOverflow
  started : st.sess.upgradePending = true → st.loc.startupOverflow = []

/-- The work in hand in a turn that started in `st`. -/
structure Arrives (W : World) (st : State) (w : Work) : Prop where
  mid : w.Mid
  steps : Relation.ReflTransGen (Step (Encodes W)) st.registry w.registry
  startup : w.loc.startupOverflow = []

/-- A turn from `st` that moved the registry by its steps. -/
structure Turned (W : World) (st : State) (turn : Turn) : Prop where
  mid : Mid turn.1.sess turn.1.loc.daemonState []
  steps : Relation.ReflTransGen (Step (Encodes W)) st.registry turn.1.registry
  startup : turn.2 = none → turn.1.loc.startupOverflow = []

section Turns

variable {W : World} {cfg : Config} {inp : IterInput} {st : State} {w w' : Work}

theorem Arrives.trans (h : Arrives W st w) (h' : w.Moves W w') : Arrives W st w' :=
  ⟨h'.mid, h.steps.trans h'.steps, h'.startup.trans h.startup⟩

/-- At the top of a turn nothing is left of the last one. -/
theorem top_ok (hmid : Mid st.sess st.loc.daemonState []) (hst : st.loc.startupOverflow = []) : st.Ok :=
  ⟨hst.symm ▸ hmid, fun _ => hst⟩

theorem Arrives.left (h : Arrives W st w) (o : Option RelayOutcome) : Turned W st (w.leave o) :=
  ⟨h.mid.ignored, h.steps, fun _ => h.startup⟩

theorem flushClients_members (clients : List ClientHandle) (scripts : ClientId → List WriteResult) :
    (flushClients clients scripts).map (·.member) = clients.map (·.member) := by
  rw [flushClients, List.map_map]
  refine List.map_congr_left fun ch _ => ?_
  simp only [Function.comp_apply]
  split <;> rfl

/-- A write pass can fail a queue, and never revives one. -/
theorem flushSend_sent {ch : ClientHandle} (h : ch.OffersSent) (script : List WriteResult) :
    (ch.flushSend script).OffersSent := by
  intro hf o ho
  cases hq : ch.send.failed with
  | false => exact h hq o ho
  | true =>
    rw [ClientHandle.flushSend, SendQueue.writeTo_failed hq, hq] at hf
    cases hf

theorem flushClients_sent {clients : List ClientHandle} (h : ∀ ch ∈ clients, ch.OffersSent)
    (scripts : ClientId → List WriteResult) : ∀ ch ∈ flushClients clients scripts, ch.OffersSent := by
  intro ch' hch'
  obtain ⟨ch, hch, rfl⟩ := List.mem_map.1 hch'
  split
  · exact h ch hch
  · exact flushSend_sent (h ch hch) _

/-- Writing to the clients moves nobody. -/
theorem State.Ok.written (h : st.Ok) (inp : IterInput) {s : Session} (hc : s.clients = flushClients st.sess.clients inp.flush)
    (hn : s.nextClientId = st.sess.nextClientId) (hm : s.missed = st.sess.missed) :
    Mid s st.loc.daemonState st.loc.startupOverflow ∧ s.registry st.loc.daemonState.lock.holder = st.registry := by
  have hmem : s.clients.map (·.member) = st.sess.clients.map (·.member) := by rw [hc, flushClients_members]
  exact ⟨h.mid.of_members hmem (hc ▸ flushClients_sent h.mid.accounted.sent inp.flush) hn hm,
    by simp only [State.registry, Session.registry, hmem, hn]⟩

/-- Before `poll` nothing happens to the clients: the turn is over, or it has work in hand. -/
theorem beforePoll_spec (cfg : Config) (inp : IterInput) (h : st.Ok) :
    (∃ turn, beforePoll cfg inp st = .error turn ∧ Turned W st turn ∧
        turn.1.sess.clients = flushClients st.sess.clients inp.flush) ∨
      ∃ w, beforePoll cfg inp st = .ok w ∧ Arrives W st w ∧ w.sess.clients = flushClients st.sess.clients inp.flush := by
  unfold beforePoll
  dsimp only
  split <;> rename_i hup
  · refine .inl ⟨_, rfl, ?_⟩
    have hst := h.started hup
    obtain ⟨hmid, hreg⟩ := h.written inp (s := { st.sess with
      clients := flushClients st.sess.clients inp.flush
      closing := writeClosing st.sess.closing inp.closingWrites }) rfl rfl rfl
    rw [hst] at hmid
    unfold awaitUpgradeFlush
    dsimp only
    split <;> exact ⟨⟨hmid, hreg ▸ .refl, fun _ => hst⟩, rfl⟩
  · obtain ⟨hmid, hreg⟩ := h.written inp (s := { st.sess with
      clients := flushClients st.sess.clients inp.flush
      closing := advanceClosing inp.closingNow st.sess.closing inp.closingWrites }) rfl rfl rfl
    split
    · exact .inl ⟨_, rfl, ⟨hmid.ignored, hreg ▸ .refl, fun ho => nomatch ho⟩, rfl⟩
    · split
      · exact .inl ⟨_, rfl, ⟨((hmid.logs _).logs _).ignored, hreg ▸ .refl, fun ho => nomatch ho⟩, rfl⟩
      · exact .inr ⟨_, rfl, ⟨hmid, hreg ▸ .refl, rfl⟩, rfl⟩

/-- Dropping clients after the frames ends the turn. -/
theorem Arrives.frames (h : Arrives W st w) (revents : List (ClientId × Bool)) :
    Turned W st (w.frames W cfg inp revents) := by
  unfold Work.frames
  obtain ⟨hmid, hreg⟩ := Work.frameRun_mid (W := W) inp h.mid revents
  generalize w.frameRun W inp revents = r at hmid hreg ⊢
  obtain ⟨r, frames⟩ := r
  have hrun := FrameRun.run_chatted (W := W) cfg inp hmid frames
  have hdrop := (dropClients_stepped (W := W) (r := r.run W cfg inp frames) inp hrun.mid).1
  have hall := hrun.stepped.trans hdrop
  dsimp only at hreg hall ⊢
  generalize dropClients W inp (r.run W cfg inp frames) = dropped at hall ⊢
  obtain ⟨s, d⟩ := dropped
  dsimp only at hall ⊢
  exact ⟨hall.mid, h.steps.trans (hreg ▸ hall.steps), fun _ => h.startup⟩

/-- What the turn has done when it comes to its frames, or to the end of a poll timeout. -/
theorem beforeFrames_spec (cfg : Config) (inp : IterInput) (h : st.Ok) :
    match beforeFrames W cfg inp st with
    | .done turn => Turned W st turn
    | .tick w | .frames w _ => Arrives W st w := by
  have hfrom : ∀ {w : Work} {stage : Stage}, Arrives W st w → Stage.From w stage →
      match stage with
      | .done turn => Turned W st turn
      | .tick w | .frames w _ => Arrives W st w := by
    intro w stage harr hf
    cases hf with
    | left o => exact harr.left o
    | tick => exact harr
    | frames revents => exact harr
  unfold beforeFrames
  rcases beforePoll_spec (W := W) cfg inp h with ⟨turn, heq, hturn, -⟩ | ⟨w, heq, harr, -⟩
  · rw [heq]
    exact hturn
  · rw [heq]
    dsimp only
    rcases Work.afterPoll_cases (W := W) cfg inp harr.mid with
      ⟨-, w', o, hc, hw⟩ | ⟨w₁, w', -, hc, hc', hf⟩
    · rw [hw]
      exact (harr.trans hc.moves).left o
    · exact hfrom ((harr.trans hc.moves).trans ((Work.handshakes_moves _ hc.mid inp).trans hc'.moves)) hf

/-- Unless it ends a poll timeout, a turn moves the registry by its steps. -/
theorem iterate_turned (h : st.Ok) (hno : ∀ w, beforeFrames W cfg inp st ≠ .tick w) :
    Turned W st (iterate W cfg inp st) := by
  have hspec := beforeFrames_spec (W := W) cfg inp h
  unfold iterate
  generalize beforeFrames W cfg inp st = stage at hspec hno ⊢
  cases stage with
  | done turn => exact hspec
  | tick w => exact absurd rfl (hno w)
  | frames w revents => exact Arrives.frames hspec revents

/-- A poll timeout loses the clients that overflowed in it. -/
theorem iterate_tick (h : st.Ok) (hw : beforeFrames W cfg inp st = .tick w) :
    Arrives W st w ∧ (iterate W cfg inp st).1.Ok ∧ (iterate W cfg inp st).1.registry = w.registry.lose w.overflow ∧
      (iterate W cfg inp st).1.loc.startupOverflow = [] := by
  have harr := beforeFrames_spec (W := W) cfg inp h
  rw [hw] at harr
  have hit : iterate W cfg inp st = w.tick inp := by rw [iterate, hw]
  rw [hit]
  obtain ⟨hmid, hreg, -⟩ := tick_loses inp harr.mid
  exact ⟨harr, top_ok hmid harr.startup, hreg, harr.startup⟩

end Turns

/-! ## Entering the loop -/

section Enter

variable {W : World} {cfg : Config}

theorem transition_upgradePending (w : Work) (t : Option ChildTransition) :
    (w.transition W cfg t).sess.upgradePending = w.sess.upgradePending := by
  unfold Work.transition
  split
  · unfold notifyChildStopped
    dsimp only
    split <;> rfl
  · rfl
  · rfl
  · rfl

theorem observeChildTransition_upgradePending (cfg : Config) (w : Work) (evs : List ChildEvent) (now : Instant) :
    (observeChildTransition W cfg w evs now).sess.upgradePending = w.sess.upgradePending := by
  unfold observeChildTransition
  dsimp only
  rw [transition_upgradePending]
  split <;> rfl

/-- Entering the loop looks at the child, and may tell the clients of a stop. -/
theorem enterServeLoop_ok (cfg : Config) {s : Session} (e : EntryInput) (hmid : Mid s {} []) (hup : s.upgradePending = false) :
    (enterServeLoop W cfg e s).Ok ∧
      Relation.ReflTransGen (Chat (Encodes W)) (s.registry none) (enterServeLoop W cfg e s).registry := by
  have hobs : Work.Chats W { sess := s, loc := Locals.initial cfg e, overflow := [] } _ :=
    observeChildTransition_chats (W := W) cfg hmid e.childEvents e.now
  have hpending := observeChildTransition_upgradePending (W := W) cfg
    { sess := s, loc := Locals.initial cfg e, overflow := [] } e.childEvents e.now
  exact ⟨⟨hobs.mid, fun hp => absurd (hp.symm.trans (hpending.trans hup)) (by decide)⟩, hobs.chats⟩

/-- After an upgrade that failed the lock is free, and nobody was told. -/
theorem resumeServe_ok {s : Session} {d : DaemonState} (failure : UpgradeFailure) (e : EntryInput) (h : Mid s d []) :
    (resumeServe W cfg failure e s).Ok ∧
      Relation.ReflTransGen (Chat (Encodes W)) (s.registry d.lock.holder).restart (resumeServe W cfg failure e s).registry :=
  enterServeLoop_ok _ e
    ⟨h.sound.of_roles rfl (le_refl _), ⟨h.accounted.gap, h.accounted.missed, h.accounted.fresh, h.accounted.sent⟩,
    lock_ok_initial, idle_initial⟩ rfl

theorem initial_mid (nowMs : Instant) (resumeScrollback : Bytes) (child : ChildProcess) :
    Mid (Session.initial cfg nowMs resumeScrollback child) {} [] where
  sound := ⟨List.nodup_nil, by simp [Session.registry, Session.initial], by simp [Session.registry, Session.initial],
    by simp [Session.registry, Session.initial]⟩
  accounted := ⟨by simp [Session.initial], by simp [Session.initial], by simp [Session.initial], by simp [Session.initial]⟩
  lock := lock_ok_initial
  idle := idle_initial

end Enter

/-! ## Runs -/

/-- A turn after which the loop goes on, or one that hands over to an upgrade that fails. -/
inductive Move where
  | turn (inp : IterInput)
  | retry (inp : IterInput) (failure : UpgradeFailure) (e : EntryInput)

/-- The input of the turn a move begins with. -/
def Move.input : Move → IterInput
  | .turn inp | .retry inp _ _ => inp

/-- The serve loop of a session. The child it starts with, or takes over, has not been reaped. -/
def loop (W : World) (cfg : Config) : System State Move where
  init st := ∃ e nowMs resumeScrollback child, child.reaped = none ∧
    st = enterServeLoop W cfg e (Session.initial cfg nowMs resumeScrollback child)
  step st
    | .turn inp =>
      match iterate W cfg inp st with
      | (st', none) => some st'
      | (_, some _) => none
    | .retry inp failure e =>
      match iterate W cfg inp st with
      | (st', some .upgradeRequested) => some (resumeServe W cfg failure e st'.sess)
      | _ => none

/-- The serve loop from this state on. -/
def loopFrom (W : World) (cfg : Config) (start : State) : System State Move := { loop W cfg with init := (· = start) }

theorem loopFrom_reachable {W : World} {cfg : Config} {start st : State} (hstart : (loop W cfg).Reachable start)
    (h : (loopFrom W cfg start).Reachable st) : (loop W cfg).Reachable st := by
  induction h with
  | init hi =>
    obtain rfl : _ = start := hi
    exact hstart
  | step _ _ hstep ih => exact .step ih trivial hstep

/-- A turn that ends as a poll timeout ends with work `p` holds of. -/
def Stage.AtTick (p : Work → Prop) : Stage → Prop
  | .tick w => p w
  | .done _ | .frames _ _ => True

instance {p : Work → Prop} [DecidablePred p] : (stage : Stage) → Decidable (stage.AtTick p)
  | .tick w => inferInstanceAs (Decidable (p w))
  | .done _ | .frames _ _ => isTrue trivial

section Runs

variable {W : World} {cfg : Config} {st st' : State}

theorem loop_turn {inp : IterInput} (h : (loop W cfg).step st (.turn inp) = some st') :
    iterate W cfg inp st = (st', none) := by
  simp only [loop] at h
  split at h
  · rename_i heq
    rw [heq, Option.some.inj h]
  · cases h

theorem loop_retry {inp : IterInput} {failure : UpgradeFailure} {e : EntryInput}
    (h : (loop W cfg).step st (.retry inp failure e) = some st') :
    ∃ st₁, iterate W cfg inp st = (st₁, some .upgradeRequested) ∧ st' = resumeServe W cfg failure e st₁.sess := by
  simp only [loop] at h
  split at h
  · rename_i st₁ heq
    exact ⟨st₁, heq, (Option.some.inj h).symm⟩
  · cases h

/-- Chats leave the list of clients as long as it is. -/
theorem registry_length {s s' : Session} {holder holder' : Option ClientId} {e : Prop}
    (h : Relation.ReflTransGen (Chat e) (s.registry holder) (s'.registry holder')) :
    s'.clients.length = s.clients.length := by
  have hids := congrArg List.length (chats_ids h)
  simpa only [Session.registry, List.length_map] using hids

theorem loop_init (h : (loop W cfg).init st) :
    st.Ok ∧ Relation.ReflTransGen (Chat (Encodes W)) { members := [], holder := none, nextId := 0 } st.registry := by
  obtain ⟨e, nowMs, resumeScrollback, child, -, rfl⟩ := h
  exact enterServeLoop_ok _ e (initial_mid nowMs resumeScrollback child) rfl

/-- A turn that hands over to an upgrade does not end a poll timeout. -/
theorem upgrade_turned {inp : IterInput} {st₁ : State} (h : st.Ok)
    (hit : iterate W cfg inp st = (st₁, some .upgradeRequested)) : Turned W st (st₁, some .upgradeRequested) := by
  have hno : ∀ w, beforeFrames W cfg inp st ≠ .tick w := by
    intro w hw
    rw [iterate, hw] at hit
    cases hit
  exact hit ▸ iterate_turned h hno

theorem loop_ok {ok : State → Move → Prop} (h : (loop W cfg).Reach ok st) : st.Ok := by
  refine h.inv State.Ok (fun st hi => (loop_init hi).1) ?_
  intro st mv st' _ hok _ hstep
  cases mv with
  | turn inp =>
    have hit := loop_turn hstep
    by_cases hw : ∃ w, beforeFrames W cfg inp st = .tick w
    · obtain ⟨w, hw⟩ := hw
      have hok' := (iterate_tick hok hw).2.1
      rwa [hit] at hok'
    · have hturned : Turned W st (iterate W cfg inp st) := iterate_turned hok fun w hw' => hw ⟨w, hw'⟩
      rw [hit] at hturned
      exact top_ok hturned.mid (hturned.startup rfl)
  | retry inp failure e =>
    obtain ⟨st₁, hit, rfl⟩ := loop_retry hstep
    exact (resumeServe_ok failure e (upgrade_turned hok hit).mid).1

/-- A client that never overflowed was sent all it was offered, unless its socket failed. -/
theorem offers_sent {ok : State → Move → Prop} (h : (loop W cfg).Reach ok st) {ch : ClientHandle}
    (hch : ch ∈ st.sess.clients) (ho : ch.overflowed = false) (hf : ch.send.failed = false) :
    ∀ o ∈ ch.offers, o.outcome = .sent := by
  intro o hmem
  have hsent := (loop_ok h).mid.accounted.sent ch hch hf o hmem
  have hroom : o.outcome ≠ .overflow := fun hov =>
    absurd (List.any_eq_true.2 ⟨o, hmem, decide_eq_true hov⟩) (by rw [← ClientHandle.overflowed, ho]; decide)
  cases hout : o.outcome with
  | sent => rfl
  | overflow => exact absurd hout hroom
  | sendFailed => exact absurd hout hsent

/-- What holds of the empty registry and is kept by its steps holds in every run whose timeouts
and failed upgrades keep it. -/
theorem loop_registry {ok : State → Move → Prop} (I : Registry → Prop)
    (h0 : I { members := [], holder := none, nextId := 0 })
    (hstep : ∀ r r', Sound r → Step (Encodes W) r r' → I r → I r')
    (hlose : ∀ st inp w, ok st (.turn inp) → beforeFrames W cfg inp st = .tick w → Sound w.registry →
      I w.registry → I (w.registry.lose w.overflow))
    (hrestart : ∀ st inp failure e st₁, ok st (.retry inp failure e) →
      iterate W cfg inp st = (st₁, some .upgradeRequested) → I st₁.registry → I st₁.registry.restart)
    (h : (loop W cfg).Reach ok st) : I st.registry := by
  have hsteps : ∀ {r r' : Registry}, Relation.ReflTransGen (Step (Encodes W)) r r' → Sound r → I r →
      Sound r' ∧ I r' := by
    intro r r' hrun hs hI
    induction hrun with
    | refl => exact ⟨hs, hI⟩
    | tail _ hst ih => exact ⟨hst.sound ih.1, hstep _ _ ih.1 hst ih.2⟩
  have hchats : ∀ {r r' : Registry}, Relation.ReflTransGen (Chat (Encodes W)) r r' → Sound r → I r → I r' :=
    fun hrun hs hI => (hsteps (Relation.ReflTransGen.mono (fun _ _ hc => Step.chat hc) _ _ hrun) hs hI).2
  refine h.inv (fun st => I st.registry) (fun st hi => ?_) ?_
  · refine hchats (loop_init hi).2 ⟨List.nodup_nil, ?_, ?_, ?_⟩ h0 <;> simp
  · intro st mv st' hr hI hok hst
    have hOk := loop_ok hr
    cases mv with
    | turn inp =>
      have hit := loop_turn hst
      by_cases hw : ∃ w, beforeFrames W cfg inp st = .tick w
      · obtain ⟨w, hw⟩ := hw
        obtain ⟨harr, -, hreg, -⟩ := iterate_tick hOk hw
        rw [hit] at hreg
        obtain ⟨hs, hIw⟩ := hsteps harr.steps hOk.mid.sound hI
        exact hreg ▸ hlose st inp w hok hw hs hIw
      · have hturned : Turned W st (iterate W cfg inp st) := iterate_turned hOk fun w hw' => hw ⟨w, hw'⟩
        rw [hit] at hturned
        exact (hsteps hturned.steps hOk.mid.sound hI).2
    | retry inp failure e =>
      obtain ⟨st₁, hit, rfl⟩ := loop_retry hst
      have hturned := upgrade_turned hOk hit
      obtain ⟨hs, hI₁⟩ := hsteps hturned.steps hOk.mid.sound hI
      refine hchats (resumeServe_ok failure e hturned.mid).2 (hs.of_roles rfl (le_refl _)) ?_
      exact hrestart st inp failure e st₁ hok hit hI₁

end Runs

end Hyoui.Daemon
