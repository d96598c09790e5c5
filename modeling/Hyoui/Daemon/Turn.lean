import Hyoui.Daemon.Attach
import Hyoui.Daemon.Session
/-!
# The phases of a turn

Each phase of the serve loop's turn keeps `Mid` and moves the registry: by `Chat` steps where
nobody comes or goes, by any `Step` where handshakes complete or clients are dropped. The one
exception is the end of a poll timeout, which loses its overflowed clients (`Registry.lose`).
-/

namespace Hyoui.Daemon

open Hyoui.Protocol Hyoui.Lib

/-- The registry of the work in hand. -/
def Work.registry (w : Work) : Registry := w.sess.registry w.loc.daemonState.lock.holder

abbrev Work.Mid (w : Work) : Prop := Daemon.Mid w.sess w.loc.daemonState w.overflow

/-- A phase that leaves everybody where they are. -/
structure Work.Chats (W : World) (w w' : Work) : Prop where
  mid : w'.Mid
  chats : Relation.ReflTransGen (Chat (Encodes W)) w.registry w'.registry
  startup : w'.loc.startupOverflow = w.loc.startupOverflow

/-- A phase in which clients may come and go. -/
structure Work.Moves (W : World) (w w' : Work) : Prop where
  mid : w'.Mid
  steps : Relation.ReflTransGen (Step (Encodes W)) w.registry w'.registry
  startup : w'.loc.startupOverflow = w.loc.startupOverflow

section Work

variable {W : World} {w w' w'' : Work}

theorem Work.Chats.refl (h : w.Mid) : w.Chats W w := ⟨h, .refl, rfl⟩

theorem Work.Chats.trans (h : w.Chats W w') (h' : w'.Chats W w'') : w.Chats W w'' :=
  ⟨h'.mid, h.chats.trans h'.chats, h'.startup.trans h.startup⟩

theorem Work.Chats.moves (h : w.Chats W w') : w.Moves W w' :=
  ⟨h.mid, Relation.ReflTransGen.mono (fun _ _ hc => Step.chat hc) _ _ h.chats, h.startup⟩

theorem Work.Moves.trans (h : w.Moves W w') (h' : w'.Moves W w'') : w.Moves W w'' :=
  ⟨h'.mid, h.steps.trans h'.steps, h'.startup.trans h.startup⟩

theorem Work.Chats.ids (h : w.Chats W w') : w'.sess.clients.map (·.id) = w.sess.clients.map (·.id) := by
  have hids := chats_ids h.chats
  simp only [Work.registry, Session.registry, List.map_map] at hids
  exact hids

theorem Work.Chats.length (h : w.Chats W w') : w'.sess.clients.length = w.sess.clients.length := by
  have hlen := congrArg List.length h.ids
  rwa [List.length_map, List.length_map] at hlen

/-- A phase that touches neither the clients nor what the reducer knows. -/
theorem Work.Chats.congr (h : w.Mid) (hc : w'.sess.clients = w.sess.clients)
    (hn : w'.sess.nextClientId = w.sess.nextClientId) (hm : w'.sess.missed = w.sess.missed)
    (hd : w'.loc.daemonState = w.loc.daemonState) (ho : w'.overflow = w.overflow)
    (hst : w'.loc.startupOverflow = w.loc.startupOverflow) : w.Chats W w' := by
  have hreg : w'.registry = w.registry := by simp only [Work.registry, Session.registry, hc, hn, hd]
  refine ⟨?_, hreg ▸ .refl, hst⟩
  unfold Work.Mid
  rw [hd, ho]
  exact h.congr hc hn hm

/-- A phase in which the clients are offered plain frames, and who overflows is reported. -/
theorem Work.Chats.talks {ov : List ClientId} (h : w.Mid) (ht : Talks (·.plain = true) ov w.sess w'.sess)
    (hd : w'.loc.daemonState = w.loc.daemonState) (ho : w'.overflow = w.overflow ++ ov)
    (hst : w'.loc.startupOverflow = w.loc.startupOverflow) : w.Chats W w' := by
  have hc : Chatted W w.sess w.loc.daemonState w'.sess w.loc.daemonState (w.overflow ++ ov) :=
    Talks.quiet_chatted h ht.quiet rfl h.idle
  rw [← ho, ← hd] at hc
  exact ⟨hc.mid, by rw [Work.registry, ← hd]; exact hc.chats, hst⟩

end Work

/-! ## The child -/

section Child

variable {W : World} {cfg : Config} {w : Work}

theorem notifyChildStopped_talks (s : Session) (sig : Signal) :
    Talks (·.plain = true) (notifyChildStopped W cfg s sig).2 s (notifyChildStopped W cfg s sig).1 := by
  unfold notifyChildStopped
  dsimp only
  split
  · exact .same rfl rfl rfl rfl
  · refine ⟨?_, rfl, rfl, ⟨[], (List.append_nil _).symm, by simp⟩⟩
    simp only [List.map_map]
    refine forall₂_map_of fun ch hch => ?_
    simp only [Function.comp_apply]
    split <;> rename_i hskip
    · exact .refl ch
    · refine (offer_spoke ch _ _ fun ho => ?_).mono (by rintro _ rfl; rfl) fun _ hid => hid
      -- whatever is not `sent` is reported
      refine List.mem_append_right _ (List.mem_filterMap.2 ⟨_, List.mem_map_of_mem hch, ?_⟩)
      simp only [if_neg hskip, sendControl, ho]
      rw [if_neg (by simp)]
      exact congrArg some (offer_id ch _ _)

theorem Work.pollChild_chats (h : w.Mid) (evs : List ChildEvent) : w.Chats W (w.pollChild evs).1 :=
  .congr h rfl rfl rfl rfl rfl rfl

theorem Work.transition_chats (h : w.Mid) (t : Option ChildTransition) : w.Chats W (w.transition W cfg t) := by
  unfold Work.transition
  split
  · exact .talks h (notifyChildStopped_talks w.sess _) rfl rfl rfl
  · exact .congr h rfl rfl rfl rfl rfl rfl
  · exact .refl h
  · exact .refl h

theorem deferChildExit_same (l : Locals) (now : Instant) (code : Option Int) :
    (deferChildExit l now code).daemonState = l.daemonState ∧
      (deferChildExit l now code).startupOverflow = l.startupOverflow := by
  unfold deferChildExit
  split <;> exact ⟨rfl, rfl⟩

theorem observeChildTransition_chats (cfg : Config) (h : w.Mid) (evs : List ChildEvent) (now : Instant) :
    w.Chats W (observeChildTransition W cfg w evs now) := by
  unfold observeChildTransition
  have hpoll : w.Chats W (w.pollChild evs).1 := Work.pollChild_chats h evs
  generalize w.pollChild evs = r at hpoll ⊢
  obtain ⟨w₁, childState, transition⟩ := r
  dsimp only at hpoll ⊢
  cases childState with
  | exited code =>
    have hdefer : w₁.Chats W { w₁ with loc := deferChildExit w₁.loc now code } :=
      .congr hpoll.mid rfl rfl rfl (deferChildExit_same _ _ _).1 rfl (deferChildExit_same _ _ _).2
    exact (hpoll.trans hdefer).trans (Work.transition_chats hdefer.mid transition)
  | alive => exact hpoll.trans (Work.transition_chats hpoll.mid transition)
  | stopped => exact hpoll.trans (Work.transition_chats hpoll.mid transition)

theorem handleSuspendSignals_same (lifecycle : ChildLifecycle) (sigs : List (Signal × List ChildEvent))
    (s : Session) :
    (handleSuspendSignals lifecycle sigs s).1.clients = s.clients ∧
      (handleSuspendSignals lifecycle sigs s).1.nextClientId = s.nextClientId ∧
      (handleSuspendSignals lifecycle sigs s).1.missed = s.missed := by
  induction sigs generalizing s with
  | nil => exact ⟨rfl, rfl, rfl⟩
  | cons se rest ih =>
    obtain ⟨sig, evs⟩ := se
    unfold handleSuspendSignals
    dsimp only
    split
    · split
      · exact ih _
      · obtain ⟨hc, hn, hm⟩ := ih (if (childIsStoppedViaWaitpid (s.child.events evs)).2 = true then
          { s with child := (childIsStoppedViaWaitpid (s.child.events evs)).1 }.logs (.killPgrp sigCont)
          else { s with child := (childIsStoppedViaWaitpid (s.child.events evs)).1 })
        refine ⟨hc.trans ?_, hn.trans ?_, hm.trans ?_⟩ <;> split <;> rfl
    · split
      · exact ih _
      · split
        · exact ⟨rfl, rfl, rfl⟩
        · exact ih _

theorem Work.drainSignals_chats (h : w.Mid) (inp : IterInput) : w.Chats W (w.drainSignals inp).1 := by
  unfold Work.drainSignals
  split
  · obtain ⟨hc, hn, hm⟩ := handleSuspendSignals_same w.loc.lifecycle inp.signals w.sess
    dsimp only
    split <;> exact .congr h hc hn hm rfl rfl rfl
  · exact .refl h

theorem Work.timeoutObserve_chats (h : w.Mid) (inp : IterInput) : w.Chats W (w.timeoutObserve W cfg inp) := by
  unfold Work.timeoutObserve
  split
  · have hobs : w.Chats W (observeChildTransition W cfg w inp.childBeforeObserve inp.observeNow) :=
      observeChildTransition_chats _ h _ _
    dsimp only
    split
    · exact hobs.trans (.congr hobs.mid rfl rfl rfl rfl rfl rfl)
    · exact hobs
  · exact .refl h

theorem Work.sigchld_chats (h : w.Mid) (inp : IterInput) (ready : Bool) :
    w.Chats W (w.sigchld W cfg inp ready).1 := by
  unfold Work.sigchld
  split
  · have hdrain : w.Chats W (w.drainSignals inp).1 := Work.drainSignals_chats h inp
    generalize w.drainSignals inp = r at hdrain ⊢
    obtain ⟨w₁, flow⟩ := r
    cases flow with
    | go => exact hdrain.trans (observeChildTransition_chats _ hdrain.mid _ _)
    | again => exact hdrain
    | ret o => exact hdrain
  · exact .refl h

end Child

/-! ## Connections and output -/

section Phases

variable {W : World} {cfg : Config} {w : Work}

theorem Work.listen_chats (h : w.Mid) (inp : IterInput) (ready : Bool) : w.Chats W (w.listen inp ready).1 := by
  unfold Work.listen
  split
  · split
    · exact .refl h
    · split
      · exact .congr h rfl rfl rfl rfl rfl rfl
      · exact .refl h
  · exact .refl h

theorem Work.masterEof_chats (h : w.Mid) (inp : IterInput) : w.Chats W (w.masterEof W cfg inp) := by
  unfold Work.masterEof
  split
  · exact .congr h rfl rfl rfl rfl rfl rfl
  · have hpoll : w.Chats W (w.pollChild inp.childBeforeRead).1 := Work.pollChild_chats h _
    generalize w.pollChild inp.childBeforeRead = r at hpoll ⊢
    obtain ⟨w₁, childState, transition⟩ := r
    dsimp only at hpoll ⊢
    have htrans : w₁.Chats W (w₁.transition W cfg transition) := Work.transition_chats hpoll.mid transition
    refine (hpoll.trans htrans).trans ?_
    cases childState with
    | exited code => exact .congr htrans.mid rfl rfl rfl (deferChildExit_same _ _ _).1 rfl (deferChildExit_same _ _ _).2
    | alive => exact .refl htrans.mid
    | stopped => exact .refl htrans.mid

theorem broadcastMasterBytes_talks (s : Session) (bytes : Bytes) (tsMs : Int) :
    Talks (·.plain = true) (broadcastMasterBytes W s.clients bytes tsMs).2 s
      { s with clients := (broadcastMasterBytes W s.clients bytes tsMs).1 } := by
  refine broadcastWith_talks s _ (fun ch item payload hsel => ?_) fun _ hp => hp
  split at hsel
  · simp only [Option.map_eq_some_iff, Prod.mk.injEq] at hsel
    obtain ⟨_, -, rfl, -⟩ := hsel
    rfl
  · simp only [Option.map_eq_some_iff, Prod.mk.injEq] at hsel
    obtain ⟨_, -, rfl, -⟩ := hsel
    rfl

theorem Work.masterBytes_chats (h : w.Mid) (inp : IterInput) (bytes : Bytes) :
    w.Chats W (w.masterBytes W inp bytes).1 := by
  have hsame : Talks (·.plain = true) [] w.sess (w.sess.takeOutput inp.readNow bytes) := .same rfl rfl rfl rfl
  have htalks := hsame.then (broadcastMasterBytes_talks (W := W) _ bytes inp.unixMs)
  unfold Work.masterBytes
  dsimp only
  split
  · split
    · exact .talks h (htalks.after rfl rfl rfl rfl) rfl rfl rfl
    · exact .talks h htalks rfl rfl rfl
  · exact .talks h htalks rfl rfl rfl

theorem Work.master_chats (h : w.Mid) (inp : IterInput) (ready : Bool) :
    w.Chats W (w.master W cfg inp ready).1 := by
  unfold Work.master
  split
  · split
    · exact Work.masterEof_chats h inp
    · exact Work.masterEof_chats h inp
    · exact Work.masterEof_chats h inp
    · exact Work.masterBytes_chats h inp _
    · exact .refl h
    · exact .refl h
  · exact .refl h

/-! ## Handshakes -/

theorem redrawClient_spoke {known : List ClientId} (screen : Screen) (clients : List ClientHandle) (id : ClientId) :
    List.Forall₂ (Spoke (·.plain = true) known) clients (redrawClient W screen clients id) := by
  unfold redrawClient
  split
  · exact forall₂_modify Spoke.refl (fun ch => sendInitialAttachRedraw_spoke ch screen) _ _
  · exact List.forall₂_same.2 fun ch _ => .refl ch

theorem flushPendingRedraws_talks (s : Session) : Talks (·.plain = true) [] s (flushPendingRedraws W s) := by
  unfold flushPendingRedraws
  split
  · exact .refl s
  · refine ⟨?_, rfl, rfl, ⟨[], (List.append_nil _).symm, by simp⟩⟩
    dsimp only
    generalize s.clients = clients
    induction s.pendingRedraws generalizing clients with
    | nil => exact List.forall₂_same.2 fun ch _ => .refl ch
    | cons id ids ih =>
      exact forall₂_trans (fun _ _ _ hs hs' => hs.trans hs') (redrawClient_spoke s.screen clients id) (ih _)

theorem Work.handshakes_moves (cfg : Config) (h : w.Mid) (inp : IterInput) : w.Moves W (w.handshakes W cfg inp) := by
  unfold Work.handshakes
  have hst := processPendingHandshakes_stepped (W := W) cfg inp.handshakeNow inp.unixMs h [] w.loc.pendingHandshakes inp.handshakes
  generalize processPendingHandshakes W cfg inp.handshakeNow inp.unixMs w.sess w.loc.daemonState []
    w.loc.pendingHandshakes inp.handshakes w.overflow = r at hst ⊢
  obtain ⟨s, d, pending, overflow⟩ := r
  dsimp only at hst ⊢
  have hw : w.Moves W { w with sess := s, loc := { w.loc with daemonState := d, pendingHandshakes := pending }, overflow } :=
    ⟨hst.mid, hst.steps, rfl⟩
  refine hw.trans (Work.Chats.moves (.talks hw.mid (flushPendingRedraws_talks s) rfl ?_ rfl))
  exact (List.append_nil _).symm

end Phases

/-! ## Frames -/

/-- In the middle of the frames: the clients to be dropped account for the overflows so far. -/
abbrev FrameRun.Mid (r : FrameRun) : Prop :=
  Daemon.Mid r.sess r.daemonState (keysAt (·.id) r.indicesToDrop r.sess.clients)

section Frames

variable {W : World} {cfg : Config} {inp : IterInput}

theorem keysAt_append (idxs more : List Nat) (l : List ClientHandle) :
    keysAt (·.id) (idxs ++ more) l = keysAt (·.id) idxs l ++ keysAt (·.id) more l :=
  List.filterMap_append

/-- Receiving touches the decoder only. -/
theorem receiveClientFrame_same (ch : ClientHandle) (readable : Bool) (recv : RecvResult) :
    ∃ decoder, (receiveClientFrame W ch readable recv).1 = { ch with decoder } := by
  have htake : ∀ d : FrameDecoder, ∃ decoder, (takeFrame W { ch with decoder := d }).1 = { ch with decoder } := by
    intro d
    unfold takeFrame
    split <;> exact ⟨_, rfl⟩
  unfold receiveClientFrame
  split
  · exact htake ch.decoder
  · split
    · exact ⟨_, rfl⟩
    · split
      · exact ⟨_, rfl⟩
      · exact ⟨_, rfl⟩
      · exact ⟨_, rfl⟩
      · exact htake _

theorem collectFrames_same (recv : ClientId → RecvResult) (idx : Nat) (clients : List ClientHandle)
    (revents : List (ClientId × Bool)) :
    List.Forall₂ (fun ch ch' : ClientHandle => ∃ decoder, ch' = { ch with decoder }) clients
      (collectFrames W recv idx clients revents).1 := by
  induction clients generalizing idx revents with
  | nil => exact .nil
  | cons ch chs ih =>
    unfold collectFrames
    exact .cons (receiveClientFrame_same ch _ _) (ih _ _)

/-- A frame is collected from a client that is there. -/
theorem collectFrames_index {recv : ClientId → RecvResult} {idx i : Nat} {clients : List ClientHandle}
    {revents : List (ClientId × Bool)} {fre : FrameOrError} (h : (i, fre) ∈ (collectFrames W recv idx clients revents).2) :
    idx ≤ i ∧ i < idx + clients.length := by
  induction clients generalizing idx revents with
  | nil => cases h
  | cons ch chs ih =>
    unfold collectFrames at h
    dsimp only at h
    have hrest : ∀ {rs : List (ClientId × Bool)}, (i, fre) ∈ (collectFrames W recv (idx + 1) chs rs).2 →
        idx ≤ i ∧ i < idx + (ch :: chs).length := by
      intro rs hmem
      have hi := ih hmem
      rw [List.length_cons]
      omega
    split at h
    · rcases List.mem_cons.1 h with heq | h
      · obtain ⟨rfl, -⟩ := Prod.mk.inj heq
        rw [List.length_cons]
        omega
      · exact hrest h
    · exact hrest h

/-- Without its queues and decoders a client is a member, and `Mid` is about the members. -/
theorem Mid.of_members {s s' : Session} {d : DaemonState} {ov : List ClientId} (h : Mid s d ov)
    (hc : s'.clients.map (·.member) = s.clients.map (·.member)) (hsent : ∀ ch ∈ s'.clients, ch.OffersSent)
    (hn : s'.nextClientId = s.nextClientId) (hm : s'.missed = s.missed) : Mid s' d ov := by
  have hmem : ∀ ch' ∈ s'.clients, ∃ ch ∈ s.clients, ch.member = ch'.member := fun ch' hch' =>
    List.mem_map.1 (hc ▸ List.mem_map_of_mem (f := fun c : ClientHandle => c.member) hch')
  refine ⟨?_, ⟨fun ch' hch' ho => ?_, fun ch' hch' hid => ?_, by rw [hm, hn]; exact h.accounted.fresh, hsent⟩,
    h.lock, h.idle⟩
  · have hreg : s'.registry d.lock.holder = s.registry d.lock.holder := by simp only [Session.registry, hc, hn]
    exact hreg ▸ h.sound
  · obtain ⟨ch, hch, heq⟩ := hmem ch' hch'
    have hid : ch.id = ch'.id := congrArg Member.id heq
    rw [← hid, hm]
    exact h.accounted.gap ch hch ((congrArg Member.gap heq).trans ho)
  · obtain ⟨ch, hch, heq⟩ := hmem ch' hch'
    have hid' : ch.id = ch'.id := congrArg Member.id heq
    exact (congrArg Member.gap heq).symm.trans (h.accounted.missed ch hch (hid' ▸ hm ▸ hid))

/-- Ids looked up as indices and back are the ids that are attached. -/
theorem indicesOf_keys {s : Session} (hn : (s.clients.map (·.id)).Nodup) (ids : List ClientId) {ch : ClientHandle}
    (hch : ch ∈ s.clients) : ch.id ∈ keysAt (·.id) (s.indicesOf ids) s.clients ↔ ch.id ∈ ids := by
  obtain ⟨i, hi⟩ := List.mem_iff_getElem?.1 hch
  simp only [keysAt, Session.indicesOf, List.mem_filterMap, Option.map_eq_some_iff]
  constructor
  · rintro ⟨j, ⟨id, hid, hj⟩, c, hc, he⟩
    obtain ⟨hlt, hp, -⟩ := List.findIdx?_eq_some_iff_getElem.1 hj
    have hcj : s.clients[j] = c := by rwa [List.getElem?_eq_getElem hlt, Option.some.injEq] at hc
    rw [← he, ← hcj, of_decide_eq_true hp]
    exact hid
  · intro hid
    exact ⟨i, ⟨ch.id, hid, findIdx?_key hn hi⟩, ch, hi, rfl⟩

/-- Clients to be dropped by id are dropped by index. -/
theorem Mid.indexed {s : Session} {d : DaemonState} {ov : List ClientId} (h : Mid s d ov) :
    Mid s d (keysAt (·.id) (s.indicesOf ov) s.clients) := by
  refine ⟨h.sound, { h.accounted with gap := fun ch hch ho => ?_ }, h.lock, h.idle⟩
  exact (h.accounted.gap ch hch ho).imp_right (indicesOf_keys h.ids ov hch).2

theorem Work.frameRun_mid (inp : IterInput) {w : Work} (h : w.Mid) (revents : List (ClientId × Bool)) :
    (w.frameRun W inp revents).1.Mid ∧
      (w.frameRun W inp revents).1.sess.registry (w.frameRun W inp revents).1.daemonState.lock.holder = w.registry := by
  have hall := collectFrames_same (W := W) inp.recv 0 w.sess.clients revents
  have hsame : (collectFrames W inp.recv 0 w.sess.clients revents).1.map (·.member) = w.sess.clients.map (·.member) :=
    forall₂_map_eq (by rintro ch _ ⟨decoder, rfl⟩; rfl) hall
  unfold Work.frameRun
  dsimp only
  refine ⟨Mid.indexed (h.of_members hsame (fun ch' hch' => ?_) rfl rfl), ?_⟩
  · obtain ⟨ch, hch, decoder, rfl⟩ := forall₂_mem_right hall hch'
    exact h.accounted.sent ch hch
  · simp only [Work.registry, Session.registry, hsame]

theorem Chatted.dropping {s s' : Session} {d d' : DaemonState} {idxs more : List Nat}
    (h : Chatted W s d s' d' (keysAt (·.id) idxs s.clients ++ keysAt (·.id) more s.clients)) :
    Chatted W s d s' d' (keysAt (·.id) (idxs ++ more) s'.clients) := by
  rw [keysAt_congr h.ids, keysAt_append]
  exact h

theorem FrameRun.step_chatted (cfg : Config) (inp : IterInput) {r : FrameRun} (h : r.Mid) (idx : Nat) (fre : FrameOrError) :
    Chatted W r.sess r.daemonState (r.step W cfg inp idx fre).sess (r.step W cfg inp idx fre).daemonState
      (keysAt (·.id) (r.step W cfg inp idx fre).indicesToDrop (r.step W cfg inp idx fre).sess.clients) := by
  unfold FrameRun.step
  split
  · exact .refl h
  · split
    · exact ((Chatted.refl h).more fun _ hid => List.mem_append_left _ hid).dropping
    · rename_i frame
      dsimp only
      have hframe := handleClientFrame_chatted (W := W) cfg idx h
        (inp.frameEnv ((r.sess.clients[idx]?).elim 0 (·.id))) frame
      generalize handleClientFrame W cfg _ r.sess r.daemonState idx frame = res at hframe ⊢
      obtain ⟨s, d, outcome⟩ := res
      have hsame : ∀ {ids : List ClientId}, (∀ id ∈ ids, id ∈ keysAt (·.id) r.indicesToDrop r.sess.clients) →
          Chatted W r.sess r.daemonState s d ids →
          Chatted W r.sess r.daemonState s d (keysAt (·.id) r.indicesToDrop s.clients) := by
        intro ids hsub hc
        rw [keysAt_congr hc.ids]
        exact hc.more hsub
      cases outcome with
      | «continue» => exact hsame (by simp [dropIds]) hframe
      | terminateSession o => exact hsame (by simp [dropIds]) hframe
      | dropClient => exact Chatted.dropping hframe
      | dropClients indices cancelPending => exact Chatted.dropping hframe

theorem FrameRun.run_chatted (cfg : Config) (inp : IterInput) {r : FrameRun} (h : r.Mid) (frames : List (Nat × FrameOrError)) :
    Chatted W r.sess r.daemonState (r.run W cfg inp frames).sess (r.run W cfg inp frames).daemonState
      (keysAt (·.id) (r.run W cfg inp frames).indicesToDrop (r.run W cfg inp frames).sess.clients) := by
  induction frames generalizing r with
  | nil => exact .refl h
  | cons f frames ih =>
    have hstep : Chatted W r.sess r.daemonState _ _ _ := FrameRun.step_chatted cfg inp h f.1 f.2
    exact hstep.trans (ih hstep.mid)

end Frames

/-! ## Dropping -/

section Drop

variable {W : World} {cfg : Config} {inp : IterInput}

theorem mem_descending {n i : Nat} {indices : List Nat} : i ∈ descending n indices ↔ i < n ∧ i ∈ indices := by
  simp [descending]

theorem descending_keys (indices : List Nat) (clients : List ClientHandle) (id : ClientId) :
    id ∈ keysAt (·.id) (descending clients.length indices) clients ↔ id ∈ keysAt (·.id) indices clients := by
  simp only [keysAt, List.mem_filterMap, mem_descending, Option.map_eq_some_iff]
  constructor
  · rintro ⟨i, ⟨-, hi⟩, ch, hch, rfl⟩
    exact ⟨i, hi, ch, hch, rfl⟩
  · rintro ⟨i, hi, ch, hch, rfl⟩
    exact ⟨i, ⟨(List.getElem?_eq_some_iff.1 hch).1, hi⟩, ch, hch, rfl⟩

theorem descending_pairwise (n : Nat) (indices : List Nat) : (descending n indices).Pairwise (· > ·) :=
  range_descending (· ∈ indices) n

/-- After the frames everybody who is accounted for by an index goes, and nobody else. -/
theorem dropClients_stepped (inp : IterInput) {r : FrameRun} (h : r.Mid) :
    Stepped W r.sess r.daemonState (dropClients W inp r).1 (dropClients W inp r).2 [] ∧
      (dropClients W inp r).1.clients.map (·.id) =
        (r.sess.clients.filter (·.id ∉ keysAt (·.id) r.indicesToDrop r.sess.clients)).map (·.id) := by
  unfold dropClients
  dsimp only
  have hr := detachClients_remains inp.dropNow h
    (descending_pairwise r.sess.clients.length r.indicesToDrop)
  have hgone : r.sess.clients.filter (·.id ∉ keysAt (·.id) r.indicesToDrop r.sess.clients) =
      r.sess.clients.filter
        (·.id ∉ keysAt (·.id) (descending r.sess.clients.length r.indicesToDrop) r.sess.clients) := by
    refine List.filter_congr fun ch _ => ?_
    rw [decide_eq_decide, not_iff_not, descending_keys]
  have hcover : ∀ id ∈ keysAt (·.id) r.indicesToDrop r.sess.clients,
      id ∈ keysAt (·.id) (descending r.sess.clients.length r.indicesToDrop) r.sess.clients ∨
        id ∈ ([] : List ClientId) := fun id hid => .inl ((descending_keys _ _ id).2 hid)
  rw [hgone]
  generalize detachClients inp.dropNow _ r.sess r.daemonState = res at hr ⊢
  obtain ⟨s₁, d₁, effects, dropped⟩ := res
  dsimp only at hr ⊢
  split <;> rename_i hd
  · obtain ⟨hd₁, more, hids, hn⟩ := effects_notifies (W := W) hr
      ((s₁.announceNextLeader W).1.ignore (s₁.announceNextLeader W).2) []
    have hst := leave_stepped hr h hcover
      (((announce_notifies hr hd).ignore.trans hn.ignore).weaken (fun _ hx => hx) (fun _ hx => hx) .inl .inr)
    simp only [executeIgnoringOverflow, hd₁, hids, List.nil_append]
    exact hst
  · obtain ⟨hd₁, more, hids, hn⟩ := effects_notifies (W := W) hr s₁ []
    have hst := leave_stepped hr h hcover
      (((noAnnounce_notifies hr hd).trans hn.ignore).weaken (fun _ hx => hx) (fun _ hx => hx) .inl .inr)
    simp only [executeIgnoringOverflow, hd₁, hids, List.nil_append]
    exact hst

theorem dropSilently_spec (now : Instant) (idxs : List Nat) (s : Session) :
    (dropSilently now idxs s).clients = eraseAll idxs s.clients ∧
      (dropSilently now idxs s).nextClientId = s.nextClientId ∧ (dropSilently now idxs s).missed = s.missed := by
  induction idxs generalizing s with
  | nil => exact ⟨rfl, rfl, rfl⟩
  | cons i idxs ih =>
    unfold dropSilently
    cases hch : s.clients[i]? with
    | none =>
      obtain ⟨hc, hrest⟩ := ih s
      refine ⟨hc.trans ?_, hrest⟩
      rw [eraseAll, eraseAll, List.foldl_cons, List.eraseIdx_of_length_le (List.getElem?_eq_none_iff.1 hch)]
    | some ch =>
      obtain ⟨hc, hrest⟩ := ih (s.removeClient i ch now)
      exact ⟨hc, hrest⟩

/-- On a poll timeout the overflowed clients go without a word to anybody. -/
theorem tick_loses (inp : IterInput) {w : Work} (h : w.Mid) :
    Mid (w.tick inp).1.sess (w.tick inp).1.loc.daemonState [] ∧
      (w.tick inp).1.sess.registry (w.tick inp).1.loc.daemonState.lock.holder = w.registry.lose w.overflow ∧
      (w.tick inp).1.sess.clients = w.sess.clients.filter (·.id ∉ w.overflow) := by
  unfold Work.tick
  dsimp only
  obtain ⟨hc, hn, hm⟩ := dropSilently_spec inp.dropNow
    (descending w.sess.clients.length (w.sess.indicesOf w.overflow)) w.sess
  rw [eraseAll_eq_filter (descending_pairwise _ _) h.ids] at hc
  have hkeep : w.sess.clients.filter (fun ch => ch.id ∉ keysAt (·.id)
      (descending w.sess.clients.length (w.sess.indicesOf w.overflow)) w.sess.clients) =
      w.sess.clients.filter (·.id ∉ w.overflow) := by
    refine List.filter_congr fun ch hch => ?_
    rw [decide_eq_decide, not_iff_not, descending_keys, indicesOf_keys h.ids _ hch]
  replace hc := hc.trans hkeep
  generalize dropSilently inp.dropNow _ w.sess = s at hc hn hm ⊢
  have hreg : s.registry w.loc.daemonState.lock.holder = w.registry.lose w.overflow := by
    simp only [Session.registry, Registry.lose, Registry.kept, Work.registry, hc, hn, List.filter_map]
    rfl
  refine ⟨⟨hreg ▸ sound_kept h.sound w.overflow, ⟨fun ch hch ho => ?_, fun ch hch hid => ?_, ?_, fun ch hch => ?_⟩,
    h.lock, h.idle⟩, hreg, hc⟩
  · rw [hc] at hch
    obtain ⟨hch, hstay⟩ := List.mem_filter.1 hch
    rw [hm]
    exact (h.accounted.gap ch hch ho).imp_right fun hid => absurd hid (of_decide_eq_true hstay)
  · rw [hc] at hch
    exact h.accounted.missed ch (List.mem_filter.1 hch).1 (hm ▸ hid)
  · rw [hm, hn]
    exact h.accounted.fresh
  · rw [hc] at hch
    exact h.accounted.sent ch (List.mem_filter.1 hch).1

/-- Leaving the turn early, the report of the overflows is lost. -/
theorem Mid.ignored {s : Session} {d : DaemonState} {ov : List ClientId} (h : Mid s d ov) : Mid (s.ignore ov) d [] := by
  have hnew : ∀ id ∈ ov.filter (fun id => s.clients.any fun ch => ch.id = id && ch.overflowed),
      ∃ ch ∈ s.clients, ch.id = id ∧ ch.overflowed = true := by
    intro id hid
    obtain ⟨ch, hch, hb⟩ := List.any_eq_true.1 (List.mem_filter.1 hid).2
    simp only [Bool.and_eq_true, decide_eq_true_eq] at hb
    exact ⟨ch, hch, hb⟩
  refine ⟨h.sound, ⟨fun ch hch ho => .inl ?_, fun ch hch hid => ?_, fun id hid => ?_, h.accounted.sent⟩, h.lock, h.idle⟩
  · rcases h.accounted.gap ch hch ho with hid | hid
    · exact List.mem_append_left _ hid
    · refine List.mem_append_right _ (List.mem_filter.2 ⟨hid, ?_⟩)
      exact List.any_eq_true.2 ⟨ch, hch, by simp [ho]⟩
  · rcases List.mem_append.1 hid with hid | hid
    · exact h.accounted.missed ch hch hid
    · obtain ⟨c, hc, he, ho⟩ := hnew _ hid
      rwa [List.inj_on_of_nodup_map h.ids hch hc he.symm]
  · rcases List.mem_append.1 hid with hid | hid
    · exact h.accounted.fresh id hid
    · obtain ⟨c, hc, rfl, -⟩ := hnew _ hid
      exact h.fresh hc

end Drop

end Hyoui.Daemon
