import Hyoui.Daemon.Handlers
/-!
# Clients that come and go

An accepted client joins the registry, and the clients a turn drops leave it: their leader and
their lock go to the others. Both are steps of the registry, and so is every run of
`processPendingHandshakes`.
-/

namespace Hyoui.Daemon

open Hyoui.Protocol Hyoui.Lib

/-- A part of the turn that moves the registry by its steps. -/
structure Stepped (W : World) (s : Session) (d : DaemonState) (s' : Session) (d' : DaemonState)
    (ov' : List ClientId) : Prop where
  mid : Mid s' d' ov'
  steps : Relation.ReflTransGen (Step (Encodes W)) (s.registry d.lock.holder) (s'.registry d'.lock.holder)
  child : s'.child = s.child

section Stepped

variable {W : World} {s s' s'' : Session} {d d' d'' : DaemonState} {ov ov' : List ClientId}

theorem Stepped.refl (h : Mid s d ov) : Stepped W s d s d ov := ⟨h, .refl, rfl⟩

theorem Stepped.trans (h : Stepped W s d s' d' ov) (h' : Stepped W s' d' s'' d'' ov') : Stepped W s d s'' d'' ov' :=
  ⟨h'.mid, h.steps.trans h'.steps, h'.child.trans h.child⟩

theorem Chatted.stepped (h : Chatted W s d s' d' ov) : Stepped W s d s' d' ov :=
  ⟨h.mid, Relation.ReflTransGen.mono (fun _ _ hc => Step.chat hc) _ _ h.chats, h.child⟩

/-- What a session has besides its clients and their history does not matter here. -/
theorem Mid.congr (h : Mid s d ov) (hc : s'.clients = s.clients) (hn : s'.nextClientId = s.nextClientId)
    (hm : s'.missed = s.missed) : Mid s' d ov where
  sound := by
    have hreg : s'.registry d.lock.holder = s.registry d.lock.holder := by simp only [Session.registry, hc, hn]
    exact hreg ▸ h.sound
  accounted := ⟨by rw [hc, hm]; exact h.accounted.gap, by rw [hc, hm]; exact h.accounted.missed,
    by rw [hm, hn]; exact h.accounted.fresh, by rw [hc]; exact h.accounted.sent⟩
  lock := h.lock
  idle := h.idle

theorem Stepped.congr (h : Mid s d ov) (hc : s'.clients = s.clients) (hn : s'.nextClientId = s.nextClientId)
    (hm : s'.missed = s.missed) (hchild : s'.child = s.child) : Stepped W s d s' d ov := by
  have hreg : s'.registry d.lock.holder = s.registry d.lock.holder := by simp only [Session.registry, hc, hn]
  exact ⟨h.congr hc hn hm, hreg ▸ .refl, hchild⟩

end Stepped

/-! ## Joining -/

section Join

variable {W : World} {cfg : Config} {s : Session} {d : DaemonState} {ov : List ClientId}

theorem finalizeAcceptedClient_ok {req : HandshakeRequest} {intersect : List Cap} {setNonblocking : Bool}
    {id : ClientId} {clients : List ClientHandle} {otherPending : Nat} {childStopped : Bool} {now : Instant}
    {unixMs : Nat} {accepted : AcceptedClient}
    (h : finalizeAcceptedClient W cfg req intersect setNonblocking id clients otherPending childStopped now unixMs =
      .ok accepted) :
    accepted.handle.id = id ∧ accepted.handle.leader = accepted.becameLeader ∧
      accepted.becameLeader = shouldAssignLeader clients accepted.handle.mode ∧
      (∃ response, accepted.handle.offers = [⟨.control (.handshakeResponse response), .sent⟩]) ∧
      accepted.detachOthers = req.detachOthers := by
  unfold finalizeAcceptedClient at h
  split at h
  · cases h
  · dsimp only at h
    split at h
    · cases h
    · split at h
      · cases h
      · split at h
        · rename_i handle hsend
          cases h
          unfold sendControl ClientHandle.offer at hsend
          split at hsend
          · cases hsend
          · simp only [ClientHandle.enqueueForClient, Prod.mk.injEq, Option.some.injEq] at hsend
            obtain ⟨rfl, hout⟩ := hsend
            exact ⟨rfl, rfl, rfl, ⟨_, congrArg (fun o => [(⟨_, o⟩ : Offer)]) hout⟩, rfl⟩
        · cases h

theorem offer_overflowed_eq (ch : ClientHandle) (item : Outgoing) (payload : Option Bytes) :
    (ch.offer item payload).1.overflowed = (ch.overflowed || decide ((ch.offer item payload).2 = some .overflow)) := by
  cases payload with
  | none => simp [ClientHandle.offer]
  | some payload => simp [ClientHandle.offer, ClientHandle.overflowed, ClientHandle.enqueueForClient]

/-- The notice a new client gets while the lock is held. -/
theorem noticeLocked_spec (W : World) (lock : LockState) (missed : List ClientId) {ch : ClientHandle}
    (hno : ch.overflowed = false) (hheard : ch.lockHeard = none) :
    Spoke (fun item => item.leaderNotice = none ∧ item.ack = none) [ch.id] ch (noticeLocked W lock missed ch).1 ∧
      ((noticeLocked W lock missed ch).2 =
        missed ++ if (noticeLocked W lock missed ch).1.overflowed = true then [ch.id] else []) ∧
      (Encodes W → (noticeLocked W lock missed ch).1.lockHeard.getD (lockNotice none) = lockNotice lock.holder) := by
  unfold noticeLocked
  split <;> rename_i hh
  · rw [hh]
    exact ⟨.refl ch, by simp [hno], fun _ => by rw [hheard]; rfl⟩
  · rename_i holder
    rw [hh]
    dsimp only [sendControl]
    refine ⟨(offer_spoke ch _ _ fun _ => List.mem_singleton.2 rfl).mono (by rintro _ rfl; exact ⟨rfl, rfl⟩) fun _ h => h,
      ?_, fun he => ?_⟩
    · simp only [offer_overflowed_eq, hno, Bool.false_or, decide_eq_true_eq]
      split <;> simp
    · obtain ⟨payload, hp⟩ := Option.isSome_iff_exists.1
        (he.modeChange { sessionMode := .locked, lockHolder := some holder, clientMode := none })
      rw [hp]
      simp only [ClientHandle.lockHeard, ClientHandle.offer, ClientHandle.enqueueForClient, lastOf_append,
        lastOf_singleton]
      rfl

theorem sendInitialAttachRedraw_spoke {known : List ClientId} (ch : ClientHandle) (screen : Screen) :
    Spoke (·.plain = true) known ch (sendInitialAttachRedraw W ch screen) := by
  unfold sendInitialAttachRedraw
  split
  · exact (enqueueIgnoringLimit_spoke ch _ _).mono (by rintro _ rfl; rfl) fun _ h => h
  · exact .refl ch

/-- A redraw never overflows, and says nothing about the lock. -/
theorem sendInitialAttachRedraw_same (ch : ClientHandle) (screen : Screen) :
    (sendInitialAttachRedraw W ch screen).overflowed = ch.overflowed ∧
      (sendInitialAttachRedraw W ch screen).lockHeard = ch.lockHeard := by
  have hs : Spoke (·.plain = true) [] ch (sendInitialAttachRedraw W ch screen) := sendInitialAttachRedraw_spoke ch screen
  constructor
  · cases ho : ch.overflowed with
    | true => exact hs.overflowed ho
    | false =>
      cases ho' : (sendInitialAttachRedraw W ch screen).overflowed with
      | false => rfl
      | true => exact absurd (hs.gap ho') (by simp [ho])
  · obtain ⟨more, hm, hall⟩ := hs.offers
    rw [ClientHandle.lockHeard, hm, lastOf_append]
    cases hx : lastOf (fun o : Offer => o.item.lockNotice) more with
    | none => rfl
    | some x =>
      obtain ⟨o, ho, hox⟩ := lastOf_some hx
      rw [plain_lockNotice (hall o ho)] at hox
      cases hox

/-- An accepted client as it stands in the list: as accepted, and told about the lock. -/
theorem attached_handle (W : World) (lock : LockState) (missed : List ClientId) {ch : ClientHandle} (screen : Screen)
    (hoff : ∃ response, ch.offers = [⟨.control (.handshakeResponse response), .sent⟩]) :
    ∃ ch', ch' = (if W.syncInProgress screen then (noticeLocked W lock missed ch).1
        else sendInitialAttachRedraw W (noticeLocked W lock missed ch).1 screen) ∧
      ch'.id = ch.id ∧ ch'.mode = ch.mode ∧ ch'.leader = ch.leader ∧ ch'.leaderHeard = none ∧ ch'.OffersSent ∧
      (noticeLocked W lock missed ch).2 = missed ++ (if ch'.overflowed = true then [ch.id] else []) ∧
      (Encodes W → ch'.lockHeard.getD (lockNotice none) = lockNotice lock.holder) := by
  obtain ⟨response, hoff⟩ := hoff
  have hno : ch.overflowed = false := by rw [ClientHandle.overflowed, hoff]; rfl
  have hheard : ch.lockHeard = none := by rw [ClientHandle.lockHeard, hoff]; rfl
  have hleader : ch.leaderHeard = none := by rw [ClientHandle.leaderHeard, hoff]; rfl
  have hsent : ch.OffersSent := fun _ o ho => by
    rw [hoff, List.mem_singleton] at ho
    rw [ho]
    simp
  obtain ⟨hspoke, hmissed, hlock⟩ := noticeLocked_spec W lock missed hno hheard
  generalize noticeLocked W lock missed ch = r at hspoke hmissed hlock ⊢
  have hquiet : ∀ {ch' : ClientHandle} {known : List ClientId},
      Spoke (fun item => item.leaderNotice = none) known ch ch' → ch'.leaderHeard = none := by
    intro ch' known hs
    obtain ⟨more, hm, hall⟩ := hs.offers
    rw [ClientHandle.leaderHeard, hm, lastOf_append]
    cases hx : lastOf (fun o : Offer => o.item.leaderNotice) more with
    | none => exact hleader
    | some x =>
      obtain ⟨o, ho, hox⟩ := lastOf_some hx
      rw [hall o ho] at hox
      cases hox
  have hspoke' : Spoke (fun item => item.leaderNotice = none) [ch.id] ch r.1 := hspoke.mono (fun _ hp => hp.1) fun _ h => h
  refine ⟨_, rfl, ?_⟩
  split
  · exact ⟨hspoke.id, hspoke.mode, hspoke.leader, hquiet hspoke', hspoke.sent hsent, hmissed, hlock⟩
  · have hredraw := hspoke'.trans ((sendInitialAttachRedraw_spoke (W := W) r.1 screen).mono
      (fun _ hp => plain_leaderNotice hp) fun _ h => h)
    obtain ⟨hov, hheard'⟩ := sendInitialAttachRedraw_same (W := W) r.1 screen
    exact ⟨hredraw.id, hredraw.mode, hredraw.leader, hquiet hredraw, hredraw.sent hsent, by rw [hov]; exact hmissed,
      fun he => by rw [hheard']; exact hlock he⟩

theorem shouldAssignLeader_eq (clients : List ClientHandle) (mode : Mode) :
    shouldAssignLeader clients mode = (decide (mode = .rw) && !(clients.map (·.member)).any (·.leader)) := by
  rw [shouldAssignLeader, List.any_map]
  rfl

/-- The session with the new client at the end of the list, and told nothing about it yet. -/
theorem appended_mid (h : Mid s d ov) {s₁ : Session} {ch : ClientHandle} (hid : ch.id = s.nextClientId)
    (hlead : ch.leader = shouldAssignLeader s.clients ch.mode) (hsent : ch.OffersSent)
    (hc : s₁.clients = s.clients ++ [ch])
    (hn : s₁.nextClientId = s.nextClientId + 1)
    (hm : s₁.missed = s.missed ++ if ch.overflowed = true then [ch.id] else []) : Mid s₁ d ov := by
  have hreg : s₁.registry d.lock.holder =
      { s.registry d.lock.holder with
        members := (s.registry d.lock.holder).members ++ [ch.member], nextId := s.nextClientId + 1 } := by
    simp only [Session.registry, hc, hn, List.map_append, List.map_cons, List.map_nil]
  refine ⟨?_, ⟨?_, ?_, ?_, ?_⟩, h.lock, h.idle⟩
  · rw [hreg]
    exact sound_append h.sound hid (hlead.trans (shouldAssignLeader_eq _ _))
  · intro c hmem ho
    rw [hc] at hmem
    rw [hm]
    rcases List.mem_append.1 hmem with hmem | hmem
    · exact (h.accounted.gap c hmem ho).imp (List.mem_append_left _) fun hx => hx
    · obtain rfl := List.mem_singleton.1 hmem
      rw [if_pos ho]
      exact .inl (List.mem_append_right _ (List.mem_singleton.2 rfl))
  · intro c hmem hmiss
    rw [hc] at hmem
    rw [hm] at hmiss
    -- the new client's id is not among the old ones
    rcases List.mem_append.1 hmem with hmem | hmem <;> rcases List.mem_append.1 hmiss with hmiss | hmiss
    · exact h.accounted.missed c hmem hmiss
    · split at hmiss
      · have hlt := h.fresh hmem
        rw [List.mem_singleton.1 hmiss, hid] at hlt
        exact absurd hlt (lt_irrefl _)
      · cases hmiss
    · have hlt := h.accounted.fresh _ hmiss
      rw [List.mem_singleton.1 hmem, hid] at hlt
      exact absurd hlt (lt_irrefl _)
    · split at hmiss <;> rename_i ho
      · exact List.mem_singleton.1 hmem ▸ ho
      · cases hmiss
  · intro id hmiss
    rw [hm] at hmiss
    rw [hn]
    rcases List.mem_append.1 hmiss with hmiss | hmiss
    · exact Nat.lt_succ_of_lt (h.accounted.fresh id hmiss)
    · split at hmiss
      · rw [List.mem_singleton.1 hmiss, hid]
        exact Nat.lt_succ_self _
      · cases hmiss
  · intro c hmem
    rw [hc] at hmem
    rcases List.mem_append.1 hmem with hmem | hmem
    · exact h.accounted.sent c hmem
    · exact List.mem_singleton.1 hmem ▸ hsent

theorem attachClient_stepped (h : Mid s d ov) {accepted : AcceptedClient} (hid : accepted.handle.id = s.nextClientId)
    (hlead : accepted.handle.leader = accepted.becameLeader)
    (hbecame : accepted.becameLeader = shouldAssignLeader s.clients accepted.handle.mode)
    (hoff : ∃ response, accepted.handle.offers = [⟨.control (.handshakeResponse response), .sent⟩]) :
    Stepped W s d (attachClient W s d ov accepted).1 d (attachClient W s d ov accepted).2 := by
  obtain ⟨ch, hch, hcid, hcmode, hclead, hleader, hsent, hmissed, hlock⟩ := attached_handle W d.lock s.missed s.screen hoff
  unfold attachClient
  dsimp only
  rw [← hch]
  generalize hs₁ : ({ s with
      nextClientId := s.nextClientId + 1
      missed := (noticeLocked W d.lock s.missed accepted.handle).2
      pendingRedraws := if W.syncInProgress s.screen = true then s.pendingRedraws ++ [ch.id] else s.pendingRedraws
      clients := s.clients ++ [ch] } : Session).pushLifecycle (.clientAttached ch.id ch.mode) = s₁
  have hclients : s₁.clients = s.clients ++ [ch] := hs₁ ▸ rfl
  have hnext : s₁.nextClientId = s.nextClientId + 1 := hs₁ ▸ rfl
  have hrole : ch.leader = shouldAssignLeader s.clients ch.mode := by rw [hclead, hcmode, hlead, hbecame]
  have hmid : Mid s₁ d ov := appended_mid h (hcid.trans hid) hrole hsent hclients hnext (hcid ▸ hs₁ ▸ hmissed)
  have hregistry : (s.registry d.lock.holder).members ++ [ch.member] = s₁.clients.map (·.member) := by
    rw [hclients, List.map_append]
    rfl
  -- the step, once it is known what everybody is told
  have hstep : ∀ {s' : Session} {ov' : List ClientId},
      Notifies W (fun x => ch.leader = true ∧ x = some ch.id) (fun _ => False) (ch.leader = true) False ov' s₁ s' →
      Stepped W s d s' d (ov ++ ov') := by
    intro s' ov' hn
    have hst : Step (Encodes W) (s.registry d.lock.holder) (s'.registry d.lock.holder) := by
      have hj : Step (Encodes W) (s.registry d.lock.holder) _ :=
        .join (m := ch.member) (hcid.trans hid) (hrole.trans (shouldAssignLeader_eq _ _)) hleader
          (fun he _ => hlock he) (hregistry ▸ hn.told)
      simpa only [Session.registry, hn.talks.nextClientId, hnext] using hj
    exact ⟨⟨hst.sound h.sound, accounted_talks hmid hn.talks, h.lock, h.idle⟩, .single hst,
      hn.talks.child.trans (hs₁ ▸ rfl)⟩
  have hbl : accepted.becameLeader = ch.leader := by rw [hclead, hlead]
  rw [hbl]
  split <;> rename_i hl
  · exact hstep ((leaderNotify_notifies s₁ (some ch.id)).weaken (fun _ hx => ⟨hl, hx⟩) (fun _ hx => hx) (fun _ => trivial)
      fun hx => hx)
  · have hnone : Stepped W s d s₁ d (ov ++ []) := hstep ((Notifies.refl s₁).weaken (fun _ hx => hx) (fun _ hx => hx) hl fun hx => hx)
    rwa [List.append_nil] at hnone

end Join

/-! ## Leaving -/

section Leave

variable {W : World} {s s' : Session} {d d' : DaemonState} {ov ov' : List ClientId} {now : Instant} {idxs : List Nat}

/-- The clients at these positions. -/
def Session.clientsAt (s : Session) (idxs : List Nat) : List ClientHandle := idxs.filterMap (s.clients[·]?)

theorem keysAt_eq (s : Session) (idxs : List Nat) : keysAt (·.id) idxs s.clients = (s.clientsAt idxs).map (·.id) := by
  rw [keysAt, Session.clientsAt, List.map_filterMap]

/-- What detaching clients does: to the list, to the lock, and what it leaves to be executed. -/
structure Detached (s : Session) (d : DaemonState) (removed : List ClientHandle) (s' : Session) (d' : DaemonState)
    (effects : List Effect) (droppedAnyLeader : Bool) : Prop where
  nextClientId : s'.nextClientId = s.nextClientId
  missed : s'.missed = s.missed
  child : s'.child = s.child
  registry : d'.clients = d.clients
  ok : d'.lock.Ok
  holder : d'.lock.holder = if removed.any (d.lock.holder = some ·.id) then none else d.lock.holder
  effect : ∀ e ∈ effects, LockEffect none e
  announced : removed.any (d.lock.holder = some ·.id) = true → ∃ e ∈ effects, e.isBroadcast = true
  silent : removed.any (d.lock.holder = some ·.id) = false → effects = []
  leader : droppedAnyLeader = removed.any (·.leader)

/-- The reducer hears that one client went. -/
theorem handle_detached_spec (hok : d.lock.Ok) (id : ClientId) :
    (d.handle (.client (.detached id))).1.clients = d.clients ∧ (d.handle (.client (.detached id))).1.lock.Ok ∧
      (if d.lock.holder = some id then
        (d.handle (.client (.detached id))).1.lock.holder = none ∧
          (∀ e ∈ (d.handle (.client (.detached id))).2, LockEffect none e) ∧
          ∃ e ∈ (d.handle (.client (.detached id))).2, e.isBroadcast = true
      else d.handle (.client (.detached id)) = (d, [])) := by
  have hmoved := reduceMsg_moved d.lock (.clientDisconnected id)
  obtain ⟨hholder, hsame⟩ := reduceMsg_disconnected hok id
  rw [DaemonState.handle_detached]
  refine ⟨rfl, hmoved.ok hok, ?_⟩
  split <;> rename_i hh
  · rw [if_pos hh] at hholder
    refine ⟨hholder, fun e he => hholder ▸ hmoved.effect e he, hmoved.announced ?_⟩
    rw [hholder, hh]
    simp
  · rw [hsame hh]

theorem detachClients_spec (now : Instant) (hok : d.lock.Ok) (hd : idxs.Pairwise (· > ·)) :
    (detachClients now idxs s d).1.clients = eraseAll idxs s.clients ∧
      Detached s d (s.clientsAt idxs) (detachClients now idxs s d).1 (detachClients now idxs s d).2.1
        (detachClients now idxs s d).2.2.1 (detachClients now idxs s d).2.2.2 := by
  induction idxs generalizing s d with
  | nil => exact ⟨rfl, rfl, rfl, rfl, rfl, hok, rfl, by simp [detachClients], by simp [Session.clientsAt],
      fun _ => rfl, rfl⟩
  | cons i idxs ih =>
    rw [List.pairwise_cons] at hd
    unfold detachClients
    cases hch : s.clients[i]? with
    | none =>
      obtain ⟨hc, hdet⟩ := ih (s := s) hok hd.2
      have hat : s.clientsAt (i :: idxs) = s.clientsAt idxs := by simp [Session.clientsAt, hch]
      rw [hat]
      refine ⟨hc.trans ?_, hdet⟩
      rw [eraseAll, eraseAll, List.foldl_cons, List.eraseIdx_of_length_le (List.getElem?_eq_none_iff.1 hch)]
    | some ch =>
      dsimp only
      obtain ⟨hreg, hok', hlock⟩ := handle_detached_spec hok ch.id
      generalize d.handle (.client (.detached ch.id)) = r at hreg hok' hlock ⊢
      obtain ⟨hc, hdet⟩ := ih (s := s.removeClient i ch now) (d := r.1) hok' hd.2
      have hat : s.clientsAt (i :: idxs) = ch :: (s.removeClient i ch now).clientsAt idxs := by
        have hrest : (s.removeClient i ch now).clientsAt idxs = s.clientsAt idxs :=
          List.filterMap_congr fun j hj => List.getElem?_eraseIdx_of_lt (hd.1 j hj)
        rw [hrest]
        simp [Session.clientsAt, hch]
      rw [hat]
      generalize hrem : (s.removeClient i ch now).clientsAt idxs = removed at hdet ⊢
      refine ⟨hc, hdet.nextClientId, hdet.missed, hdet.child, hdet.registry.trans hreg, hdet.ok, ?_, ?_, ?_, ?_, ?_⟩
      · rw [hdet.holder]
        split at hlock <;> rename_i hh
        · rw [hlock.1]
          simp [hh]
        · rw [hlock]
          simp [hh]
      · intro e he
        rcases List.mem_append.1 he with he | he
        · split at hlock
          · exact hlock.2.1 e he
          · rw [hlock] at he
            cases he
        · exact hdet.effect e he
      · intro hany
        split at hlock <;> rename_i hh
        · obtain ⟨e, he, hb⟩ := hlock.2.2
          exact ⟨e, List.mem_append_left _ he, hb⟩
        · rw [List.any_cons, decide_eq_false hh, Bool.false_or] at hany
          rw [hlock] at hdet
          obtain ⟨e, he, hb⟩ := hdet.announced hany
          exact ⟨e, List.mem_append_right _ (hlock ▸ he), hb⟩
      · intro hany
        split at hlock <;> rename_i hh
        · rw [List.any_cons, decide_eq_true hh, Bool.true_or] at hany
          cases hany
        · rw [List.any_cons, decide_eq_false hh, Bool.false_or] at hany
          rw [hlock] at hdet ⊢
          rw [hdet.silent hany, List.append_nil]
      · rw [hdet.leader, List.any_cons]

theorem clientsAt_iff (hn : (s.clients.map (·.id)).Nodup) (idxs : List Nat) {ch : ClientHandle} :
    ch ∈ s.clientsAt idxs ↔ ch ∈ s.clients ∧ ch.id ∈ keysAt (·.id) idxs s.clients := by
  rw [keysAt_eq]
  constructor
  · intro h
    obtain ⟨i, -, hi⟩ := List.mem_filterMap.1 h
    exact ⟨List.mem_of_getElem? hi, List.mem_map_of_mem h⟩
  · rintro ⟨hch, hid⟩
    obtain ⟨c, hc, he⟩ := List.mem_map.1 hid
    obtain ⟨i, -, hi⟩ := List.mem_filterMap.1 hc
    rwa [List.inj_on_of_nodup_map hn hch (List.mem_of_getElem? hi) he.symm]

theorem clientsAt_any (hn : (s.clients.map (·.id)).Nodup) (idxs : List Nat) (holder : Option ClientId)
    (p : ClientHandle → Bool) (q : Member → Bool) (hpq : ∀ ch, q ch.member = p ch) :
    (s.clientsAt idxs).any p = ((s.registry holder).dropped (keysAt (·.id) idxs s.clients)).any q := by
  rw [Bool.eq_iff_iff, List.any_eq_true, List.any_eq_true]
  constructor
  · rintro ⟨ch, hch, hp⟩
    obtain ⟨hmem, hid⟩ := (clientsAt_iff hn idxs).1 hch
    exact ⟨ch.member, List.mem_filter.2 ⟨List.mem_map_of_mem hmem, decide_eq_true hid⟩, (hpq ch).trans hp⟩
  · rintro ⟨m, hm, hq⟩
    obtain ⟨hmem, hid⟩ := List.mem_filter.1 hm
    obtain ⟨ch, hch, rfl⟩ := List.mem_map.1 hmem
    exact ⟨ch, (clientsAt_iff hn idxs).2 ⟨hch, of_decide_eq_true hid⟩, (hpq ch).symm.trans hq⟩

theorem elevate_go (clients : List ClientHandle) :
    (elevateNextLeader.go clients).1.map (·.member) = (elevate (clients.map (·.member))).1 ∧
      (elevateNextLeader.go clients).2 = (elevate (clients.map (·.member))).2 := by
  induction clients with
  | nil => exact ⟨rfl, rfl⟩
  | cons c cs ih =>
    unfold elevateNextLeader.go
    rw [List.map_cons, elevate]
    by_cases hm : c.mode = .rw
    · rw [if_pos hm, if_pos (show c.member.mode = .rw from hm)]
      exact ⟨rfl, rfl⟩
    · rw [if_neg hm, if_neg (show ¬ c.member.mode = .rw from hm)]
      exact ⟨congrArg (c.member :: ·) ih.1, ih.2⟩

/-- The session after its leader was elected anew, where one was dropped. -/
def Session.elect (s : Session) (droppedAnyLeader : Bool) : Session :=
  if droppedAnyLeader then { s with clients := (elevateNextLeader s.clients).1 } else s

theorem elevateNextLeader_map {γ : Type} {f : ClientHandle → γ} (hf : ∀ c leader, f { c with leader } = f c)
    (clients : List ClientHandle) : (elevateNextLeader clients).1.map f = clients.map f := by
  unfold elevateNextLeader
  split
  · rfl
  · rename_i hany
    clear hany
    induction clients with
    | nil => rfl
    | cons c cs ih =>
      unfold elevateNextLeader.go
      split
      · exact congrArg (· :: cs.map f) (hf c _)
      · rw [List.map_cons, List.map_cons, ih]

/-- The clients that stay, and what the registry calls the dropping of the others. -/
structure Remains (s : Session) (d : DaemonState) (ov gone : List ClientId) (s₁ : Session) (d₁ : DaemonState)
    (effects : List Effect) (droppedAnyLeader : Bool) : Prop where
  kept : s₁.clients = s.clients.filter (·.id ∉ gone)
  members : (s₁.elect droppedAnyLeader).clients.map (·.member) = ((s.registry d.lock.holder).elected gone).1
  newLeader : droppedAnyLeader = true →
    (elevateNextLeader s₁.clients).2 = ((s.registry d.lock.holder).elected gone).2
  leader : droppedAnyLeader = (s.registry d.lock.holder).dropsLeader gone
  holder : d₁.lock.holder = if (s.registry d.lock.holder).dropsHolder gone then none else d.lock.holder
  effect : ∀ e ∈ effects, LockEffect none e
  announced : (s.registry d.lock.holder).dropsHolder gone = true → ∃ e ∈ effects, e.isBroadcast = true
  silent : (s.registry d.lock.holder).dropsHolder gone = false → effects = []
  mid : ∀ {ov'}, (∀ id ∈ ov, id ∈ gone ∨ id ∈ ov') → Mid (s₁.elect droppedAnyLeader) d₁ ov'
  nextClientId : s₁.nextClientId = s.nextClientId
  child : s₁.child = s.child

theorem elect_same (s : Session) (b : Bool) :
    (s.elect b).nextClientId = s.nextClientId ∧ (s.elect b).missed = s.missed ∧ (s.elect b).child = s.child ∧
      (s.elect b).clients.map (·.wire) = s.clients.map (·.wire) := by
  cases b with
  | false => exact ⟨rfl, rfl, rfl, rfl⟩
  | true => exact ⟨rfl, rfl, rfl, elevateNextLeader_map (fun _ _ => rfl) s.clients⟩

theorem detachClients_remains (now : Instant) (h : Mid s d ov) (hd : idxs.Pairwise (· > ·)) :
    Remains s d ov (keysAt (·.id) idxs s.clients) (detachClients now idxs s d).1 (detachClients now idxs s d).2.1
      (detachClients now idxs s d).2.2.1 (detachClients now idxs s d).2.2.2 := by
  obtain ⟨hclients, hdet⟩ := detachClients_spec (s := s) now h.lock hd
  rw [eraseAll_eq_filter hd h.ids] at hclients
  have hleader : (detachClients now idxs s d).2.2.2 =
      (s.registry d.lock.holder).dropsLeader (keysAt (·.id) idxs s.clients) :=
    hdet.leader.trans (clientsAt_any h.ids idxs d.lock.holder (·.leader) (·.leader) fun _ => rfl)
  have hholder : (s.clientsAt idxs).any (d.lock.holder = some ·.id) =
      (s.registry d.lock.holder).dropsHolder (keysAt (·.id) idxs s.clients) :=
    clientsAt_any h.ids idxs d.lock.holder (d.lock.holder = some ·.id) (d.lock.holder = some ·.id) fun _ => rfl
  generalize keysAt (·.id) idxs s.clients = gone at hclients hleader hholder ⊢
  generalize detachClients now idxs s d = r at hclients hdet hleader ⊢
  obtain ⟨s₁, d₁, effects, dropped⟩ := r
  dsimp only at hclients hdet hleader ⊢
  have hkept : s₁.clients.map (·.member) = (s.registry d.lock.holder).kept gone := by
    rw [hclients, Registry.kept, Session.registry, List.filter_map]
    rfl
  have helect : dropped = true → elevateNextLeader s₁.clients = elevateNextLeader.go s₁.clients := by
    intro hdl
    unfold elevateNextLeader
    rw [if_neg]
    intro hany
    obtain ⟨c, hc, hcl⟩ := List.any_eq_true.1 hany
    have hno := kept_not_leader h.sound (hleader.symm.trans hdl) (hkept ▸ List.mem_map_of_mem hc)
    exact absurd (hno.symm.trans hcl) (by decide)
  have hmembers : (s₁.elect dropped).clients.map (·.member) = ((s.registry d.lock.holder).elected gone).1 := by
    unfold Registry.elected Session.elect
    cases hdl : dropped with
    | false =>
      rw [if_neg (by decide), if_neg (by rw [← hdl.symm.trans hleader]; decide)]
      exact hkept
    | true =>
      rw [if_pos rfl, if_pos (hleader.symm.trans hdl), helect hdl, ← hkept]
      exact (elevate_go s₁.clients).1
  refine ⟨hclients, hmembers, fun hdl => ?_, hleader, hdet.holder.trans ?_, hdet.effect, fun hh => hdet.announced ?_,
    fun hh => hdet.silent ?_, fun {ov'} hov => ?_, hdet.nextClientId, hdet.child⟩
  · unfold Registry.elected
    rw [if_pos (hleader.symm.trans hdl), helect hdl, ← hkept]
    exact (elevate_go s₁.clients).2
  · rw [hholder]
  · rw [hholder]
    exact hh
  · rw [hholder]
    exact hh
  · obtain ⟨hn, hm, -, hoff⟩ := elect_same s₁ dropped
    have hacc : s₁.Accounted ov' := by
      refine ⟨fun ch hch ho => ?_, fun ch hch hid => ?_, fun id hid => ?_, fun ch hch => ?_⟩
      · rw [hclients] at hch
        obtain ⟨hch, hstay⟩ := List.mem_filter.1 hch
        rcases h.accounted.gap ch hch ho with hmiss | hin
        · exact .inl (hdet.missed ▸ hmiss)
        · rcases hov _ hin with hgone | hin
          · exact absurd hgone (of_decide_eq_true hstay)
          · exact .inr hin
      · rw [hclients] at hch
        exact h.accounted.missed ch (List.mem_filter.1 hch).1 (hdet.missed ▸ hid)
      · rw [hdet.nextClientId]
        exact h.accounted.fresh id (hdet.missed ▸ hid)
      · rw [hclients] at hch
        exact h.accounted.sent ch (List.mem_filter.1 hch).1
    refine ⟨(sound_elected h.sound gone).of_roles (congrArg (List.map Member.role) hmembers) ?_,
      accounted_congr hacc hoff hm hn, hdet.ok, hdet.registry ▸ h.idle⟩
    exact le_of_eq (hn.trans hdet.nextClientId).symm

/-- Dropping clients, telling the others of a new leader and executing what the reducer left to
do are one step of the registry, after which the others are left. -/
theorem leave_stepped {s₁ s' : Session} {d₁ : DaemonState} {gone ov'' : List ClientId} {effects : List Effect}
    {droppedAnyLeader : Bool} (hr : Remains s d ov gone s₁ d₁ effects droppedAnyLeader)
    (h : Mid s d ov) (hov : ∀ id ∈ ov, id ∈ gone ∨ id ∈ ov')
    (hn : Notifies W (fun x => (s.registry d.lock.holder).dropsLeader gone = true ∧
          x = ((s.registry d.lock.holder).elected gone).2)
        (fun x => (s.registry d.lock.holder).dropsHolder gone = true ∧ x = lockNotice none)
        ((s.registry d.lock.holder).dropsLeader gone = true) ((s.registry d.lock.holder).dropsHolder gone = true) ov''
        (s₁.elect droppedAnyLeader) s') :
    Stepped W s d s' d₁ (ov' ++ ov'') ∧
      s'.clients.map (·.id) = (s.clients.filter (·.id ∉ gone)).map (·.id) := by
  have hmid := hr.mid hov
  obtain ⟨hnext, hmissed, hchild, hwires⟩ := elect_same s₁ droppedAnyLeader
  have hst : Step (Encodes W) (s.registry d.lock.holder) (s'.registry d₁.lock.holder) := by
    have htold := hn.told
    rw [hr.members] at htold
    have hl : Step (Encodes W) (s.registry d.lock.holder) _ := .leave htold
    have hnext' : s'.nextClientId = s.nextClientId :=
      hn.talks.nextClientId.trans (hnext.trans hr.nextClientId)
    simpa only [Session.registry, hnext', hr.holder] using hl
  refine ⟨⟨⟨hst.sound h.sound, accounted_talks hmid hn.talks, hmid.lock, hmid.idle⟩, .single hst,
    hn.talks.child.trans (hchild.trans hr.child)⟩, ?_⟩
  have hids := congrArg (List.map Wire.id) hwires
  rw [List.map_map, List.map_map] at hids
  rw [← hr.kept]
  exact (forall₂_map_eq (fun _ _ hs => hs.id) hn.talks.clients).trans hids

theorem stayed_length {gone : List ClientId}
    (h : s'.clients.map (·.id) = (s.clients.filter (·.id ∉ gone)).map (·.id)) : s'.clients.length ≤ s.clients.length := by
  have hlen := congrArg List.length h
  rw [List.length_map, List.length_map] at hlen
  exact hlen ▸ List.length_filter_le _ _

section Told

variable {gone : List ClientId} {s₁ s₂ : Session} {d₁ : DaemonState} {effects : List Effect} {dropped : Bool}
  {L : Option ClientId → Prop} {K : LockNotice → Prop}

/-- The new leader is announced, where the old one was dropped. -/
theorem announce_notifies (hr : Remains s d ov gone s₁ d₁ effects dropped) (hd : dropped = true) :
    Notifies W (fun x => (s.registry d.lock.holder).dropsLeader gone = true ∧
        x = ((s.registry d.lock.holder).elected gone).2) K
      ((s.registry d.lock.holder).dropsLeader gone = true) False (s₁.announceNextLeader W).2 (s₁.elect dropped)
      (s₁.announceNextLeader W).1 := by
  have hn := leaderNotify_notifies (W := W) (K := K) (s₁.elect dropped) ((s.registry d.lock.holder).elected gone).2
  have heq : s₁.announceNextLeader W =
      (s₁.elect dropped).broadcastControl W (.leaderNotify ((s.registry d.lock.holder).elected gone).2) := by
    rw [← hr.newLeader hd, hd]
    rfl
  rw [heq]
  exact hn.weaken (fun _ hx => ⟨hr.leader.symm.trans hd, hx⟩) (fun _ hx => hx) (fun _ => trivial) fun hx => hx

theorem noAnnounce_notifies (hr : Remains s d ov gone s₁ d₁ effects dropped) (hd : ¬ dropped = true) :
    Notifies W L K ((s.registry d.lock.holder).dropsLeader gone = true) False [] (s₁.elect dropped) s₁ := by
  have hfalse : dropped = false := by simpa using hd
  rw [hfalse]
  exact (Notifies.refl s₁).weaken (fun _ hx => hx) (fun _ hx => hx) (fun hx => hd (hr.leader.trans hx)) fun hx => hx

/-- The release of the lock is announced, where its holder was dropped. -/
theorem effects_notifies (hr : Remains s d ov gone s₁ d₁ effects dropped) (s₂ : Session) (ids : List ClientId) :
    (executeWithFeedback W d₁ effects s₂ ids).1 = d₁ ∧
      ∃ more, (executeWithFeedback W d₁ effects s₂ ids).2.2 = ids ++ more ∧
        Notifies W L (fun x => (s.registry d.lock.holder).dropsHolder gone = true ∧ x = lockNotice none) False
          ((s.registry d.lock.holder).dropsHolder gone = true) more s₂
          (executeWithFeedback W d₁ effects s₂ ids).2.1 := by
  cases hh : (s.registry d.lock.holder).dropsHolder gone with
  | true =>
    obtain ⟨hd, more, hids, hn⟩ := executeWithFeedback_lock (W := W) (L := L) d₁ s₂ ids hr.effect
    exact ⟨hd, more, hids, hn.weaken (fun _ hx => hx) (fun _ hx => ⟨rfl, hx⟩) (fun hx => hx) fun _ => hr.announced hh⟩
  | false =>
    rw [hr.silent hh]
    exact ⟨rfl, [], (List.append_nil _).symm,
      (Notifies.refl s₂).weaken (fun _ hx => hx) (fun _ hx => hx) (fun hx => hx) (by simp)⟩

end Told

theorem range_descending (p : Nat → Bool) (n : Nat) : ((List.range n).reverse.filter p).Pairwise (· > ·) :=
  (List.pairwise_reverse.2 List.pairwise_lt_range).filter p

/-- Whom `--detach-others` does not detach. -/
theorem others_kept (s : Session) (newId : ClientId) :
    s.clients.filter (·.id ∉ keysAt (·.id)
        ((List.range s.clients.length).reverse.filter fun k => (s.clients[k]?).any (·.id ≠ newId)) s.clients) =
      s.clients.filter (·.id = newId) := by
  refine List.filter_congr fun ch hch => ?_
  rw [decide_eq_decide, ← not_iff_not, not_not]
  simp only [keysAt, List.mem_filterMap, List.mem_filter, List.mem_reverse, List.mem_range, Option.map_eq_some_iff]
  constructor
  · rintro ⟨k, ⟨-, hk⟩, c, hc, hid⟩
    rw [hc, Option.any_some, hid] at hk
    exact of_decide_eq_true hk
  · intro hne
    obtain ⟨k, hk⟩ := List.mem_iff_getElem?.1 hch
    exact ⟨k, ⟨(List.getElem?_eq_some_iff.1 hk).1, by rw [hk]; exact decide_eq_true hne⟩, ch, hk, rfl⟩

theorem detachOthers_stepped (h : Mid s d ov) (newId : ClientId) (now : Instant) :
    Stepped W s d (detachOthers W newId now s d ov).1 (detachOthers W newId now s d ov).2.1
        (detachOthers W newId now s d ov).2.2 ∧
      (detachOthers W newId now s d ov).1.clients.map (·.id) = (s.clients.filter (·.id = newId)).map (·.id) := by
  rw [← others_kept s newId]
  unfold detachOthers
  dsimp only
  have hr := detachClients_remains now h
    (range_descending (fun k => (s.clients[k]?).any (·.id ≠ newId)) s.clients.length)
  generalize detachClients now _ s d = r at hr ⊢
  obtain ⟨s₁, d₁, effects, dropped⟩ := r
  dsimp only at hr ⊢
  split <;> rename_i hd
  · obtain ⟨hd₁, more, hids, hn⟩ := effects_notifies (W := W) hr (s₁.announceNextLeader W).1
      (ov ++ (s₁.announceNextLeader W).2)
    have hst := leave_stepped hr h (fun _ hid => .inr hid)
      (((announce_notifies hr hd).trans hn).weaken (fun _ hx => hx) (fun _ hx => hx) .inl .inr)
    rw [hd₁, hids, List.append_assoc]
    exact hst
  · obtain ⟨hd₁, more, hids, hn⟩ := effects_notifies (W := W) hr s₁ ov
    have hst := leave_stepped hr h (fun _ hid => .inr hid)
      (((noAnnounce_notifies hr hd).trans hn).weaken (fun _ hx => hx) (fun _ hx => hx) .inl .inr)
    rw [hd₁, hids]
    exact hst

end Leave

/-! ## Handshakes -/

theorem processPendingHandshakes_stepped {W : World} (cfg : Config) (now : Instant) (unixMs : Nat) {s : Session}
    {d : DaemonState} {ov : List ClientId} (h : Mid s d ov) (kept rest : List PendingHandshake)
    (polls : List HandshakePoll) :
    Stepped W s d (processPendingHandshakes W cfg now unixMs s d kept rest polls ov).1
      (processPendingHandshakes W cfg now unixMs s d kept rest polls ov).2.1
      (processPendingHandshakes W cfg now unixMs s d kept rest polls ov).2.2.2 := by
  induction rest generalizing s d kept polls ov with
  | nil => exact .refl h
  | cons entry rest ih =>
    unfold processPendingHandshakes
    split
    · split
      · rename_i accepted hok
        obtain ⟨hid, hlead, hbecame, hoff, -⟩ := finalizeAcceptedClient_ok hok
        have hattach := attachClient_stepped (W := W) h hid hlead hbecame hoff
        dsimp only
        split
        · exact hattach.trans (detachOthers_stepped hattach.mid accepted.handle.id now).1
        · exact hattach.trans (ih hattach.mid kept polls.tail)
      · dsimp only
        split
        · rename_i c _
          have hst : Stepped W s d { s with closing := admitClosing s.closing c } d ov :=
            .congr h rfl rfl rfl rfl
          exact hst.trans (ih hst.mid kept polls.tail)
        · exact ih h kept polls.tail
    · exact ih h kept polls.tail
    · exact ih h kept polls.tail
    · exact ih h _ polls.tail

end Hyoui.Daemon
