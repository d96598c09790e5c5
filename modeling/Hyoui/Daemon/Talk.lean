import Hyoui.Registry
import Hyoui.Daemon.State
/-!
# Frames that change nobody's role

Most of what the daemon does to its clients is to enqueue frames for them. `Talks` says that
this is all that happened to a session: every client is still there, with its role, and has been
offered more frames, all of a given kind; and every client that overflowed on the way is either
reported or missed. The lemmas go up from one enqueue to a broadcast; `Talks.told` connects them
to the registry.
-/

namespace Hyoui.Daemon

open Hyoui.Protocol Hyoui.Lib

/-! ## A client as a member -/

def Outgoing.leaderNotice : Outgoing → Option (Option ClientId)
  | .control (.leaderNotify id) => some id
  | _ => none

def Outgoing.lockNotice : Outgoing → Option LockNotice
  | .control (.modeChange m) => some (m.sessionMode, m.lockHolder)
  | _ => none

/-- A frame that is neither a notice about the leader or the lock, nor an ack. -/
def Outgoing.plain : Outgoing → Bool
  | .control (.leaderNotify _) | .control (.modeChange _) | .rawAck _ => false
  | _ => true

theorem plain_leaderNotice {item : Outgoing} (h : item.plain = true) : item.leaderNotice = none := by
  unfold Outgoing.leaderNotice
  split
  · cases h
  · rfl

theorem plain_lockNotice {item : Outgoing} (h : item.plain = true) : item.lockNotice = none := by
  unfold Outgoing.lockNotice
  split
  · cases h
  · rfl

def Outgoing.ack : Outgoing → Option RawAck
  | .rawAck ack => some ack
  | _ => none

theorem plain_ack {item : Outgoing} (h : item.plain = true) : item.ack = none := by
  unfold Outgoing.ack
  split
  · cases h
  · rfl

/-- A frame that says nothing about the leader or the lock. -/
structure Outgoing.Quiet (item : Outgoing) : Prop where
  leader : item.leaderNotice = none
  lock : item.lockNotice = none

namespace ClientHandle

/-- The last `leader.notify` the client was offered. -/
def leaderHeard (ch : ClientHandle) : Option (Option ClientId) := lastOf (·.item.leaderNotice) ch.offers

/-- The last `mode.change` the client was offered. -/
def lockHeard (ch : ClientHandle) : Option LockNotice := lastOf (·.item.lockNotice) ch.offers

def member (ch : ClientHandle) : Member := {
  id := ch.id
  mode := ch.mode
  leader := ch.leader
  gap := ch.overflowed
  leaderHeard := ch.leaderHeard
  lockHeard := ch.lockHeard }

end ClientHandle

/-- As long as the socket takes bytes, an offer is sent or overflows. -/
def ClientHandle.OffersSent (ch : ClientHandle) : Prop :=
  ch.send.failed = false → ∀ o ∈ ch.offers, o.outcome ≠ .sendFailed

/-- The registry of a session whose lock has this holder. -/
def Session.registry (s : Session) (holder : Option ClientId) : Registry := {
  members := s.clients.map (·.member)
  holder
  nextId := s.nextClientId }

/-! ## One client -/

/-- `ch'` is `ch` after offers of kind `P`; where it overflowed on the way, it is `known`. -/
structure Spoke (P : Outgoing → Prop) (known : List ClientId) (ch ch' : ClientHandle) : Prop where
  id : ch'.id = ch.id
  mode : ch'.mode = ch.mode
  leader : ch'.leader = ch.leader
  offers : ∃ more, ch'.offers = ch.offers ++ more ∧ ∀ o ∈ more, P o.item
  gap : ch'.overflowed = true → ch.overflowed = true ∨ ch'.id ∈ known
  sent : ch.OffersSent → ch'.OffersSent

section Spoke

variable {P Q : Outgoing → Prop} {known known' : List ClientId} {ch ch' ch'' : ClientHandle}

theorem Spoke.same (hid : ch'.id = ch.id) (hmode : ch'.mode = ch.mode) (hleader : ch'.leader = ch.leader)
    (hoffers : ch'.offers = ch.offers) (hsend : ch'.send = ch.send) : Spoke P known ch ch' where
  id := hid
  mode := hmode
  leader := hleader
  offers := ⟨[], by rw [hoffers, List.append_nil], by simp⟩
  gap h := .inl (by unfold ClientHandle.overflowed at h ⊢; rwa [hoffers] at h)
  sent h := by
    unfold ClientHandle.OffersSent
    rw [hsend, hoffers]
    exact h

theorem Spoke.refl (ch : ClientHandle) : Spoke P known ch ch := .same rfl rfl rfl rfl rfl

theorem Spoke.trans (h : Spoke P known ch ch') (h' : Spoke P known ch' ch'') : Spoke P known ch ch'' where
  id := h'.id.trans h.id
  mode := h'.mode.trans h.mode
  leader := h'.leader.trans h.leader
  offers := by
    obtain ⟨more, hm, hP⟩ := h.offers
    obtain ⟨more', hm', hP'⟩ := h'.offers
    refine ⟨more ++ more', by rw [hm', hm, List.append_assoc], ?_⟩
    intro o ho
    rcases List.mem_append.1 ho with ho | ho
    · exact hP o ho
    · exact hP' o ho
  gap hg := by
    rcases h'.gap hg with hg | hg
    · rcases h.gap hg with hg | hg
      · exact .inl hg
      · exact .inr (h'.id ▸ hg)
    · exact .inr hg
  sent hs := h'.sent (h.sent hs)

theorem Spoke.mono (h : Spoke P known ch ch') (hP : ∀ item, P item → Q item) (hk : ∀ id ∈ known, id ∈ known') :
    Spoke Q known' ch ch' where
  id := h.id
  mode := h.mode
  leader := h.leader
  offers := h.offers.imp fun _ ⟨hm, hall⟩ => ⟨hm, fun o ho => hP _ (hall o ho)⟩
  gap hg := (h.gap hg).imp (fun hg => hg) (hk _)
  sent := h.sent

theorem Spoke.overflowed (h : Spoke P known ch ch') (ho : ch.overflowed = true) : ch'.overflowed = true := by
  obtain ⟨more, hm, -⟩ := h.offers
  unfold ClientHandle.overflowed at ho ⊢
  rw [hm, List.any_append, ho, Bool.true_or]

/-- What a member heard from offers of one kind. -/
theorem Spoke.told (h : Spoke P known ch ch') {e : Prop} {L : Option ClientId → Prop} {K : LockNotice → Prop}
    (hL : ∀ item x, P item → item.leaderNotice = some x → L x)
    (hK : ∀ item x, P item → item.lockNotice = some x → K x) : Told e L K False False ch.member ch'.member := by
  obtain ⟨more, hm, hall⟩ := h.offers
  refine ⟨?_, h.overflowed, fun _ _ => ?_, fun _ _ => ?_⟩
  · simp only [Member.role, ClientHandle.member, h.id, h.mode, h.leader]
  · simp only [ClientHandle.member, ClientHandle.leaderHeard, hm, lastOf_append]
    cases hx : lastOf (fun o : Offer => o.item.leaderNotice) more with
    | none => exact .inr ⟨not_false, rfl⟩
    | some x =>
      obtain ⟨o, ho, hox⟩ := lastOf_some hx
      exact .inl ⟨x, hL _ _ (hall o ho) hox, rfl⟩
  · simp only [ClientHandle.member, ClientHandle.lockHeard, hm, lastOf_append]
    cases hx : lastOf (fun o : Offer => o.item.lockNotice) more with
    | none => exact .inr ⟨not_false, rfl⟩
    | some x =>
      obtain ⟨o, ho, hox⟩ := lastOf_some hx
      exact .inl ⟨x, hK _ _ (hall o ho) hox, rfl⟩

end Spoke

/-! ## One enqueue -/

section Enqueue

variable {ch : ClientHandle} {item : Outgoing} {payload : Bytes} {known : List ClientId}

theorem SendQueue.enqueueForClient_failed (q : SendQueue) (limit : Nat) (payload : Bytes) :
    (q.enqueueForClient limit payload).1.failed = q.failed ∧
      ((q.enqueueForClient limit payload).2 = .sendFailed → q.failed = true) := by
  unfold SendQueue.enqueueForClient
  split <;> rename_i hf
  · exact ⟨rfl, fun _ => hf⟩
  · split <;> exact ⟨rfl, fun h => nomatch h⟩

theorem enqueueForClient_spoke (ch : ClientHandle) (item : Outgoing) (payload : Bytes)
    (hk : (ch.enqueueForClient item payload).2 = .overflow → ch.id ∈ known) :
    Spoke (· = item) known ch (ch.enqueueForClient item payload).1 where
  id := rfl
  mode := rfl
  leader := rfl
  offers := ⟨[⟨item, (ch.enqueueForClient item payload).2⟩], rfl, by simp⟩
  gap h := by
    simp only [ClientHandle.overflowed, ClientHandle.enqueueForClient, List.any_append, List.any_cons, List.any_nil,
      Bool.or_false, Bool.or_eq_true, decide_eq_true_eq] at h
    exact h.imp (fun h => h) hk
  sent h hf o ho := by
    obtain ⟨hsame, hout⟩ := SendQueue.enqueueForClient_failed ch.send ch.bufferLimit payload
    have hf' : ch.send.failed = false := hsame.symm.trans hf
    rcases List.mem_append.1 ho with ho | ho
    · exact h hf' o ho
    · rw [List.mem_singleton.1 ho]
      exact fun he => absurd (hout he) (by rw [hf']; decide)

theorem enqueueForClient_overflowed (h : (ch.enqueueForClient item payload).2 = .overflow) :
    (ch.enqueueForClient item payload).1.overflowed = true := by
  simp only [ClientHandle.enqueueForClient] at h
  simp only [ClientHandle.overflowed, ClientHandle.enqueueForClient, List.any_append, List.any_cons, List.any_nil,
    h, decide_true, Bool.or_true, Bool.true_or]

theorem enqueueIgnoringLimit_spoke (ch : ClientHandle) (item : Outgoing) (payload : Bytes) :
    Spoke (· = item) known ch (ch.enqueueIgnoringLimit item payload) where
  id := rfl
  mode := rfl
  leader := rfl
  offers := ⟨[⟨item, if ch.send.failed then .sendFailed else .sent⟩], rfl, by simp⟩
  gap h := by
    simp only [ClientHandle.overflowed, ClientHandle.enqueueIgnoringLimit, List.any_append, List.any_cons,
      List.any_nil, Bool.or_false, Bool.or_eq_true, decide_eq_true_eq] at h
    rcases h with h | h
    · exact .inl h
    · split at h <;> cases h
  sent h hf o ho := by
    have hf' : ch.send.failed = false := by
      simp only [ClientHandle.enqueueIgnoringLimit, SendQueue.enqueueIgnoringLimit] at hf
      split at hf <;> exact hf
    rcases List.mem_append.1 ho with ho | ho
    · exact h hf' o ho
    · rw [List.mem_singleton.1 ho, hf']
      simp

variable {W : World}

theorem sendBackpressureError_spoke (ch : ClientHandle) (queued : Nat) :
    Spoke (·.plain = true) known ch (sendBackpressureError W ch queued) := by
  unfold sendBackpressureError
  split
  · exact .refl ch
  · split
    · exact .refl ch
    · exact (enqueueIgnoringLimit_spoke ch _ _).mono (by rintro _ rfl; rfl) fun _ h => h

/-- One enqueue of a broadcast: the item and perhaps the backpressure error; the client is
reported exactly when it overflowed now. -/
theorem handleEnqueueOutcome_spoke (ch : ClientHandle) (item : Outgoing) (payload : Bytes)
    (hk : ∀ id, (handleEnqueueOutcome W (ch.enqueueForClient item payload)).2 = some id → id ∈ known) :
    Spoke (fun i => i = item ∨ i.plain = true) known ch
      (handleEnqueueOutcome W (ch.enqueueForClient item payload)).1 := by
  have hsent : _ → Spoke (· = item) known ch _ := enqueueForClient_spoke ch item payload
  unfold handleEnqueueOutcome at hk ⊢
  split at hk <;> rename_i hout <;> simp only [hout] at hsent ⊢
  · exact (hsent (by simp)).mono (fun _ => .inl) fun _ h => h
  · refine ((hsent fun _ => hk _ rfl).mono (fun _ => .inl) fun _ h => h).trans ?_
    exact (sendBackpressureError_spoke _ _).mono (fun _ => .inr) fun _ h => h
  · exact (hsent (by simp)).mono (fun _ => .inl) fun _ h => h

theorem handleEnqueueOutcome_reported {id : ClientId}
    (h : (handleEnqueueOutcome W (ch.enqueueForClient item payload)).2 = some id) :
    id = ch.id ∧ (handleEnqueueOutcome W (ch.enqueueForClient item payload)).1.overflowed = true := by
  unfold handleEnqueueOutcome at h ⊢
  split at h <;> rename_i hout
  · cases h
  · dsimp only
    refine ⟨(Option.some.inj h).symm, ?_⟩
    have hspoke : Spoke (·.plain = true) [] _ _ := sendBackpressureError_spoke (W := W)
      (ch.enqueueForClient item payload).1 (ch.enqueueForClient item payload).1.send.queuedBytes
    exact hspoke.overflowed (enqueueForClient_overflowed hout)
  · cases h

/-- Unless it overflowed, the client got the item and nothing else. -/
theorem handleEnqueueOutcome_heard (ch : ClientHandle) (item : Outgoing) (payload : Bytes)
    (h : (handleEnqueueOutcome W (ch.enqueueForClient item payload)).1.overflowed = false) :
    ∃ o, (handleEnqueueOutcome W (ch.enqueueForClient item payload)).1.offers = ch.offers ++ [⟨item, o⟩] := by
  cases hout : (ch.enqueueForClient item payload).2 with
  | overflow =>
    have hid : (handleEnqueueOutcome W (ch.enqueueForClient item payload)).2 = some ch.id := by
      unfold handleEnqueueOutcome
      rw [hout]
      rfl
    exact absurd (handleEnqueueOutcome_reported hid).2 (by rw [h]; decide)
  | sent =>
    unfold handleEnqueueOutcome
    rw [hout]
    exact ⟨_, rfl⟩
  | sendFailed =>
    unfold handleEnqueueOutcome
    rw [hout]
    exact ⟨_, rfl⟩

end Enqueue

/-! ## A session -/

/-- Offers of kind `P` are all that happened from `s` to `s'`; a client that overflowed on the
way is in `ov` or was missed, and only such clients were missed. -/
structure Talks (P : Outgoing → Prop) (ov : List ClientId) (s s' : Session) : Prop where
  clients : List.Forall₂ (Spoke P (s'.missed ++ ov)) s.clients s'.clients
  nextClientId : s'.nextClientId = s.nextClientId
  child : s'.child = s.child
  missed : ∃ more, s'.missed = s.missed ++ more ∧ ∀ id ∈ more, ∃ ch ∈ s'.clients, ch.id = id ∧ ch.overflowed = true

section Talks

variable {P Q : Outgoing → Prop} {ov ov' : List ClientId} {s s' s'' : Session}

/-- Nothing happened to the clients. -/
theorem Talks.same (hc : s'.clients = s.clients) (hn : s'.nextClientId = s.nextClientId) (hchild : s'.child = s.child)
    (hm : s'.missed = s.missed) : Talks P ov s s' where
  clients := hc ▸ List.forall₂_same.2 fun ch _ => .refl ch
  nextClientId := hn
  child := hchild
  missed := ⟨[], by rw [hm, List.append_nil], by simp⟩

theorem Talks.refl (s : Session) : Talks P ov s s := .same rfl rfl rfl rfl

theorem Talks.mono (h : Talks P ov s s') (hP : ∀ item, P item → Q item) (ho : ∀ id ∈ ov, id ∈ ov') :
    Talks Q ov' s s' where
  clients := h.clients.imp fun _ _ hs => hs.mono hP fun id hid => by
    rcases List.mem_append.1 hid with hid | hid
    · exact List.mem_append_left _ hid
    · exact List.mem_append_right _ (ho id hid)
  nextClientId := h.nextClientId
  child := h.child
  missed := h.missed

theorem Talks.trans (h : Talks P ov s s') (h' : Talks P ov' s' s'') : Talks P (ov ++ ov') s s'' where
  clients := by
    obtain ⟨more', hm', -⟩ := h'.missed
    refine forall₂_trans (fun a b c hab hbc => ?_) h.clients h'.clients
    have hab' : Spoke P (s''.missed ++ (ov ++ ov')) a b := hab.mono (fun _ hp => hp) fun id hid => by
      simp only [hm', List.mem_append] at hid ⊢
      tauto
    exact hab'.trans (hbc.mono (fun _ hp => hp) fun id hid => by simp only [List.mem_append] at hid ⊢; tauto)
  nextClientId := h'.nextClientId.trans h.nextClientId
  child := h'.child.trans h.child
  missed := by
    obtain ⟨more, hm, hall⟩ := h.missed
    obtain ⟨more', hm', hall'⟩ := h'.missed
    refine ⟨more ++ more', by rw [hm', hm, List.append_assoc], ?_⟩
    intro id hid
    rcases List.mem_append.1 hid with hid | hid
    · obtain ⟨ch, hch, rfl, ho⟩ := hall id hid
      obtain ⟨ch', hch', hsp⟩ := forall₂_mem_left h'.clients hch
      exact ⟨ch', hch', hsp.id, hsp.overflowed ho⟩
    · exact hall' id hid

/-- `trans` where neither step reports anything. -/
theorem Talks.then (h : Talks P [] s s') (h' : Talks P ov s' s'') : Talks P ov s s'' := h.trans h'

/-- What happens to the rest of the session does not matter. -/
theorem Talks.after (h : Talks P ov s s') (hc : s''.clients = s'.clients) (hn : s''.nextClientId = s'.nextClientId)
    (hchild : s''.child = s'.child) (hm : s''.missed = s'.missed) : Talks P ov s s'' where
  clients := by
    rw [hc, hm]
    exact h.clients
  nextClientId := hn.trans h.nextClientId
  child := hchild.trans h.child
  missed := by
    rw [hc, hm]
    exact h.missed

/-- What is reported to a caller that ignores it is missed. -/
theorem Talks.ignoring {ids : List ClientId} (h : Talks P ov s s') (hsub : ∀ id ∈ ov, id ∈ ids ∨ id ∈ ov') :
    Talks P ov' s (s'.ignore ids) where
  clients := by
    refine forall₂_imp_mem h.clients fun ch _ ch' hch' hs => ⟨hs.id, hs.mode, hs.leader, hs.offers, fun ho => ?_, hs.sent⟩
    rcases hs.gap ho with hg | hg
    · exact .inl hg
    · right
      rcases List.mem_append.1 hg with hg | hg
      · exact List.mem_append_left _ (List.mem_append_left _ hg)
      · rcases hsub _ hg with hg | hg
        · refine List.mem_append_left _ (List.mem_append_right _ (List.mem_filter.2 ⟨hg, ?_⟩))
          exact List.any_eq_true.2 ⟨ch', hch', by simp [ho]⟩
        · exact List.mem_append_right _ hg
  nextClientId := h.nextClientId
  child := h.child
  missed := by
    obtain ⟨more, hm, hall⟩ := h.missed
    refine ⟨more ++ ids.filter fun id => s'.clients.any fun ch => ch.id = id && ch.overflowed, ?_, ?_⟩
    · simp only [Session.ignore, hm, List.append_assoc]
    · intro id hid
      rcases List.mem_append.1 hid with hid | hid
      · exact hall id hid
      · obtain ⟨ch, hch, hb⟩ := List.any_eq_true.1 (List.mem_filter.1 hid).2
        simp only [Bool.and_eq_true, decide_eq_true_eq] at hb
        exact ⟨ch, hch, hb.1, hb.2⟩

theorem Talks.ignore (h : Talks P ov s s') : Talks P [] s (s'.ignore ov) := h.ignoring fun _ hid => .inl hid

theorem Talks.length (h : Talks P ov s s') : s'.clients.length = s.clients.length := h.clients.length_eq.symm

theorem Talks.told (h : Talks P ov s s') {e : Prop} {L : Option ClientId → Prop} {K : LockNotice → Prop}
    (hL : ∀ item x, P item → item.leaderNotice = some x → L x)
    (hK : ∀ item x, P item → item.lockNotice = some x → K x) :
    List.Forall₂ (Told e L K False False) (s.clients.map (·.member)) (s'.clients.map (·.member)) := by
  rw [List.forall₂_map_left_iff, List.forall₂_map_right_iff]
  exact h.clients.imp fun _ _ hs => hs.told hL hK

/-- Quiet frames tell nobody about the leader or the lock. -/
theorem Talks.quiet_told (h : Talks Outgoing.Quiet ov s s') {e : Prop} {L : Option ClientId → Prop}
    {K : LockNotice → Prop} :
    List.Forall₂ (Told e L K False False) (s.clients.map (·.member)) (s'.clients.map (·.member)) :=
  h.told (fun _ _ hp hx => absurd hx (by rw [hp.leader]; simp)) fun _ _ hp hx => absurd hx (by rw [hp.lock]; simp)

theorem Talks.quiet (h : Talks (·.plain = true) ov s s') : Talks Outgoing.Quiet ov s s' :=
  h.mono (fun _ hp => ⟨plain_leaderNotice hp, plain_lockNotice hp⟩) fun _ hid => hid

end Talks

/-! ### One client of the session -/

section At

variable {P : Outgoing → Prop} {s : Session} {idx : Nat} {ch ch' : ClientHandle}

theorem talks_set {ov : List ClientId} (hch : s.clients[idx]? = some ch) (h : Spoke P (s.missed ++ ov) ch ch') :
    Talks P ov s { s with clients := s.clients.set idx ch' } where
  clients := forall₂_set (fun a => .refl a) hch h
  nextClientId := rfl
  child := rfl
  missed := ⟨[], (List.append_nil _).symm, by simp⟩

theorem offer_spoke {known : List ClientId} (ch : ClientHandle) (item : Outgoing) (payload : Option Bytes)
    (hk : (ch.offer item payload).2 = some .overflow → ch.id ∈ known) :
    Spoke (· = item) known ch (ch.offer item payload).1 := by
  cases payload with
  | none => exact .refl ch
  | some payload => exact enqueueForClient_spoke ch item payload fun h => hk (congrArg some h)

theorem offer_id (ch : ClientHandle) (item : Outgoing) (payload : Option Bytes) :
    (ch.offer item payload).1.id = ch.id := by
  cases payload <;> rfl

theorem offerAt_eq (hch : s.clients[idx]? = some ch) (item : Outgoing) (payload : Option Bytes) :
    s.offerAt idx item payload =
      ({ s with clients := s.clients.set idx (ch.offer item payload).1 }, (ch.offer item payload).2) := by
  unfold Session.offerAt
  rw [hch]

theorem offerAt_talks (hch : s.clients[idx]? = some ch) (item : Outgoing) (payload : Option Bytes) :
    Talks (· = item) (if (s.offerAt idx item payload).2 = some .overflow then [ch.id] else []) s
      (s.offerAt idx item payload).1 := by
  rw [offerAt_eq hch]
  refine talks_set hch (offer_spoke ch item payload fun ho => ?_)
  rw [if_pos ho]
  exact List.mem_append_right _ (List.mem_singleton.2 rfl)

theorem sendIgnoring_talks (s : Session) (idx : Nat) (item : Outgoing) (payload : Option Bytes) :
    Talks (· = item) [] s (s.sendIgnoring idx (·.offer item payload)).1 := by
  unfold Session.sendIgnoring
  cases hch : s.clients[idx]? with
  | none => exact .refl s
  | some ch =>
    have h := offerAt_talks hch item payload
    rw [offerAt_eq hch] at h
    dsimp only
    split <;> rename_i ho
    · rw [if_pos ho] at h
      exact h.ignore
    · rw [if_neg ho] at h
      exact h

theorem reply_talks (W : World) (s : Session) (idx : Nat) (msg : ControlMessage) :
    Talks (· = .control msg) [] s (s.reply W idx msg) := sendIgnoring_talks s idx _ _

theorem reply_plain (W : World) (s : Session) (idx : Nat) {msg : ControlMessage}
    (h : (Outgoing.control msg).plain = true) : Talks (·.plain = true) [] s (s.reply W idx msg) :=
  (reply_talks W s idx msg).mono (by rintro _ rfl; exact h) fun _ h => h

end At

/-! ### Broadcasts -/

section Broadcast

variable {W : World}

/-- Every client selected for a frame is offered that frame, and who overflows is reported. -/
theorem broadcastWith_talks {P : Outgoing → Prop} (s : Session) (select : ClientHandle → Option (Outgoing × Bytes))
    (hP : ∀ ch item payload, select ch = some (item, payload) → P item) (hplain : ∀ item, item.plain = true → P item) :
    Talks P (broadcastWith W s.clients select).2 s { s with clients := (broadcastWith W s.clients select).1 } where
  clients := by
    simp only [broadcastWith, List.map_map]
    refine forall₂_map_of fun ch hch => ?_
    simp only [Function.comp_apply]
    cases hsel : select ch with
    | none => exact .refl ch
    | some sel =>
      refine (handleEnqueueOutcome_spoke ch sel.1 sel.2 fun id hid => ?_).mono (fun i hi => ?_) fun _ h => h
      · refine List.mem_append_right _ (List.mem_filterMap.2 ⟨_, List.mem_map_of_mem hch, ?_⟩)
        simp only [hsel]
        exact hid
      · rcases hi with rfl | hi
        · exact hP ch _ sel.2 hsel
        · exact hplain i hi
  nextClientId := rfl
  child := rfl
  missed := ⟨[], (List.append_nil _).symm, by simp⟩

theorem broadcastControl_talks (W : World) (s : Session) (msg : ControlMessage) :
    Talks (fun i => i = .control msg ∨ i.plain = true) (s.broadcastControl W msg).2 s (s.broadcastControl W msg).1 :=
  broadcastWith_talks s _ (fun _ item payload h => by
    simp only [Option.map_eq_some_iff, Prod.mk.injEq] at h
    obtain ⟨_, -, rfl, -⟩ := h
    exact .inl rfl) fun _ h => .inr h

/-- A broadcast that encodes reaches every client, as the last thing it is offered. -/
theorem broadcastControl_heard (s : Session) {msg : ControlMessage} (he : (W.controlFrame msg).isSome) :
    List.Forall₂ (fun ch ch' => ch'.overflowed = false → ∃ o, ch'.offers = ch.offers ++ [⟨.control msg, o⟩])
      s.clients (s.broadcastControl W msg).1.clients := by
  obtain ⟨payload, hp⟩ := Option.isSome_iff_exists.1 he
  simp only [Session.broadcastControl, Daemon.broadcastControl, broadcastWith, List.map_map, hp, Option.map_some]
  exact forall₂_map_of fun ch _ h => handleEnqueueOutcome_heard ch _ _ h

end Broadcast

/-- The codec encodes the two notices, within the limit of a frame. -/
structure Encodes (W : World) : Prop where
  leaderNotify : ∀ id, (W.controlFrame (.leaderNotify id)).isSome
  modeChange : ∀ m, (W.controlFrame (.modeChange m)).isSome

/-- From `s` to `s'` clients were offered frames, no ack among them, and told about the leader
and the lock what `L` and `K` allow. -/
structure Notifies (W : World) (L : Option ClientId → Prop) (K : LockNotice → Prop) (mustL mustK : Prop)
    (ov : List ClientId) (s s' : Session) : Prop where
  talks : Talks (·.ack = none) ov s s'
  told : List.Forall₂ (Told (Encodes W) L K mustL mustK) (s.clients.map (·.member)) (s'.clients.map (·.member))

section Notices

variable {W : World} {e : Prop} {L : Option ClientId → Prop} {K : LockNotice → Prop}

/-- A broadcast tells everybody exactly what its message says. -/
theorem broadcast_told (s : Session) {msg : ControlMessage} (he : e → (W.controlFrame msg).isSome) :
    List.Forall₂ (Told e (fun x => (Outgoing.control msg).leaderNotice = some x)
        (fun x => (Outgoing.control msg).lockNotice = some x) ((Outgoing.control msg).leaderNotice.isSome = true)
        ((Outgoing.control msg).lockNotice.isSome = true)) (s.clients.map (·.member))
      ((s.broadcastControl W msg).1.clients.map (·.member)) := by
  have hplain : ∀ item : Outgoing, item = .control msg ∨ item.plain = true → ∀ x,
      (item.leaderNotice = some x → (Outgoing.control msg).leaderNotice = some x) := by
    rintro item (rfl | hp) x hx
    · exact hx
    · rw [plain_leaderNotice hp] at hx
      cases hx
  have hplain' : ∀ item : Outgoing, item = .control msg ∨ item.plain = true → ∀ x,
      (item.lockNotice = some x → (Outgoing.control msg).lockNotice = some x) := by
    rintro item (rfl | hp) x hx
    · exact hx
    · rw [plain_lockNotice hp] at hx
      cases hx
  have htold := (broadcastControl_talks W s msg).told (e := e)
    (fun item x hp => hplain item hp x) (fun item x hp => hplain' item hp x)
  by_cases hen : e
  · have hheard := broadcastControl_heard s (he hen)
    rw [List.forall₂_map_left_iff, List.forall₂_map_right_iff] at htold ⊢
    refine (forall₂_and htold hheard).imp fun ch ch' ⟨ht, hh⟩ => ⟨ht.role, ht.gap, fun _ hg => ?_, fun _ hg => ?_⟩
    · obtain ⟨o, ho⟩ := hh hg
      have hlast : ch'.leaderHeard = (Outgoing.control msg).leaderNotice.or ch.leaderHeard := by
        rw [ClientHandle.leaderHeard, ho, lastOf_append, lastOf_singleton]
        rfl
      simp only [ClientHandle.member, hlast]
      cases (Outgoing.control msg).leaderNotice with
      | none => exact .inr ⟨by simp, rfl⟩
      | some x => exact .inl ⟨x, rfl, rfl⟩
    · obtain ⟨o, ho⟩ := hh hg
      have hlast : ch'.lockHeard = (Outgoing.control msg).lockNotice.or ch.lockHeard := by
        rw [ClientHandle.lockHeard, ho, lastOf_append, lastOf_singleton]
        rfl
      simp only [ClientHandle.member, hlast]
      cases (Outgoing.control msg).lockNotice with
      | none => exact .inr ⟨by simp, rfl⟩
      | some x => exact .inl ⟨x, rfl, rfl⟩
  · exact htold.imp fun _ _ ht => ⟨ht.role, ht.gap, fun h => absurd h hen, fun h => absurd h hen⟩

variable {mustL mustK mustL' mustK' : Prop} {L' : Option ClientId → Prop} {K' : LockNotice → Prop}
  {ov ov' : List ClientId} {s s' s'' : Session}

theorem Notifies.refl (s : Session) : Notifies W L K False False ov s s :=
  ⟨.refl s, List.forall₂_same.2 fun m _ => .refl m⟩

theorem Notifies.trans (h : Notifies W L K mustL mustK ov s s') (h' : Notifies W L K mustL' mustK' ov' s' s'') :
    Notifies W L K (mustL ∨ mustL') (mustK ∨ mustK') (ov ++ ov') s s'' :=
  ⟨h.talks.trans h'.talks, forall₂_trans (fun _ _ _ ht ht' => ht.trans ht') h.told h'.told⟩

theorem Notifies.weaken (h : Notifies W L K mustL mustK ov s s') (hL : ∀ x, L x → L' x) (hK : ∀ x, K x → K' x)
    (hmL : mustL' → mustL) (hmK : mustK' → mustK) : Notifies W L' K' mustL' mustK' ov s s' :=
  ⟨h.talks, h.told.imp fun _ _ ht => ht.weaken hL hK hmL hmK⟩

theorem Notifies.ignore (h : Notifies W L K mustL mustK ov s s') :
    Notifies W L K mustL mustK [] s (s'.ignore ov) := ⟨h.talks.ignore, h.told⟩

theorem Talks.notifies (h : Talks (·.plain = true) ov s s') : Notifies W L K False False ov s s' :=
  ⟨h.mono (fun _ => plain_ack) fun _ hid => hid, h.quiet.quiet_told⟩

theorem broadcast_notifies (s : Session) {msg : ControlMessage} (he : Encodes W → (W.controlFrame msg).isSome)
    (hL : ∀ x, (Outgoing.control msg).leaderNotice = some x → L x)
    (hK : ∀ x, (Outgoing.control msg).lockNotice = some x → K x)
    (hmL : mustL → (Outgoing.control msg).leaderNotice.isSome = true)
    (hmK : mustK → (Outgoing.control msg).lockNotice.isSome = true) :
    Notifies W L K mustL mustK (s.broadcastControl W msg).2 s (s.broadcastControl W msg).1 where
  talks := (broadcastControl_talks W s msg).mono (by rintro _ (rfl | hp); exacts [rfl, plain_ack hp]) fun _ hid => hid
  told := (broadcast_told s he).imp fun _ _ ht => ht.weaken hL hK hmL hmK

theorem leaderNotify_notifies (s : Session) (x : Option ClientId) :
    Notifies W (· = x) K True False (s.broadcastControl W (.leaderNotify x)).2 s
      (s.broadcastControl W (.leaderNotify x)).1 :=
  broadcast_notifies s (fun he => he.leaderNotify x) (fun _ hy => (Option.some.inj hy).symm) (fun _ hy => nomatch hy)
    (fun _ => rfl) False.elim

theorem modeChange_notifies (s : Session) (m : ModeChange) :
    Notifies W L (· = (m.sessionMode, m.lockHolder)) False True (s.broadcastControl W (.modeChange m)).2 s
      (s.broadcastControl W (.modeChange m)).1 :=
  broadcast_notifies s (fun he => he.modeChange m) (fun _ hy => nomatch hy) (fun _ hy => (Option.some.inj hy).symm)
    False.elim fun _ => rfl

/-- A reply that is itself a notice. -/
theorem reply_notifies (s : Session) (idx : Nat) {msg : ControlMessage}
    (hL : ∀ x, (Outgoing.control msg).leaderNotice = some x → L x)
    (hK : ∀ x, (Outgoing.control msg).lockNotice = some x → K x) :
    Notifies W L K False False [] s (s.reply W idx msg) where
  talks := (reply_talks W s idx msg).mono (by rintro _ rfl; rfl) fun _ hid => hid
  told := (reply_talks W s idx msg).told (by rintro _ x rfl hx; exact hL x hx) (by rintro _ x rfl hx; exact hK x hx)

end Notices

end Hyoui.Daemon
