import Hyoui.Daemon.Turn
/-!
# What is sent without a look at what becomes of it

Handlers answer requests and announce changes without checking the enqueue. `answers` is what the
handler of a request sends in this way, read off the request and the state before it, and
`answersRefused` who has no room for it, by the queue's own test. Every handler sends its answers
and nothing else unchecked (`handleControlMessage_lost`): whoever it misses is among the refused,
or is dropped with the frame.
-/

namespace Hyoui.Daemon

open Hyoui.Protocol Hyoui.Lib

/-! ## A full queue -/

/-- The test of `enqueue_for_client`: the queue takes no frame of this size now. -/
def SendQueue.refuses (q : SendQueue) (bufferLimit : Nat) (payload : Bytes) : Bool :=
  !q.failed && decide (q.queuedBytes > 0 ∧ q.queuedBytes + payload.length > bufferLimit)

/-- The client has no room for the frame, where there is one for it. -/
def ClientHandle.refuses (ch : ClientHandle) (payload : Option Bytes) : Bool :=
  payload.any (ch.send.refuses ch.bufferLimit)

/-- The clients that have no room for the frame that is picked for them. -/
def refusing (clients : List ClientHandle) (pick : ClientHandle → Option Bytes) : List ClientId :=
  clients.filterMap fun ch => if ch.refuses (pick ch) then some ch.id else none

section Full

variable {W : World}

theorem SendQueue.enqueueForClient_refuses (q : SendQueue) (bufferLimit : Nat) (payload : Bytes) :
    (q.enqueueForClient bufferLimit payload).2 = .overflow ↔ q.refuses bufferLimit payload = true := by
  unfold SendQueue.enqueueForClient SendQueue.refuses
  cases hf : q.failed with
  | true => simp
  | false =>
    simp only [Bool.false_eq_true, if_false, Bool.not_false, Bool.true_and, decide_eq_true_eq]
    split <;> simp_all

theorem offer_overflow (ch : ClientHandle) (item : Outgoing) (payload : Option Bytes) :
    (ch.offer item payload).2 = some .overflow ↔ ch.refuses payload = true := by
  cases payload with
  | none => simp [ClientHandle.offer, ClientHandle.refuses]
  | some payload =>
    rw [ClientHandle.refuses, Option.any_some, ← SendQueue.enqueueForClient_refuses]
    exact ⟨Option.some.inj, congrArg some⟩

theorem handleEnqueueOutcome_refuses (ch : ClientHandle) (item : Outgoing) (payload : Bytes) :
    (handleEnqueueOutcome W (ch.enqueueForClient item payload)).2 =
      if ch.refuses (some payload) then some ch.id else none := by
  have hover := SendQueue.enqueueForClient_refuses ch.send ch.bufferLimit payload
  simp only [ClientHandle.refuses, Option.any_some, ← hover]
  unfold handleEnqueueOutcome ClientHandle.enqueueForClient
  dsimp only
  cases (ch.send.enqueueForClient ch.bufferLimit payload).2 with
  | sent => rfl
  | sendFailed => rfl
  | overflow => rfl

/-- A broadcast reports the clients that have no room. -/
theorem broadcastWith_refusing (clients : List ClientHandle) (select : ClientHandle → Option (Outgoing × Bytes)) :
    (broadcastWith W clients select).2 = refusing clients fun ch => (select ch).map (·.2) := by
  unfold broadcastWith refusing
  dsimp only
  rw [List.filterMap_map]
  refine List.filterMap_congr fun ch _ => ?_
  simp only [Function.comp_apply]
  split <;> rename_i hselect <;> simp only [hselect]
  · rfl
  · exact handleEnqueueOutcome_refuses ch _ _

theorem mem_refusing {clients : List ClientHandle} {pick : ClientHandle → Option Bytes} {ch : ClientHandle}
    (hch : ch ∈ clients) (h : ch.refuses (pick ch) = true) : ch.id ∈ refusing clients pick :=
  List.mem_filterMap.2 ⟨ch, hch, if_pos h⟩

theorem offer_refused (ch : ClientHandle) (item : Outgoing) (payload : Option Bytes) :
    (ch.offer item payload).1.overflowed = (ch.overflowed || ch.refuses payload) := by
  rw [offer_overflowed_eq]
  congr 1
  rw [Bool.eq_iff_iff, decide_eq_true_iff]
  exact offer_overflow ch item payload

end Full

/-! ## Gaps -/

/-- Whoever of `clients'` overflowed is among `full`, or did so before. -/
def GapsIn (full : List ClientId) (clients clients' : List ClientHandle) : Prop :=
  ∀ ch' ∈ clients', ch'.overflowed = true → ch'.id ∈ full ∨ ∃ ch ∈ clients, ch.id = ch'.id ∧ ch.overflowed = true

section GapsIn

variable {full full' : List ClientId} {l l' l'' : List ClientHandle}

theorem GapsIn.of_mem (h : ∀ ch ∈ l', ch ∈ l) : GapsIn full l l' := fun ch hch ho => .inr ⟨ch, h ch hch, rfl, ho⟩

theorem GapsIn.refl (l : List ClientHandle) : GapsIn full l l := .of_mem fun _ hch => hch

theorem GapsIn.mono (h : GapsIn full l l') (hsub : ∀ id ∈ full, id ∈ full') : GapsIn full' l l' := fun ch hch ho =>
  (h ch hch ho).imp_left (hsub _)

theorem GapsIn.trans (h : GapsIn full l l') (h' : GapsIn full' l' l'') : GapsIn (full ++ full') l l'' := by
  intro ch'' hch'' ho
  rcases h' ch'' hch'' ho with hid | ⟨ch', hch', hid', ho'⟩
  · exact .inl (List.mem_append_right _ hid)
  · rcases h ch' hch' ho' with hid | ⟨ch, hch, hid, ho⟩
    · exact .inl (List.mem_append_left _ (hid' ▸ hid))
    · exact .inr ⟨ch, hch, hid.trans hid', ho⟩

theorem GapsIn.of_spokes {P : Outgoing → Prop} (h : List.Forall₂ (Spoke P full) l l') : GapsIn full l l' := by
  intro ch' hch' ho
  obtain ⟨ch, hch, hs⟩ := forall₂_mem_right h hch'
  exact (hs.gap ho).symm.imp (fun hid => hid) fun ho => ⟨ch, hch, hs.id.symm, ho⟩

/-- The gaps of a list are seen in its wires. -/
theorem GapsIn.of_wires (h : l'.map (·.wire) = l''.map (·.wire)) (hg : GapsIn full l l'') : GapsIn full l l' := by
  intro ch' hch' ho
  obtain ⟨ch, hch, he⟩ := List.mem_map.1 (h ▸ List.mem_map_of_mem (f := ClientHandle.wire) hch')
  have hid : ch.id = ch'.id := congrArg Wire.id he
  have hoffers : ch.offers = ch'.offers := congrArg Wire.offers he
  rw [← hid]
  exact hg ch hch (by rwa [ClientHandle.overflowed, hoffers])

end GapsIn

section Full

variable {W : World}

/-- Who is reported by a broadcast, and nobody else, has a new gap. -/
theorem broadcastWith_gaps (clients : List ClientHandle) (select : ClientHandle → Option (Outgoing × Bytes)) :
    GapsIn (broadcastWith W clients select).2 clients (broadcastWith W clients select).1 :=
  .of_spokes (broadcastWith_talks (P := fun _ => True) { scrollback := { maxBytes := 0 }, clients } select
    (fun _ _ _ _ => trivial) fun _ _ => trivial).clients

/-- A frame for some of the clients, each sent it by itself. -/
theorem offers_gaps (clients : List ClientHandle) (item : Outgoing) (pick : ClientHandle → Option Bytes)
    {f : ClientHandle → ClientHandle} (hf : ∀ ch, f ch = (ch.offer item (pick ch)).1) :
    GapsIn (refusing clients pick) clients (clients.map f) := by
  intro ch' hch' ho
  obtain ⟨ch, hch, rfl⟩ := List.mem_map.1 hch'
  rw [hf] at ho ⊢
  rw [offer_refused, Bool.or_eq_true] at ho
  rw [offer_id]
  exact ho.symm.imp (mem_refusing hch) fun ho => ⟨ch, hch, rfl, ho⟩

end Full

/-! ## The wire of a client -/

/-- A function of the wire sees no more of a list than its wires. -/
theorem map_of_wires {γ : Type} {g : ClientHandle → γ} (hg : ∀ a b : ClientHandle, a.wire = b.wire → g a = g b)
    {l l' : List ClientHandle} (h : l.map (·.wire) = l'.map (·.wire)) : l.map g = l'.map g := by
  induction l generalizing l' with
  | nil =>
    cases l' with
    | nil => rfl
    | cons b l' => cases h
  | cons a l ih =>
    cases l' with
    | nil => cases h
    | cons b l' =>
      simp only [List.map_cons, List.cons.injEq] at h ⊢
      exact ⟨hg a b h.1, ih h.2⟩

theorem ids_of_wires {l l' : List ClientHandle} (h : l.map (·.wire) = l'.map (·.wire)) :
    l.map (·.id) = l'.map (·.id) := map_of_wires (fun _ _ hab => congrArg Wire.id hab) h

section Wires

variable {W : World} {a b : ClientHandle}

theorem enqueueForClient_wire (h : a.wire = b.wire) (item : Outgoing) (payload : Bytes) :
    (a.enqueueForClient item payload).1.wire = (b.enqueueForClient item payload).1.wire ∧
      (a.enqueueForClient item payload).2 = (b.enqueueForClient item payload).2 := by
  simp only [ClientHandle.wire, Wire.mk.injEq] at h
  obtain ⟨hid, hoffers, hsend, hlimit, hcaps⟩ := h
  simp only [ClientHandle.enqueueForClient, ClientHandle.wire, hid, hoffers, hsend, hlimit, hcaps, and_self]

theorem offer_wire (h : a.wire = b.wire) (item : Outgoing) (payload : Option Bytes) :
    (a.offer item payload).1.wire = (b.offer item payload).1.wire := by
  cases payload with
  | none => exact h
  | some payload => exact (enqueueForClient_wire h item payload).1

theorem sendBackpressureError_wire (h : a.wire = b.wire) (queued : Nat) :
    (sendBackpressureError W a queued).wire = (sendBackpressureError W b queued).wire := by
  have hsend := congrArg Wire.send h
  have hlimit := congrArg Wire.bufferLimit h
  simp only [ClientHandle.wire] at hsend hlimit
  have hmsg : backpressureError a queued = backpressureError b queued := by simp only [backpressureError, hlimit]
  unfold sendBackpressureError
  rw [hmsg, hsend]
  split
  · exact h
  · split
    · exact h
    · simp only [ClientHandle.wire, Wire.mk.injEq, ClientHandle.enqueueIgnoringLimit] at h ⊢
      simp only [h, and_self]

theorem handleEnqueueOutcome_wire (h : a.wire = b.wire) (item : Outgoing) (payload : Bytes) :
    (handleEnqueueOutcome W (a.enqueueForClient item payload)).1.wire =
      (handleEnqueueOutcome W (b.enqueueForClient item payload)).1.wire := by
  obtain ⟨hwire, hout⟩ := enqueueForClient_wire h item payload
  have hqueued := congrArg SendQueue.queuedBytes (congrArg Wire.send hwire)
  simp only [ClientHandle.wire] at hqueued
  unfold handleEnqueueOutcome
  rw [hout]
  cases (b.enqueueForClient item payload).2 with
  | sent => exact hwire
  | sendFailed => exact hwire
  | overflow =>
    dsimp only
    rw [hqueued]
    exact sendBackpressureError_wire hwire _

theorem refuses_wire (h : a.wire = b.wire) (payload : Option Bytes) : a.refuses payload = b.refuses payload := by
  simp only [ClientHandle.wire, Wire.mk.injEq] at h
  simp only [ClientHandle.refuses, h]

end Wires

/-! ## Answers -/

/-- A frame that is sent without a look at what becomes of it: to one client, or to all (with a
capability, where one is asked for). -/
inductive Answer where
  | reply (id : ClientId) (msg : ControlMessage)
  | announce (cap : Option Cap) (msg : ControlMessage)

namespace Answer

variable (W : World)

/-- The frame of an answer, for the clients it is meant for. -/
def pick : Answer → ClientHandle → Option Bytes
  | .reply id msg, ch => if ch.id = id then W.controlFrame msg else none
  | .announce none msg, _ => W.controlFrame msg
  | .announce (some cap) msg, ch => if cap ∈ ch.negotiatedCaps then W.controlFrame msg else none

/-- The clients once they were sent the answer. -/
def sent (a : Answer) (clients : List ClientHandle) : List ClientHandle :=
  match a with
  | .reply id msg => clients.map fun ch => if ch.id = id then (sendControl W ch msg).1 else ch
  | .announce none msg => (broadcastControl W clients msg).1
  | .announce (some cap) msg => (broadcastControlWithCap W clients msg cap).1

end Answer

variable (W : World) in
def answersSent (clients : List ClientHandle) (as : List Answer) : List ClientHandle :=
  as.foldl (fun clients a => a.sent W clients) clients

variable (W : World) in
/-- The clients that have no room for one of the answers, sent one after the other. -/
def answersRefused (clients : List ClientHandle) : List Answer → List ClientId
  | [] => []
  | a :: as => refusing clients (a.pick W) ++ answersRefused (a.sent W clients) as

section Sent

variable {W : World} {l l' : List ClientHandle}

theorem pick_wire (a : Answer) {c c' : ClientHandle} (h : c.wire = c'.wire) : a.pick W c = a.pick W c' := by
  simp only [ClientHandle.wire, Wire.mk.injEq] at h
  match a with
  | .reply id msg => simp only [Answer.pick, h]
  | .announce none msg => rfl
  | .announce (some cap) msg => simp only [Answer.pick, h]

theorem refusing_wires (a : Answer) (h : l.map (·.wire) = l'.map (·.wire)) :
    refusing l (a.pick W) = refusing l' (a.pick W) := by
  have hmap := map_of_wires (g := fun ch : ClientHandle => if ch.refuses (a.pick W ch) then some ch.id else none)
    (fun c c' hc => by rw [pick_wire a hc, refuses_wire hc, show c.id = c'.id from congrArg Wire.id hc]) h
  have hflat := congrArg (List.filterMap id) hmap
  rwa [List.filterMap_map, List.filterMap_map] at hflat

theorem broadcastWith_wires (select : ClientHandle → Option (Outgoing × Bytes))
    (hsel : ∀ c c' : ClientHandle, c.wire = c'.wire → select c = select c') (h : l.map (·.wire) = l'.map (·.wire)) :
    (broadcastWith W l select).1.map (·.wire) = (broadcastWith W l' select).1.map (·.wire) := by
  simp only [broadcastWith, List.map_map]
  refine map_of_wires (fun c c' hc => ?_) h
  simp only [Function.comp_apply, hsel c c' hc]
  cases select c' with
  | none => exact hc
  | some sel => exact handleEnqueueOutcome_wire hc sel.1 sel.2

theorem sent_wires (a : Answer) (h : l.map (·.wire) = l'.map (·.wire)) :
    (a.sent W l).map (·.wire) = (a.sent W l').map (·.wire) := by
  match a with
  | .reply id msg =>
    simp only [Answer.sent, List.map_map]
    refine map_of_wires (fun c c' hc => ?_) h
    simp only [Function.comp_apply, show c.id = c'.id from congrArg Wire.id hc]
    split
    · exact offer_wire hc _ _
    · exact hc
  | .announce none msg => exact broadcastWith_wires _ (fun _ _ _ => rfl) h
  | .announce (some cap) msg =>
    refine broadcastWith_wires _ (fun c c' hc => ?_) h
    simp only [show c.negotiatedCaps = c'.negotiatedCaps from congrArg Wire.negotiatedCaps hc]

theorem answersSent_wires (as : List Answer) (h : l.map (·.wire) = l'.map (·.wire)) :
    (answersSent W l as).map (·.wire) = (answersSent W l' as).map (·.wire) := by
  induction as generalizing l l' with
  | nil => exact h
  | cons a as ih => exact ih (sent_wires a h)

theorem answersRefused_wires (as : List Answer) (h : l.map (·.wire) = l'.map (·.wire)) :
    answersRefused W l as = answersRefused W l' as := by
  induction as generalizing l l' with
  | nil => rfl
  | cons a as ih => rw [answersRefused, answersRefused, refusing_wires a h, ih (sent_wires a h)]

theorem answersRefused_append (as bs : List Answer) :
    answersRefused W l (as ++ bs) = answersRefused W l as ++ answersRefused W (answersSent W l as) bs := by
  induction as generalizing l with
  | nil => rfl
  | cons a as ih => simp only [List.cons_append, answersRefused, ih, List.append_assoc, answersSent, List.foldl_cons]

theorem announce_refusing (l : List ClientHandle) (msg : ControlMessage) :
    (broadcastControl W l msg).2 = refusing l ((Answer.announce none msg).pick W) := by
  rw [broadcastControl, broadcastWith_refusing]
  cases hp : W.controlFrame msg <;> simp [refusing, Answer.pick, hp]

theorem announceCap_refusing (l : List ClientHandle) (msg : ControlMessage) (cap : Cap) :
    (broadcastControlWithCap W l msg cap).2 = refusing l ((Answer.announce (some cap) msg).pick W) := by
  rw [broadcastControlWithCap, broadcastWith_refusing]
  congr 1
  funext ch
  simp only [Answer.pick]
  split <;> cases W.controlFrame msg <;> rfl

theorem sent_gaps (a : Answer) (l : List ClientHandle) : GapsIn (refusing l (a.pick W)) l (a.sent W l) := by
  match a with
  | .reply id msg =>
    refine offers_gaps l (.control msg) _ fun ch => ?_
    simp only [Answer.pick]
    split <;> rfl
  | .announce none msg => exact announce_refusing l msg ▸ broadcastWith_gaps l _
  | .announce (some cap) msg => exact announceCap_refusing l msg cap ▸ broadcastWith_gaps l _

theorem answersSent_gaps (as : List Answer) (l : List ClientHandle) :
    GapsIn (answersRefused W l as) l (answersSent W l as) := by
  induction as generalizing l with
  | nil => exact .refl l
  | cons a as ih => exact (sent_gaps a l).trans (ih _)

end Sent

/-! ## Sending answers -/

/-- From `s` to `s'` the answers were sent; who was missed had no room for one of them. -/
structure Tells (W : World) (s s' : Session) (as : List Answer) : Prop where
  wires : s'.clients.map (·.wire) = (answersSent W s.clients as).map (·.wire)
  missed : ∀ id ∈ s'.missed, id ∈ s.missed ∨ id ∈ answersRefused W s.clients as

/-- The client at index `idx` is `id`, and nobody else is. -/
structure Session.Seats (s : Session) (idx : Nat) (id : ClientId) : Prop where
  nodup : (s.clients.map (·.id)).Nodup
  seat : (s.clients.map (·.id))[idx]? = some id

section Tells

variable {W : World} {s s' s'' : Session} {as bs : List Answer} {idx : Nat} {id : ClientId}

theorem Tells.same (hw : s'.clients.map (·.wire) = s.clients.map (·.wire)) (hm : s'.missed = s.missed) :
    Tells W s s' [] := ⟨hw, fun _ hid => .inl (hm ▸ hid)⟩

theorem Tells.trans (h : Tells W s s' as) (h' : Tells W s' s'' bs) : Tells W s s'' (as ++ bs) where
  wires := by
    rw [h'.wires, answersSent_wires bs h.wires]
    simp only [answersSent, List.foldl_append]
  missed id hid := by
    rw [answersRefused_append, List.mem_append]
    rcases h'.missed id hid with hid | hid
    · exact (h.missed id hid).imp (fun hid => hid) .inl
    · exact .inr (.inr (answersRefused_wires bs h.wires ▸ hid))

/-- An answer is sent after what says nothing to anybody. -/
theorem Tells.after (s' : Session) (hw : s'.clients.map (·.wire) = s.clients.map (·.wire))
    (hm : s'.missed = s.missed) (h : Tells W s' s'' as) : Tells W s s'' as := (Tells.same hw hm).trans h

theorem Tells.before (h : Tells W s s' as) (hw : s''.clients.map (·.wire) = s'.clients.map (·.wire))
    (hm : s''.missed = s'.missed) : Tells W s s'' as := by
  have hall := h.trans (Tells.same (W := W) hw hm)
  rwa [List.append_nil] at hall

theorem sent_ids (a : Answer) (l : List ClientHandle) : (a.sent W l).map (·.id) = l.map (·.id) := by
  have hbroadcast : ∀ select, (broadcastWith W l select).1.map (·.id) = l.map (·.id) := by
    intro select
    have htalks := broadcastWith_talks (W := W) (P := fun _ => True) { scrollback := { maxBytes := 0 }, clients := l }
      select (fun _ _ _ _ => trivial) fun _ _ => trivial
    exact forall₂_map_eq (fun _ _ hs => hs.id) htalks.clients
  match a with
  | .reply id msg =>
    simp only [Answer.sent, List.map_map]
    refine List.map_congr_left fun ch _ => ?_
    simp only [Function.comp_apply]
    split
    · exact offer_id ch _ _
    · rfl
  | .announce none msg => exact hbroadcast _
  | .announce (some cap) msg => exact hbroadcast _

theorem answersSent_ids (as : List Answer) (l : List ClientHandle) :
    (answersSent W l as).map (·.id) = l.map (·.id) := by
  induction as generalizing l with
  | nil => rfl
  | cons a as ih => exact (ih (a.sent W l)).trans (sent_ids a l)

theorem Tells.ids (h : Tells W s s' as) : s'.clients.map (·.id) = s.clients.map (·.id) := by
  rw [ids_of_wires h.wires]
  exact answersSent_ids as s.clients

theorem Tells.gaps (h : Tells W s s' as) : GapsIn (answersRefused W s.clients as) s.clients s'.clients :=
  .of_wires h.wires (answersSent_gaps as s.clients)

theorem Tells.seats (h : Tells W s s' as) (hs : s.Seats idx id) : s'.Seats idx id :=
  ⟨h.ids ▸ hs.nodup, h.ids ▸ hs.seat⟩

/-- Who is missed in the end had no room for one of the answers. -/
theorem Tells.ignore (h : Tells W s s' as) (ids : List ClientId)
    (hids : ∀ id ∈ ids, id ∈ answersRefused W s.clients as) : Tells W s (s'.ignore ids) as where
  wires := h.wires
  missed id hid := by
    rcases List.mem_append.1 hid with hid | hid
    · exact h.missed id hid
    · exact .inr (hids id (List.mem_filter.1 hid).1)

theorem Session.Seats.client (h : s.Seats idx id) : ∃ ch, s.clients[idx]? = some ch ∧ ch.id = id := by
  have hseat := h.seat
  rwa [List.getElem?_map, Option.map_eq_some_iff] at hseat

/-- A control frame to one client, whatever becomes of it. -/
theorem sendIgnoring_answered (h : s.Seats idx id) (msg : ControlMessage) :
    Tells W s (s.sendIgnoring idx (sendControl W · msg)).1 [.reply id msg] := by
  obtain ⟨ch, hch, rfl⟩ := h.client
  have hset : s.clients.set idx (sendControl W ch msg).1 = (Answer.reply ch.id msg).sent W s.clients :=
    set_eq_map_key h.nodup hch fun c => (sendControl W c msg).1
  have hans : Tells W s { s with clients := s.clients.set idx (sendControl W ch msg).1 } [.reply ch.id msg] :=
    ⟨congrArg (List.map _) hset, fun _ hid => .inl hid⟩
  unfold Session.sendIgnoring
  rw [hch]
  dsimp only
  split <;> rename_i ho
  · refine hans.ignore _ fun id hid => ?_
    rw [List.mem_singleton.1 hid]
    refine List.mem_append_left _ (mem_refusing (List.mem_of_getElem? hch) ?_)
    simp only [Answer.pick, if_true]
    exact (offer_overflow ch _ _).1 ho
  · exact hans

theorem reply_answered (h : s.Seats idx id) (msg : ControlMessage) :
    Tells W s (s.reply W idx msg) [.reply id msg] := sendIgnoring_answered h msg

theorem broadcast_answered (s : Session) (msg : ControlMessage) :
    Tells W s (s.broadcastControl W msg).1 [.announce none msg] := ⟨rfl, fun _ hid => .inl hid⟩

theorem broadcastIgnoring_answered (s : Session) (msg : ControlMessage) :
    Tells W s (s.broadcastControlIgnoring W msg) [.announce none msg] :=
  (broadcast_answered s msg).ignore _ fun _ hid => List.mem_append_left _ (announce_refusing s.clients msg ▸ hid)

/-! ### The lock's effects -/

/-- What an effect of the lock says to the clients. -/
def Answer.ofEffect (e : Effect) : Option Answer :=
  match e.kind with
  | .clientReply id msg => some (.reply id msg)
  | .clientBroadcast msg => some (.announce none msg)
  | .ttyWrite _ | .clientRawAck .. | .clientDisconnect _ | .record _ => none

theorem sendTo_answered {ctx : ExecuteCtx} (hn : (ctx.session.clients.map (·.id)).Nodup) (id : ClientId)
    (msg : ControlMessage) :
    Tells W ctx.session (ctx.sendTo id (sendControl W · msg)).1.session [.reply id msg] := by
  unfold ExecuteCtx.sendTo
  cases hfind : ctx.session.clients.findIdx? (·.id = id) with
  | none =>
    have hnobody : (Answer.reply id msg).sent W ctx.session.clients = ctx.session.clients := by
      simp only [Answer.sent]
      refine (List.map_congr_left fun ch hch => if_neg ?_).trans (List.map_id' _)
      simpa using List.findIdx?_eq_none_iff.1 hfind ch hch
    exact ⟨congrArg (List.map _) hnobody.symm, fun _ hid => .inl hid⟩
  | some idx =>
    obtain ⟨hlt, hp, -⟩ := List.findIdx?_eq_some_iff_getElem.1 hfind
    refine sendIgnoring_answered ⟨hn, ?_⟩ msg
    rw [List.getElem?_map, List.getElem?_eq_getElem hlt, Option.map_some, of_decide_eq_true hp]

variable {holder : Option ClientId} {effects : List Effect}

/-- The lock's effects say what they say, and report who has no room for it. -/
theorem execute_answered (ctx : ExecuteCtx) (hn : (ctx.session.clients.map (·.id)).Nodup)
    (h : ∀ e ∈ effects, LockEffect holder e) :
    Tells W ctx.session (ctx.execute W effects).1.session (effects.filterMap Answer.ofEffect) ∧
      ∀ id ∈ (ctx.execute W effects).1.overflowIds, id ∈ ctx.overflowIds ∨
        id ∈ answersRefused W ctx.session.clients (effects.filterMap Answer.ofEffect) := by
  induction effects generalizing ctx with
  | nil => exact ⟨.same rfl rfl, fun _ hid => .inl hid⟩
  | cons e es ih =>
    -- one effect is one answer
    have hone : ∃ a, Answer.ofEffect e = some a ∧
        Tells W ctx.session (ctx.executeOne W e.kind).1.session [a] ∧
        ∀ id ∈ (ctx.executeOne W e.kind).1.overflowIds, id ∈ ctx.overflowIds ∨
          id ∈ refusing ctx.session.clients (a.pick W) := by
      rcases h e List.mem_cons_self with ⟨-, ⟨id, msg, hkind, -⟩ | ⟨m, hkind, -⟩⟩
      · refine ⟨.reply id msg, by rw [Answer.ofEffect, hkind], ?_, fun id' hid => .inl ?_⟩
        · rw [hkind]
          exact sendTo_answered hn id msg
        · rw [hkind] at hid
          exact sendTo_overflowIds ctx id _ ▸ hid
      · refine ⟨.announce none (.modeChange m), by rw [Answer.ofEffect, hkind], ?_, fun id' hid => ?_⟩
        · rw [hkind]
          exact broadcast_answered ctx.session _
        · rw [hkind] at hid
          exact (List.mem_append.1 hid).imp (fun hid => hid) fun hid => announce_refusing ctx.session.clients _ ▸ hid
    obtain ⟨a, ha, hans, hov⟩ := hone
    obtain ⟨hrest, hov'⟩ := ih (ctx.executeOne W e.kind).1 (hans.ids ▸ hn)
      fun e' he' => h e' (List.mem_cons_of_mem _ he')
    rw [List.filterMap_cons, ha]
    refine ⟨hans.trans hrest, fun id hid => ?_⟩
    rw [answersRefused, List.mem_append]
    rcases hov' id hid with hid | hid
    · exact (hov id hid).imp (fun hid => hid) .inl
    · exact .inr (.inr (answersRefused_wires _ hans.wires ▸ hid))

theorem executeIgnoring_answered (hn : (s.clients.map (·.id)).Nodup) (d : DaemonState)
    (h : ∀ e ∈ effects, LockEffect holder e) :
    Tells W s (executeIgnoringOverflow W d effects s).1 (effects.filterMap Answer.ofEffect) := by
  simp only [executeIgnoringOverflow, executeWithFeedback, feedback_lock d _ h]
  obtain ⟨hans, hov⟩ := execute_answered (W := W) { session := s } hn h
  exact hans.ignore _ fun id hid => (hov id hid).resolve_left List.not_mem_nil

end Tells

/-! ## The answer to each request -/

/-- Behind a check: an error where it fails, else `as`. -/
def pastCheck (ok : ClientHandle → Bool) (code : ErrorCode) (message : String) (ch : ClientHandle)
    (as : List Answer) : List Answer :=
  if ok ch then as else [.reply ch.id (.error { code, message })]

def pastCap (cap : Cap) : String → ClientHandle → List Answer → List Answer :=
  pastCheck (fun ch => cap ∈ ch.negotiatedCaps) .unsupportedCapability

def pastNotRo : String → ClientHandle → List Answer → List Answer := pastCheck (fun ch => ch.mode ≠ .ro) .modeNotAllowed

section Requests

variable (W : World) (cfg : Config) (env : FrameEnv) (s : Session) (d : DaemonState) (ch : ClientHandle)

def killAnswers (signal : Option String) (wait : Bool) : List Answer :=
  let name := signal.getD "SIGTERM"
  match (if signal.isNone then some sigTerm else W.parseSignal name) with
  | none => [.reply ch.id (.error { code := .signalInvalid, message := signalInvalidText name })]
  | some sig => if wait then [] else [.reply ch.id (.killAck (W.signalName sig))]

def signalAnswers (signal : String) : List Answer :=
  match W.parseSignal signal with
  | none => [.reply ch.id (.error { code := .signalInvalid, message := signalInvalidText signal })]
  | some _ => []

def leaderAnswers (lock : LockState) : List Answer :=
  -- who leads already is told so alone
  if ch.leader then [.reply ch.id (.leaderNotify (some ch.id))]
  else
    (if ch.mode = .rwNoLeader then
      [.reply ch.id (.modeChange { sessionMode := lock.sessionMode, lockHolder := lock.holder, clientMode := some .rw })]
    else []) ++ [.announce none (.leaderNotify (some ch.id))]

/-- What a transition of the lock says. -/
def lockAnswers (lock : LockState) (msg : LockMsg) : List Answer :=
  (lock.reduceMsg msg).2.1.filterMap Answer.ofEffect

def acquireAnswers (lock : LockState) : List Answer :=
  if (lock.reduceMsg (.acquire ch.id none)).2.2.any fun e => match e with | .tokenRequired _ => true | _ => false then
    match env.token with
    -- two frames: the denial, and why there is no token
    | .error e => [
        .reply ch.id (.lockResponse { result := .denied, token := none, queuePosition := none }),
        .reply ch.id (.error { code := .internalError, message := lockTokenText e })]
    | .ok token => lockAnswers lock (.acquire ch.id (some token))
  else lockAnswers lock (.acquire ch.id none)

def tailAnswers (req : TailRequest) : List Answer :=
  match tailBytes s.scrollback env.now req with
  | none => [.reply ch.id (.tailEnd .bufferTruncated)]
  | some bytes =>
    let snapshot := tailSnapshot W req bytes
    (if snapshot.isEmpty then [] else [.reply ch.id (.tailData snapshot env.unixMs)]) ++
      if req.follow then [] else [.reply ch.id (.tailEnd .eof)]

def screenDumpAnswers (format : ScreenDumpFormat) (layer : ScreenDumpLayer) (serial : Option Nat) : List Answer :=
  match W.screenDump s.screen format layer with
  | .ok payload => [.reply ch.id (.screenDumpResponse payload serial)]
  | .error .formatNotImplemented => [.reply ch.id (.error { code := .protocolMalformed, message := screenDumpFormatText })]
  | .error .encodeFailed => [.reply ch.id (.error { code := .internalError, message := screenDumpEncodeText })]

def snapshotAnswers (components : List SnapshotComponent) (serial : Option Nat) : List Answer :=
  if components.isEmpty then [.reply ch.id (.error { code := .protocolMalformed, message := snapshotEmptyText })]
  else if .cells ∈ components ∧ (W.snapshotCells s.screen).isNone then
    [.reply ch.id (.error { code := .internalError, message := snapshotEncodeText })]
  else if .scrollback ∈ components then
    [.reply ch.id (.error { code := .protocolMalformed, message := snapshotScrollbackText })]
  else [.reply ch.id (.stateSnapshotResponse (snapshotResponse W s.screen components serial))]

def recordStartAnswers (req : RecordStartRequest) : List Answer :=
  match W.recordStart s.log req ch.id (sessionInfo cfg) with
  | .ok recordId => [.reply ch.id (.recordStartResponse recordId)]
  | .error e =>
    let (code, message) := recordStartErrorToProtocol e
    [.reply ch.id (.error { code, message })]

def recordStopAnswers (recordId : Nat) : List Answer :=
  if W.recordStop s.log recordId then [.reply ch.id (.recordStopResponse 1)]
  else [.reply ch.id (.error { code := .recordNotFound, message := recordNotFoundText recordId })]

def setAnswers (key value : String) : List Answer :=
  if key = "on-child-suspend" then
    match ChildSuspendPolicy.fromWire value with
    | none => [.reply ch.id (.error { code := .setInvalidValue, message := setInvalidValueText value })]
    | some policy => [.reply ch.id (.setAck "on-child-suspend" policy.asStr)]
  else [.reply ch.id (.error { code := .setInvalidKey, message := setInvalidKeyText key })]

def upgradeAnswers (binaryPath : Option String) : List Answer :=
  match env.precheck binaryPath with
  | some msg => [.reply ch.id (.error { code := .unknown "upgrade.precheck-failed", message := msg })]
  | none => [.announce (some .upgradeV1) .upgradeAck]

/-- What the handler of a request of the client `ch` sends unchecked. The redraw of a resume is
checked; the detachment of all takes its sender along, with its ack. -/
def answers (idx : Nat) : ControlMessage → List Answer
  | .detach .myself => []
  | .detach .others =>
    pastNotRo detachDenied ch [.reply ch.id (.detachAck ((List.range s.clients.length).filter (· ≠ idx)).length)]
  | .detach .all => pastNotRo detachDenied ch []
  | .kill signal wait => pastCheck (fun ch => ch.mode = .rw) .modeNotAllowed killDenied ch (killAnswers W ch signal wait)
  | .signal signal => pastNotRo signalDenied ch (signalAnswers W ch signal)
  | .resize _ _ => pastCheck (fun ch => ch.leader) .modeNotLeader resizeDenied ch []
  | .leaderRequest =>
    pastCap .leaderRequestV1 leaderUnsupported ch (pastNotRo leaderDenied ch (leaderAnswers ch d.lock))
  | .lockAcquire .. => pastCap .lock lockUnsupported ch (pastNotRo lockModeError ch (acquireAnswers env ch d.lock))
  | .lockRelease token => lockAnswers d.lock (.release ch.id token)
  | .tailRequest req => pastCap .tailV1 tailUnsupported ch (tailAnswers W env s ch req)
  | .statusQuery => [.reply ch.id (.statusResponse (statusResponse cfg env s d.lock))]
  | .screenDumpRequest format layer serial =>
    pastCap .screenDumpV1 screenDumpUnsupported ch (screenDumpAnswers W s ch format layer serial)
  | .stateSnapshotRequest components serial =>
    pastCap .stateSnapshotV1 snapshotUnsupported ch (snapshotAnswers W s ch components serial)
  | .sessionChildResumeRequest => pastCap .childStateV1 resumeUnsupported ch []
  | .recordStartRequest req => pastCap .recordV1 recordStartUnsupported ch (recordStartAnswers W cfg s ch req)
  | .recordStopRequest recordId => pastCap .recordV1 recordStopUnsupported ch (recordStopAnswers W s ch recordId)
  | .recordStopAllRequest =>
    pastCap .recordV1 recordStopAllUnsupported ch [.reply ch.id (.recordStopResponse (W.recordStopAll s.log))]
  | .recordListRequest =>
    pastCap .recordV1 recordListUnsupported ch [.reply ch.id (.recordListResponse (W.recordList s.log))]
  | .setRequest key value => pastCap .setV1 setUnsupported ch (pastNotRo setDenied ch (setAnswers ch key value))
  | .upgradeRequest binaryPath =>
    pastCap .upgradeV1 upgradeUnsupported ch (pastNotRo upgradeDenied ch (upgradeAnswers env ch binaryPath))
  | .handshakeRequest _ | .handshakeResponse _ | .error _ | .killAck _ | .detachAck _ | .lockResponse _
  | .leaderNotify _ | .modeChange _ | .statusResponse _ | .tailData .. | .tailEnd _ | .screenDumpResponse ..
  | .stateSnapshotResponse _ | .sessionExitNotify .. | .sessionChildStoppedNotify .. | .recordStartResponse _
  | .recordStopResponse _ | .recordListResponse _ | .setAck .. | .upgradeAck =>
    [.reply ch.id (.error { code := .protocolUnexpectedKind, message := unexpectedKindText })]

end Requests

/-! ## Who is missed -/

/-- Who is missed once a frame is handled had no room for one of the answers, or is dropped with
the frame. -/
def Misses (W : World) (s : Session) (idx : Nat) (r : Handled) (as : List Answer) : Prop :=
  ∀ id ∈ r.1.missed, id ∈ s.missed ∨ id ∈ answersRefused W s.clients as ∨ id ∈ dropIds s idx r.2

section Misses

variable {W : World} {cfg : Config} {env : FrameEnv} {s s' : Session} {d : DaemonState} {ch : ClientHandle} {idx : Nat}
  {as : List Answer}

theorem Tells.misses {r : Handled} (h : Tells W s r.1 as) : Misses W s idx r as := fun id hid =>
  (h.missed id hid).imp (fun hid => hid) .inl

theorem seats_of (hn : (s.clients.map (·.id)).Nodup) (hch : s.clients[idx]? = some ch) : s.Seats idx ch.id :=
  ⟨hn, by rw [List.getElem?_map, hch, Option.map_some]⟩

theorem guarded_misses (h : s.Seats idx ch.id) (hch : s.clients[idx]? = some ch) {ok : ClientHandle → Bool}
    {code : ErrorCode} {message : String} {k : ClientHandle → Handled} (hk : Misses W s idx (k ch) as) :
    Misses W s idx (guarded W s idx ok code message k) (pastCheck ok code message ch as) := by
  unfold guarded pastCheck
  rw [hch]
  dsimp only
  split
  · exact hk
  · exact (reply_answered h _).misses

theorem handleDetachTarget_misses (h : s.Seats idx ch.id) (hch : s.clients[idx]? = some ch) (target : DetachTarget) :
    Misses W s idx (handleDetachTarget W s idx target) (answers W cfg env s d ch idx (.detach target)) := by
  cases target with
  | myself => exact fun _ hid => .inl hid
  | others => exact guarded_misses h hch (reply_answered h _).misses
  | all =>
    refine guarded_misses h hch fun id hid => ?_
    refine ((reply_answered h _).missed id hid).imp (fun hid => hid) fun hid => .inr ?_
    -- everybody goes, the sender too
    rw [answersRefused, answersRefused, List.append_nil] at hid
    obtain ⟨c, hc, hid⟩ := List.mem_filterMap.1 hid
    obtain ⟨i, hi⟩ := List.mem_iff_getElem?.1 hc
    have hlt : i < s.clients.length := (List.getElem?_eq_some_iff.1 hi).1
    refine List.mem_filterMap.2 ⟨i, List.mem_range.2 hlt, ?_⟩
    split at hid
    · rw [hi, Option.map_some, hid]
    · cases hid

theorem handleKill_misses (h : s.Seats idx ch.id) (hch : s.clients[idx]? = some ch) (signal : Option String)
    (wait : Bool) :
    Misses W s idx (handleKill W s idx signal wait) (answers W cfg env s d ch idx (.kill signal wait)) := by
  refine guarded_misses h hch ?_
  unfold killAnswers
  dsimp only
  cases (if signal.isNone = true then some sigTerm else W.parseSignal (signal.getD "SIGTERM")) with
  | none => exact (reply_answered h _).misses
  | some sig =>
    have hlogs : ∀ {s₁ : Session} {as : List Answer}, Tells W
        ((if signalShouldContFirst sig = true then s.logs (.kill sigCont) else s).logs (.kill sig)) s₁ as →
        Tells W s s₁ as := by
      intro s₁ as hans
      refine Tells.after _ ?_ ?_ hans <;> split <;> rfl
    dsimp only
    split
    · exact (hlogs (.same rfl rfl)).misses
    · refine (hlogs (reply_answered ?_ _)).misses
      split <;> exact ⟨h.nodup, h.seat⟩

theorem handleSignal_misses (h : s.Seats idx ch.id) (hch : s.clients[idx]? = some ch) (signal : String) :
    Misses W s idx (handleSignal W s idx signal) (answers W cfg env s d ch idx (.signal signal)) := by
  refine guarded_misses h hch ?_
  unfold signalAnswers
  cases W.parseSignal signal with
  | none => exact (reply_answered h _).misses
  | some sig => exact fun _ hid => .inl hid

theorem handleLeaderRequest_misses (h : s.Seats idx ch.id) (hch : s.clients[idx]? = some ch) :
    Misses W s idx (handleLeaderRequest W s d.lock idx) (answers W cfg env s d ch idx .leaderRequest) := by
  refine guarded_misses h hch (guarded_misses h hch ?_)
  unfold leaderAnswers
  cases hl : ch.leader with
  | true =>
    have htake : takeLeader s.clients idx ch = (s.clients, .alreadyLeader ch.id) := by simp [takeLeader, hl]
    rw [htake]
    exact (reply_answered h _).misses
  | false =>
    have htake : takeLeader s.clients idx ch =
        ((takeLeader s.clients idx ch).1, .taken ch.id (decide (ch.mode = .rwNoLeader))) := by simp [takeLeader, hl]
    have hwires : (takeLeader s.clients idx ch).1.map (·.wire) = s.clients.map (·.wire) :=
      takeLeader_map (f := ClientHandle.wire) (fun _ _ _ => rfl) ch hch
    rw [htake]
    dsimp only
    generalize hs₁ : ({ s with clients := (takeLeader s.clients idx ch).1 } : Session) = s₁
    have htaken : Tells W s s₁ [] := .same (hs₁ ▸ hwires) (hs₁ ▸ rfl)
    refine Tells.misses ?_
    simp only [Bool.false_eq_true, if_false, decide_eq_true_eq]
    split
    · exact (htaken.trans (reply_answered (htaken.seats h) _)).trans (broadcastIgnoring_answered _ _)
    · exact htaken.trans (broadcastIgnoring_answered _ _)

/-- What a transition of the lock says is all that is said of it. -/
theorem lock_answered (hn : (s.clients.map (·.id)).Nodup) (d' : DaemonState) (lock : LockState) (msg : LockMsg) :
    Tells W s (executeIgnoringOverflow W d' (lock.reduceMsg msg).2.1 s).1 (lockAnswers lock msg) :=
  executeIgnoring_answered hn d' (reduceMsg_moved lock msg).effect

theorem handleLockAcquire_answered (h : s.Seats idx ch.id) (hch : s.clients[idx]? = some ch)
    (wait : Bool) (absoluteMs idleMs : Option Nat) (bound : Bool) :
    Tells W s (handleLockAcquire W env s d idx).1
      (answers W cfg env s d ch idx (.lockAcquire wait absoluteMs idleMs bound)) := by
  unfold handleLockAcquire
  rw [hch]
  simp only [answers, pastCap, pastNotRo, pastCheck, decide_eq_true_eq]
  by_cases hcap : Cap.lock ∈ ch.negotiatedCaps
  · rw [if_neg (not_not.2 hcap), if_pos hcap]
    by_cases hro : ch.mode = .ro
    · rw [if_pos hro, if_neg (not_not.2 hro)]
      exact reply_answered h _
    · rw [if_neg hro, if_pos hro]
      unfold acquireAnswers
      rcases reduceMsg_acquire_none d.lock ch.id with heq | ⟨ev, hev, hne⟩
      · rw [heq]
        simp only [List.any_cons, List.any_nil, Bool.or_false, if_true]
        cases env.token with
        | error e =>
          have hdenied := reply_answered (W := W) h (.lockResponse { result := .denied, token := none, queuePosition := none })
          exact hdenied.trans (reply_answered (hdenied.seats h) _)
        | ok token =>
          dsimp only
          split
          · refine Tells.after (s.pushLifecycle (.lockAcquired ch.id)) rfl rfl ?_
            exact lock_answered (s := s.pushLifecycle (.lockAcquired ch.id)) h.nodup _ d.lock (.acquire ch.id (some token))
          · exact lock_answered h.nodup _ d.lock (.acquire ch.id (some token))
      · rw [hev]
        cases ev with
        | tokenRequired c => exact absurd rfl (hne c)
        | acquired _ _ _ => exact lock_answered h.nodup _ d.lock (.acquire ch.id none)
        | released _ _ => exact lock_answered h.nodup _ d.lock (.acquire ch.id none)
        | denied _ _ => exact lock_answered h.nodup _ d.lock (.acquire ch.id none)
  · rw [if_pos hcap, if_neg hcap]
    exact reply_answered h _

theorem handleLockRelease_answered (h : s.Seats idx ch.id) (hch : s.clients[idx]? = some ch) (token : String) :
    Tells W s (handleLockRelease W s d idx token).1 (answers W cfg env s d ch idx (.lockRelease token)) := by
  unfold handleLockRelease
  rw [hch]
  dsimp only
  split
  · refine Tells.after (s.pushLifecycle (.lockReleased ch.id)) rfl rfl ?_
    exact lock_answered (s := s.pushLifecycle (.lockReleased ch.id)) h.nodup _ d.lock (.release ch.id token)
  · exact lock_answered h.nodup _ d.lock (.release ch.id token)

theorem handleTailRequest_misses (h : s.Seats idx ch.id) (hch : s.clients[idx]? = some ch) (req : TailRequest) :
    Misses W s idx (handleTailRequestDispatch W env s idx req) (answers W cfg env s d ch idx (.tailRequest req)) := by
  have hmodify : ∀ (s₁ : Session) {f : ClientHandle → ClientHandle}, (∀ c, (f c).wire = c.wire) →
      Tells W s₁ { s₁ with clients := s₁.clients.modify idx f } [] := by
    intro s₁ f hf
    refine .same ?_ rfl
    refine List.ext_getElem? fun j => ?_
    simp only [List.getElem?_map, List.getElem?_modify]
    cases s₁.clients[j]? with
    | none => rfl
    | some c => split <;> simp [hf]
  refine guarded_misses h hch (Tells.misses ?_)
  unfold tailAnswers handleTailRequest
  cases tailBytes s.scrollback env.now req with
  | none => exact reply_answered h _
  | some bytes =>
    have hstart : Tells W s (s.startTail idx req.stripAnsi (tailCut req bytes)) [] := hmodify s fun _ => rfl
    dsimp only
    generalize s.startTail idx req.stripAnsi (tailCut req bytes) = s₁ at hstart ⊢
    have hdata : Tells W s
        (if (tailSnapshot W req bytes).isEmpty then s₁
          else s₁.reply W idx (.tailData (tailSnapshot W req bytes) env.unixMs))
        (if (tailSnapshot W req bytes).isEmpty then []
          else [.reply ch.id (.tailData (tailSnapshot W req bytes) env.unixMs)]) := by
      split
      · exact hstart
      · exact hstart.trans (reply_answered (hstart.seats h) _)
    split
    · exact hdata.trans (hmodify _ fun _ => rfl)
    · exact hdata.trans (reply_answered (hdata.seats h) _)

theorem handleScreenDumpRequest_misses (h : s.Seats idx ch.id) (hch : s.clients[idx]? = some ch)
    (format : ScreenDumpFormat) (layer : ScreenDumpLayer) (serial : Option Nat) :
    Misses W s idx (handleScreenDumpRequest W s idx format layer serial)
      (answers W cfg env s d ch idx (.screenDumpRequest format layer serial)) := by
  refine guarded_misses h hch (Tells.misses ?_)
  unfold screenDumpAnswers
  cases W.screenDump s.screen format layer with
  | ok payload => exact reply_answered h _
  | error e => cases e <;> exact reply_answered h _

theorem handleStateSnapshotRequest_misses (h : s.Seats idx ch.id) (hch : s.clients[idx]? = some ch)
    (components : List SnapshotComponent) (serial : Option Nat) :
    Misses W s idx (handleStateSnapshotRequest W s idx components serial)
      (answers W cfg env s d ch idx (.stateSnapshotRequest components serial)) := by
  refine guarded_misses h hch (Tells.misses ?_)
  unfold snapshotAnswers
  split
  · exact reply_answered h _
  · split
    · exact reply_answered h _
    · split <;> exact reply_answered h _

theorem handleRecordStartRequest_misses (h : s.Seats idx ch.id) (hch : s.clients[idx]? = some ch)
    (req : RecordStartRequest) :
    Misses W s idx (handleRecordStartRequest W cfg s idx req)
      (answers W cfg env s d ch idx (.recordStartRequest req)) := by
  refine guarded_misses h hch (Tells.misses ?_)
  unfold recordStartAnswers
  have hlog : Session.Seats (s.logs (.recordStart req ch.id (sessionInfo cfg))) idx ch.id := ⟨h.nodup, h.seat⟩
  dsimp only
  cases W.recordStart s.log req ch.id (sessionInfo cfg) with
  | ok recordId => exact Tells.after (s.logs _) rfl rfl (reply_answered hlog _)
  | error e => exact Tells.after (s.logs _) rfl rfl (reply_answered hlog _)

theorem handleRecordStopRequest_misses (h : s.Seats idx ch.id) (hch : s.clients[idx]? = some ch) (recordId : Nat) :
    Misses W s idx (handleRecordStopRequest W s idx recordId)
      (answers W cfg env s d ch idx (.recordStopRequest recordId)) := by
  refine guarded_misses h hch (Tells.misses ?_)
  unfold recordStopAnswers
  have hlog : Session.Seats (s.logs (.recordStop recordId)) idx ch.id := ⟨h.nodup, h.seat⟩
  dsimp only
  split
  · exact Tells.after (s.logs _) rfl rfl (reply_answered hlog _)
  · exact Tells.after (s.logs _) rfl rfl (reply_answered hlog _)

/-- The redraw that is checked: who has no room for it is dropped. -/
theorem handleSessionChildResumeRequest_misses (h : s.Seats idx ch.id) (hch : s.clients[idx]? = some ch) :
    Misses W s idx (handleSessionChildResumeRequest W cfg s idx)
      (answers W cfg env s d ch idx .sessionChildResumeRequest) := by
  refine guarded_misses h hch fun id hid => .inl ?_
  dsimp only at hid
  split at hid <;> simpa [Session.offerAt, Session.pushLifecycle, Session.logs, hch] using hid

theorem handleSetRequest_misses (h : s.Seats idx ch.id) (hch : s.clients[idx]? = some ch) (key value : String) :
    Misses W s idx (handleSetRequest W s idx key value) (answers W cfg env s d ch idx (.setRequest key value)) := by
  refine guarded_misses h hch (guarded_misses h hch (Tells.misses ?_))
  unfold setAnswers
  split
  · cases ChildSuspendPolicy.fromWire value with
    | none => exact reply_answered h _
    | some policy =>
      generalize hs₁ : { s with childSuspendPolicy := policy }.pushLifecycle
        (.policyChanged "on-child-suspend" policy.asStr ch.id) = s₁
      have hset : Tells W s s₁ [] := .same (hs₁ ▸ rfl) (hs₁ ▸ rfl)
      dsimp only
      rw [hs₁]
      exact hset.trans (reply_answered (hset.seats h) _)
  · exact reply_answered h _

theorem handleUpgradeRequest_misses (h : s.Seats idx ch.id) (hch : s.clients[idx]? = some ch)
    (binaryPath : Option String) :
    Misses W s idx (handleUpgradeRequest W env s idx binaryPath)
      (answers W cfg env s d ch idx (.upgradeRequest binaryPath)) := by
  refine guarded_misses h hch (guarded_misses h hch (Tells.misses ?_))
  unfold upgradeAnswers
  cases env.precheck binaryPath with
  | some msg => exact reply_answered h _
  | none =>
    have hack : Tells W s { s with
        upgradeTarget := binaryPath, upgradePending := true
        clients := (broadcastControlWithCap W s.clients .upgradeAck .upgradeV1).1 }
        [.announce (some .upgradeV1) .upgradeAck] := ⟨rfl, fun _ hid => .inl hid⟩
    refine (hack.ignore (broadcastControlWithCap W s.clients .upgradeAck .upgradeV1).2 fun id hid => ?_).before rfl rfl
    exact List.mem_append_left _ (announceCap_refusing s.clients _ _ ▸ hid)

theorem handleControlMessage_missed (h : s.Seats idx ch.id) (hch : s.clients[idx]? = some ch) (msg : ControlMessage) :
    ∀ id ∈ (handleControlMessage W cfg env s d idx msg).1.missed, id ∈ s.missed ∨
      id ∈ answersRefused W s.clients (answers W cfg env s d ch idx msg) ∨
      id ∈ dropIds s idx (handleControlMessage W cfg env s d idx msg).2.2 := by
  have hlock : ∀ {r : HandledWith} {as : List Answer}, Tells W s r.1 as →
      ∀ id ∈ r.1.missed, id ∈ s.missed ∨ id ∈ answersRefused W s.clients as ∨ id ∈ dropIds s idx r.2.2 :=
    fun hans id hid => (hans.missed id hid).imp (fun hid => hid) .inl
  cases msg with
  | detach target => exact handleDetachTarget_misses h hch target
  | kill signal wait => exact handleKill_misses h hch signal wait
  | signal signal => exact handleSignal_misses h hch signal
  | resize cols rows => exact guarded_misses h hch fun _ hid => .inl hid
  | leaderRequest => exact handleLeaderRequest_misses h hch
  | lockAcquire wait absoluteMs idleMs bound => exact hlock (handleLockAcquire_answered h hch wait absoluteMs idleMs bound)
  | lockRelease token => exact hlock (handleLockRelease_answered h hch token)
  | tailRequest req => exact handleTailRequest_misses h hch req
  | statusQuery => exact hlock (reply_answered h _)
  | screenDumpRequest format layer serial => exact handleScreenDumpRequest_misses h hch format layer serial
  | stateSnapshotRequest components serial => exact handleStateSnapshotRequest_misses h hch components serial
  | sessionChildResumeRequest => exact handleSessionChildResumeRequest_misses h hch
  | recordStartRequest req => exact handleRecordStartRequest_misses h hch req
  | recordStopRequest recordId => exact handleRecordStopRequest_misses h hch recordId
  | recordStopAllRequest =>
    have hlog : Session.Seats (s.logs .recordStopAll) idx ch.id := ⟨h.nodup, h.seat⟩
    exact guarded_misses h hch
      (Tells.misses (Tells.after (s.logs .recordStopAll) rfl rfl (reply_answered hlog _)))
  | recordListRequest => exact guarded_misses h hch (reply_answered h _).misses
  | setRequest key value => exact handleSetRequest_misses h hch key value
  | upgradeRequest binaryPath => exact handleUpgradeRequest_misses h hch binaryPath
  | _ => exact hlock (reply_answered h _)

variable (W cfg env s d) in
/-- Who has no room for what the handling of a frame sends unchecked. The ack of raw input is
checked; its refusal while an upgrade is pending is not. -/
def frameRefused (idx : Nat) (frame : Frame) : List ClientId :=
  match s.clients[idx]? with
  | none => []
  | some ch =>
    if frame.ty = typeRawData then
      if s.upgradePending then answersRefused W s.clients
        [.reply ch.id (.error { code := .unknown "upgrade.rejected", message := rawDataRejectedText })]
      else []
    else if frame.ty = typeCborControl then
      match W.decode frame.body with
      | some msg => answersRefused W s.clients (answers W cfg env s d ch idx msg)
      | none => []
    else []

theorem handleRawData_missed {ov : List ClientId} (h : Mid s d ov) (hch : s.clients[idx]? = some ch) (body : Bytes) :
    ∀ id ∈ (handleRawData W env s d idx body).1.missed, id ∈ s.missed ∨ id ∈ ov ∨
      (s.upgradePending = true ∧ id ∈ answersRefused W s.clients
        [.reply ch.id (.error { code := .unknown "upgrade.rejected", message := rawDataRejectedText })]) ∨
      id ∈ dropIds s idx (handleRawData W env s d idx body).2.2 := by
  intro id hid
  unfold handleRawData at hid ⊢
  simp only [hch] at hid ⊢
  split at hid <;> rename_i hup
  · exact ((reply_answered (seats_of h.ids hch) _).missed id hid).imp (fun hid => hid) fun hid => .inr (.inl ⟨hup, hid⟩)
  · rw [if_neg hup]
    obtain ⟨clients, -, ctx, heq, hraw, -⟩ := rawInput_handled (W := W) h.idle h.ids hch body env.tty
    rw [heq] at hid ⊢
    dsimp only at hid ⊢
    -- nobody but the sender is reported
    have hnone : ctx.overflowIds.filter (· ≠ ch.id) = [] :=
      List.filter_eq_nil_iff.2 fun id hid => by simp [hraw.only id hid]
    simp only [Session.ignore, hnone, List.filter_nil, List.append_nil] at hid
    rcases hraw.answered with hdrop | ⟨ack, ch', hset, hoffers⟩
    · refine (hraw.missed id hid).imp (fun hid => hid) fun hid => .inr (.inr ?_)
      rw [if_pos hdrop, hid]
      exact List.mem_filterMap.2 ⟨idx, List.mem_singleton.2 rfl, by rw [hch]; rfl⟩
    · -- the ack was sent: who overflowed did so before
      obtain ⟨more, hm, hmore⟩ := hraw.talks.missed
      rw [hm] at hid
      rcases List.mem_append.1 hid with hid | hid
      · exact .inl hid
      · obtain ⟨c, hc, rfl, ho⟩ := hmore id hid
        have hold : ∃ c₀ ∈ s.clients, c₀.id = c.id ∧ c₀.overflowed = true := by
          rw [hset] at hc
          rcases List.mem_or_eq_of_mem_set hc with hc | rfl
          · exact ⟨c, hc, rfl, ho⟩
          · refine ⟨ch, List.mem_of_getElem? hch, ?_, ?_⟩
            · have hids := forall₂_map_eq (fun _ _ hs => hs.id) hraw.talks.clients
              have hseat := congrArg (fun l : List ClientId => l[idx]?) hids
              simp only [hset, List.getElem?_map, List.getElem?_set_self (List.getElem?_eq_some_iff.1 hch).1, hch,
                Option.map_some, Option.some.injEq] at hseat
              exact hseat.symm
            · simpa [ClientHandle.overflowed, hoffers] using ho
        obtain ⟨c₀, hc₀, hid₀, ho₀⟩ := hold
        rw [← hid₀]
        exact (h.accounted.gap c₀ hc₀ ho₀).imp (fun hid => hid) .inl

/-- Whoever is missed once a frame is handled was missed or to be dropped before, had no room for
what was sent unchecked, or is dropped with the frame. -/
theorem handleClientFrame_missed {ov : List ClientId} (cfg : Config) (h : Mid s d ov) (hch : s.clients[idx]? = some ch)
    (env : FrameEnv) (frame : Frame) :
    ∀ id ∈ (handleClientFrame W cfg env s d idx frame).1.missed, id ∈ s.missed ∨ id ∈ ov ∨
      id ∈ frameRefused W cfg env s d idx frame ∨
      id ∈ dropIds s idx (handleClientFrame W cfg env s d idx frame).2.2 := by
  intro id hid
  unfold frameRefused
  unfold handleClientFrame at hid ⊢
  rw [hch]
  dsimp only
  by_cases hty : frame.ty = typeRawData
  · rw [if_pos hty] at hid ⊢
    rw [if_pos hty]
    rcases handleRawData_missed h hch frame.body id hid with hid | hid | ⟨hup, hid⟩ | hid
    · exact .inl hid
    · exact .inr (.inl hid)
    · rw [if_pos hup]
      exact .inr (.inr (.inl hid))
    · exact .inr (.inr (.inr hid))
  · rw [if_neg hty] at hid ⊢
    rw [if_neg hty]
    by_cases hctl : frame.ty = typeCborControl
    · rw [if_pos hctl] at hid ⊢
      rw [if_pos hctl]
      cases hdec : W.decode frame.body with
      | none =>
        rw [hdec] at hid
        exact .inl hid
      | some msg =>
        rw [hdec] at hid
        exact (handleControlMessage_missed (seats_of h.ids hch) hch msg id hid).imp (fun hid => hid) .inr
    · rw [if_neg hctl] at hid
      exact .inl hid

end Misses

end Hyoui.Daemon
