import Hyoui.Daemon.Murmurs
/-!
# What a turn shows the clients

`Shows` lists everything that can happen to the screen, the scrollback and what the clients are shown
of them, guards included. Every turn of the loop is a sequence of these steps (`iterate_showing`), so
an invariant of the output is one case analysis over them.
-/

namespace Hyoui.Daemon

open Hyoui.Protocol Hyoui.Lib

/-- A handshake that may make a client. -/
def HandshakePoll.completes : HandshakePoll → Bool
  | .ready _ _ setNonblocking => setNonblocking
  | .failed | .empty _ | .disconnected => false

/-- The redraw of the screen fits in a frame. -/
def redrawFits (W : World) (screen : Screen) : Bool := (attachRedrawFrame W screen).isSome

/-- No first redraw is due. -/
def Flushed (W : World) (s : Session) : Prop := W.syncInProgress s.screen = true ∨ s.pendingRedraws = []

/-- A chunk as a tail follower is sent it. -/
def tailChunk (W : World) (strip : Bool) (bytes : Bytes) (tsMs : Int) : ControlMessage :=
  .tailData (if strip then W.stripAnsi bytes else bytes) tsMs

/-- What a client is sent of a chunk. -/
def Delivered (W : World) (bytes : Bytes) : Subscription → List Outgoing → Prop
  | .raw, items => items = [.output bytes]
  | .tailFollow strip, items => ∃ tsMs, items =
      if (W.controlFrame (tailChunk W strip bytes tsMs)).isSome then [.control (tailChunk W strip bytes tsMs)] else []

/-- The snapshot of a tail request as it is sent: not where nothing is in it, or it does not encode. -/
def tailSent (W : World) (req : TailRequest) (bytes : Bytes) (tsMs : Int) : List Bytes :=
  if (tailSnapshot W req bytes).isEmpty then []
  else if (W.controlFrame (.tailData (tailSnapshot W req bytes) tsMs)).isSome then [tailSnapshot W req bytes]
  else []

/-- Where the answer to the request begins for the client. -/
def tailStart (s : Session) (req : TailRequest) (bytes : Bytes) (ch : ClientHandle) : TailStart :=
  { offered := ch.offers.length, stripAnsi := req.stripAnsi, asked := tailCut req bytes, fed := s.screen.length }

/-- `ch'` is `ch` after its tail request was answered. -/
structure Answered (W : World) (s : Session) (now : Instant) (req : TailRequest) (ch ch' : ClientHandle) : Prop where
  id : ch'.id = ch.id
  subscription : ch'.subscription = if req.follow then .tailFollow req.stripAnsi else ch.subscription
  offers : ∃ more bytes tsMs, ch'.offers = ch.offers ++ more ∧ (∀ o ∈ more, o.item.seen = none) ∧
    tailBytes s.scrollback now req = some bytes ∧ ch'.tail = some (tailStart s req bytes ch) ∧
    more.filterMap (·.item.tailBytes) = tailSent W req bytes tsMs

/-- A client that has just joined: it was sent the screen, or it waits for it. -/
structure Joined (W : World) (s s' : Session) (ch' : ClientHandle) : Prop where
  subscription : ch'.subscription = .raw
  tail : ch'.tail = none
  offers : ∃ before, (∀ item ∈ before, item.aside = true) ∧ ch'.offers.map (·.item) =
    before ++ if W.syncInProgress s.screen = false ∧ redrawFits W s.screen = true then [.redraw s.screen] else []
  waits : W.syncInProgress s.screen = true → ch'.id ∈ s'.pendingRedraws

/-- Redraws, and at least one for a client that waits for it. -/
def Redrawn (W : World) (s : Session) (id : ClientId) (items : List Outgoing) : Prop :=
  (∀ item ∈ items, item = .redraw s.screen) ∧
    (id ∈ s.pendingRedraws → redrawFits W s.screen = true → items ≠ [])

/-- What can happen to the output in a turn with this input that starts with the screen `top`. -/
inductive Shows (W : World) (inp : IterInput) (top : Screen) (s s' : Session) : Prop
  | murmur (h : Murmurs s s')
  | read (bytes : Bytes) (short : bytes.length ≤ masterReadChunk) (flushed : Flushed W s)
      (clients : ∀ ch' ∈ s'.clients, ∃ ch ∈ s.clients, Got (Delivered W bytes ch.subscription) ch ch')
      (screen : s'.screen = s.screen ++ [.process bytes])
      (scrollback : s'.scrollback = s.scrollback.push inp.readNow bytes)
      (pendingRedraws : s'.pendingRedraws = s.pendingRedraws)
  | resize (rows cols : Nat) (clients : s'.clients = s.clients) (screen : s'.screen = s.screen ++ [.resize rows cols])
      (scrollback : s'.scrollback = s.scrollback) (pendingRedraws : s'.pendingRedraws = s.pendingRedraws)
  | tail (now : Instant) (req : TailRequest)
      (clients : ∀ ch' ∈ s'.clients, ∃ ch ∈ s.clients, Got (Murmur s.screen) ch ch' ∨ Answered W s now req ch ch')
      (screen : s'.screen = s.screen) (scrollback : s'.scrollback = s.scrollback)
      (pendingRedraws : s'.pendingRedraws = s.pendingRedraws)
  | attach (early : s.screen = top) (completed : ∃ poll ∈ inp.handshakes, poll.completes = true)
      (clients : ∀ ch' ∈ s'.clients, ch' ∈ s.clients ∨ Joined W s s' ch')
      (screen : s'.screen = s.screen) (scrollback : s'.scrollback = s.scrollback)
      (pendingRedraws : ∀ id ∈ s.pendingRedraws, id ∈ s'.pendingRedraws)
  | flush (early : s.screen = top) (synced : W.syncInProgress s.screen = false)
      (clients : ∀ ch' ∈ s'.clients, ∃ ch ∈ s.clients, Got (Redrawn W s ch.id) ch ch')
      (screen : s'.screen = s.screen) (scrollback : s'.scrollback = s.scrollback)
      (pendingRedraws : s'.pendingRedraws = [])

abbrev Showing (W : World) (inp : IterInput) (top : Screen) : Session → Session → Prop :=
  Relation.ReflTransGen (Shows W inp top)

theorem Flushed.murmurs {W : World} {s s' : Session} (h : Flushed W s) (hm : Murmurs s s') : Flushed W s' := by
  rwa [Flushed, hm.screen, hm.pendingRedraws]

theorem Murmurs.showing {W : World} {inp : IterInput} {top : Screen} {s s' : Session} (h : Murmurs s s') : Showing W inp top s s' :=
  .single (.murmur h)

/-! ## The child -/

section Child

variable {W : World} {cfg : Config} {w : Work} {inp : IterInput}

theorem notifyChildStopped_murmurs (s : Session) (sig : Signal) : Murmurs s (notifyChildStopped W cfg s sig).1 := by
  unfold notifyChildStopped
  dsimp only
  split
  · exact .same rfl rfl rfl rfl
  · rw [List.map_map]
    refine Murmurs.after (.map fun ch _ => ?_) rfl rfl rfl rfl
    simp only [Function.comp_apply]
    split
    · exact .refl ch
    · exact sendControl_got ch rfl

theorem transition_murmurs (w : Work) (t : Option ChildTransition) : Murmurs w.sess (w.transition W cfg t).sess := by
  unfold Work.transition
  split
  · exact notifyChildStopped_murmurs w.sess _
  · exact .same rfl rfl rfl rfl
  · exact .refl _
  · exact .refl _

theorem observeChildTransition_murmurs (w : Work) (evs : List ChildEvent) (now : Instant) :
    Murmurs w.sess (observeChildTransition W cfg w evs now).sess := by
  unfold observeChildTransition
  have hpoll : Murmurs w.sess (w.pollChild evs).1.sess := .same rfl rfl rfl rfl
  generalize w.pollChild evs = r at hpoll ⊢
  obtain ⟨w₁, childState, transition⟩ := r
  dsimp only
  refine hpoll.trans ?_
  cases childState with
  | exited code => exact transition_murmurs { w₁ with loc := deferChildExit w₁.loc now code } transition
  | alive => exact transition_murmurs w₁ transition
  | stopped => exact transition_murmurs w₁ transition

theorem handleSuspendSignals_murmurs (lifecycle : ChildLifecycle) (sigs : List (Signal × List ChildEvent)) (s : Session) :
    Murmurs s (handleSuspendSignals lifecycle sigs s).1 := by
  induction sigs generalizing s with
  | nil => exact .refl s
  | cons se rest ih =>
    obtain ⟨sig, evs⟩ := se
    have hgo : ∀ s' : Session, Murmurs s s' → Murmurs s (handleSuspendSignals lifecycle rest s').1 := fun s' h => h.trans (ih s')
    unfold handleSuspendSignals
    dsimp only
    split
    · split
      · exact hgo _ (.same rfl rfl rfl rfl)
      · refine hgo _ ?_
        split <;> exact .same rfl rfl rfl rfl
    · split
      · exact hgo _ (.same rfl rfl rfl rfl)
      · split
        · exact .same rfl rfl rfl rfl
        · exact hgo _ (.same rfl rfl rfl rfl)

theorem drainSignals_murmurs (w : Work) (inp : IterInput) : Murmurs w.sess (w.drainSignals inp).1.sess := by
  have hsig := handleSuspendSignals_murmurs w.loc.lifecycle inp.signals w.sess
  unfold Work.drainSignals
  split
  · dsimp only
    split <;> exact hsig
  · exact .refl _

theorem sigchld_murmurs (w : Work) (inp : IterInput) (ready : Bool) : Murmurs w.sess (w.sigchld W cfg inp ready).1.sess := by
  unfold Work.sigchld
  split
  · have hdrain := drainSignals_murmurs w inp
    generalize w.drainSignals inp = r at hdrain ⊢
    obtain ⟨w₁, flow⟩ := r
    cases flow with
    | go => exact hdrain.trans (observeChildTransition_murmurs w₁ _ _)
    | again => exact hdrain
    | ret o => exact hdrain
  · exact .refl _

theorem interrupted_murmurs (w : Work) (inp : IterInput) : Murmurs w.sess (w.interrupted W cfg inp).1.sess := by
  unfold Work.interrupted
  have hdrain := drainSignals_murmurs w inp
  generalize w.drainSignals inp = r at hdrain ⊢
  obtain ⟨w₁, flow⟩ := r
  cases flow with
  | go => exact (hdrain.trans (observeChildTransition_murmurs w₁ _ _)).ignore _
  | again => exact hdrain.ignore _
  | ret o => exact hdrain.ignore _

theorem timeoutObserve_murmurs (w : Work) (inp : IterInput) : Murmurs w.sess (w.timeoutObserve W cfg inp).sess := by
  unfold Work.timeoutObserve
  split
  · have hobs : Murmurs w.sess (observeChildTransition W cfg w inp.childBeforeObserve inp.observeNow).sess :=
      observeChildTransition_murmurs w _ _
    dsimp only
    split
    · exact hobs.trans (.same rfl rfl rfl rfl)
    · exact hobs
  · exact .refl _

theorem masterEof_murmurs (w : Work) (inp : IterInput) : Murmurs w.sess (w.masterEof W cfg inp).sess := by
  unfold Work.masterEof
  split
  · exact .refl _
  · have hpoll : Murmurs w.sess (w.pollChild inp.childBeforeRead).1.sess := .same rfl rfl rfl rfl
    generalize w.pollChild inp.childBeforeRead = r at hpoll ⊢
    obtain ⟨w₁, childState, transition⟩ := r
    have htrans : Murmurs w₁.sess (w₁.transition W cfg transition).sess := transition_murmurs w₁ transition
    cases childState <;> exact hpoll.trans htrans

end Child

/-! ## Output -/

section Output

variable {W : World} {cfg : Config} {w : Work} {inp : IterInput} {top : Screen}

theorem rawDataFrame_isSome {bytes : Bytes} (h : bytes.length ≤ masterReadChunk) : (rawDataFrame bytes).isSome := by
  have hfit : (Frame.rawData bytes).Fits := le_trans (Nat.add_le_add_left h 1) (by decide)
  rw [rawDataFrame, Frame.encodeTo_fits hfit]
  rfl

/-- A chunk goes to every client, in the form it subscribed to. -/
theorem broadcastMasterBytes_delivered {clients : List ClientHandle} {bytes : Bytes} {tsMs : Int}
    (h : bytes.length ≤ masterReadChunk) {ch' : ClientHandle} (hch' : ch' ∈ (broadcastMasterBytes W clients bytes tsMs).1) :
    ∃ ch ∈ clients, Got (Delivered W bytes ch.subscription) ch ch' := by
  obtain ⟨payload, hp⟩ := Option.isSome_iff_exists.1 (rawDataFrame_isSome h)
  obtain ⟨ch, hch, ⟨hsel, rfl⟩ | ⟨item, payload', hsel, rfl⟩⟩ := mem_broadcastWith hch'
  · refine ⟨ch', hch, .same rfl rfl rfl rfl ?_⟩
    cases hsub : ch'.subscription with
    | raw => simp [hsub, hp] at hsel
    | tailFollow strip =>
      simp only [hsub, Option.map_eq_none_iff] at hsel
      exact ⟨tsMs, by simp [tailChunk, hsel]⟩
  · refine ⟨ch, hch, (handleEnqueueOutcome_got ch item payload').mono fun l hl => ?_⟩
    cases hsub : ch.subscription with
    | raw =>
      simp only [hsub, hp, Option.map_some, Option.some.injEq, Prod.mk.injEq] at hsel
      exact hl.trans (by rw [hsel.1])
    | tailFollow strip =>
      simp only [hsub, Option.map_eq_some_iff, Prod.mk.injEq] at hsel
      obtain ⟨frame, hframe, rfl, -⟩ := hsel
      exact ⟨tsMs, by simp [tailChunk, hl, hframe]⟩

theorem masterBytes_showing (hflushed : Flushed W w.sess) {bytes : Bytes} (h : bytes.length ≤ masterReadChunk) :
    Showing W inp top w.sess (w.masterBytes W inp bytes).1.sess := by
  have hread : ∀ s' : Session, s'.clients = (broadcastMasterBytes W w.sess.clients bytes inp.unixMs).1 →
      s'.screen = w.sess.screen ++ [.process bytes] → s'.scrollback = w.sess.scrollback.push inp.readNow bytes →
      s'.pendingRedraws = w.sess.pendingRedraws → Showing W inp top w.sess s' := fun s' hc hs hb hp =>
    .single (.read bytes h hflushed (fun ch' hch' => broadcastMasterBytes_delivered h (hc ▸ hch')) hs hb hp)
  unfold Work.masterBytes
  dsimp only
  split
  · split <;> exact hread _ rfl rfl rfl rfl
  · exact hread _ rfl rfl rfl rfl

theorem master_showing (hflushed : Flushed W w.sess) (inp : IterInput) (ready : Bool) :
    Showing W inp top w.sess (w.master W cfg inp ready).1.sess := by
  unfold Work.master
  split
  · split
    · exact (masterEof_murmurs w inp).showing
    · exact (masterEof_murmurs w inp).showing
    · exact (masterEof_murmurs w inp).showing
    · exact masterBytes_showing hflushed (List.length_take_le _ _)
    · exact .refl
    · exact .refl
  · exact .refl

end Output

/-! ## Clients that go -/

section Leaving

variable {W : World} {s : Session} {d : DaemonState}

theorem elevateNextLeader_got (screen : Screen) (clients : List ClientHandle) :
    ∀ ch' ∈ (elevateNextLeader clients).1, ∃ ch ∈ clients, Got (Murmur screen) ch ch' := by
  have hgo : ∀ clients : List ClientHandle, ∀ ch' ∈ (elevateNextLeader.go clients).1,
      ∃ ch ∈ clients, Got (Murmur screen) ch ch' := by
    intro clients
    induction clients with
    | nil => exact fun _ h => nomatch h
    | cons c cs ih =>
      have htail : ∀ ch' : ClientHandle, (∃ ch ∈ cs, Got (Murmur screen) ch ch') →
          ∃ ch ∈ c :: cs, Got (Murmur screen) ch ch' := fun ch' ⟨ch, hch, hg⟩ => ⟨ch, List.mem_cons_of_mem _ hch, hg⟩
      unfold elevateNextLeader.go
      split
      · intro ch' hch'
        rcases List.mem_cons.1 hch' with rfl | hch'
        · exact ⟨c, List.mem_cons_self, .same rfl rfl rfl rfl (.nil _)⟩
        · exact htail ch' ⟨ch', hch', .refl ch'⟩
      · intro ch' hch'
        rcases List.mem_cons.1 hch' with rfl | hch'
        · exact ⟨ch', List.mem_cons_self, .refl ch'⟩
        · exact htail ch' (ih ch' hch')
  unfold elevateNextLeader
  split
  · exact fun ch' hch' => ⟨ch', hch', .refl ch'⟩
  · exact hgo clients

theorem announceNextLeader_murmurs (s : Session) : Murmurs s (s.announceNextLeader W).1 :=
  (Murmurs.of_clients (elevateNextLeader_got s.screen s.clients)).trans (broadcastControl_murmurs _ rfl)

theorem removeClient_murmurs (s : Session) (idx : Nat) (ch : ClientHandle) (now : Instant) :
    Murmurs s (s.removeClient idx ch now) :=
  Murmurs.after (.of_clients fun c (hc : c ∈ s.clients.eraseIdx idx) => ⟨c, List.mem_of_mem_eraseIdx hc, .refl c⟩)
    rfl rfl rfl rfl

theorem detachClients_murmurs (now : Instant) (idxs : List Nat) (s : Session) (d : DaemonState) :
    Murmurs s (detachClients now idxs s d).1 ∧ EffectsAside (detachClients now idxs s d).2.2.1 := by
  induction idxs generalizing s d with
  | nil => exact ⟨.refl s, fun _ he => nomatch he⟩
  | cons idx idxs ih =>
    unfold detachClients
    split
    · exact ih s d
    · rename_i ch _
      obtain ⟨hm, he⟩ := ih (s.removeClient idx ch now) (d.handle (.client (.detached ch.id))).1
      exact ⟨(removeClient_murmurs s idx ch now).trans hm, (handle_aside _ _).append he⟩

theorem dropSilently_murmurs (now : Instant) (idxs : List Nat) (s : Session) : Murmurs s (dropSilently now idxs s) := by
  induction idxs generalizing s with
  | nil => exact .refl s
  | cons idx idxs ih =>
    unfold dropSilently
    split
    · exact ih s
    · exact (removeClient_murmurs s idx _ now).trans (ih _)

theorem detachOthers_murmurs (newId : ClientId) (now : Instant) (s : Session) (d : DaemonState) (ov : List ClientId) :
    Murmurs s (detachOthers W newId now s d ov).1 := by
  unfold detachOthers
  dsimp only
  refine Murmurs.trans ?_ (executeWithFeedback_murmurs _ _ _ (detachClients_murmurs now _ s d).2)
  split
  · exact (detachClients_murmurs now _ s d).1.trans (announceNextLeader_murmurs _)
  · exact (detachClients_murmurs now _ s d).1

end Leaving

/-! ## Clients that come -/

/-- A client that was shown nothing yet. -/
structure Fresh (ch : ClientHandle) : Prop where
  subscription : ch.subscription = .raw
  tail : ch.tail = none
  offers : ∀ o ∈ ch.offers, o.item.aside = true

section Joining

variable {W : World} {cfg : Config} {inp : IterInput} {top : Screen} {s : Session} {d : DaemonState} {ch : ClientHandle}

theorem Fresh.offer (h : Fresh ch) {item : Outgoing} (hitem : item.aside = true) (payload : Option Bytes) :
    Fresh (ch.offer item payload).1 := by
  cases payload with
  | none => exact h
  | some payload =>
    refine ⟨h.subscription, h.tail, fun o ho => ?_⟩
    rcases List.mem_append.1 ho with ho | ho
    · exact h.offers o ho
    · rw [List.mem_singleton.1 ho]
      exact hitem

theorem finalizeAcceptedClient_fresh {req : HandshakeRequest} {intersect : List Cap} {setNonblocking : Bool}
    {clientId : ClientId} {clients : List ClientHandle} {otherPending : Nat} {childStopped : Bool} {now : Instant}
    {unixMs : Nat} {accepted : AcceptedClient} (h : finalizeAcceptedClient W cfg req intersect setNonblocking clientId
      clients otherPending childStopped now unixMs = .ok accepted) : setNonblocking = true ∧ Fresh accepted.handle := by
  unfold finalizeAcceptedClient at h
  dsimp only at h
  split at h
  · cases h
  · rename_i hnb
    refine ⟨by simpa using hnb, ?_⟩
    split at h
    · cases h
    · split at h
      · cases h
      · split at h
        · rename_i handle hsend
          cases h
          obtain rfl : _ = handle := congrArg Prod.fst hsend
          refine Fresh.offer ⟨rfl, rfl, fun o ho => ?_⟩ rfl _
          cases ho
        · cases h

theorem noticeLocked_fresh (h : Fresh ch) (lock : LockState) (missed : List ClientId) :
    Fresh (noticeLocked W lock missed ch).1 := by
  unfold noticeLocked
  split
  · exact h
  · exact h.offer rfl _

theorem sendInitialAttachRedraw_offers (ch : ClientHandle) (screen : Screen) :
    (sendInitialAttachRedraw W ch screen).offers.map (·.item) =
      ch.offers.map (·.item) ++ if redrawFits W screen = true then [.redraw screen] else [] := by
  unfold sendInitialAttachRedraw redrawFits
  split <;> rename_i hframe
  · rw [hframe]
    exact List.map_append
  · rw [hframe]
    exact (List.append_nil _).symm

/-- Whoever joins is sent the screen, or waits for it. -/
theorem attachClient_showing (htop : s.screen = top) (hdone : ∃ poll ∈ inp.handshakes, poll.completes = true)
    (d : DaemonState) (ov : List ClientId)
    {accepted : AcceptedClient} (h : Fresh accepted.handle) :
    Showing W inp top s (attachClient W s d ov accepted).1 ∧ (attachClient W s d ov accepted).1.screen = s.screen := by
  have hfresh := noticeLocked_fresh (W := W) h d.lock s.missed
  unfold attachClient
  generalize noticeLocked W d.lock s.missed accepted.handle = r at hfresh ⊢
  obtain ⟨handle, missed⟩ := r
  dsimp only at hfresh ⊢
  have hjoin : ∀ s' : Session, s'.clients = s.clients ++
        [if W.syncInProgress s.screen then handle else sendInitialAttachRedraw W handle s.screen] →
      s'.screen = s.screen → s'.scrollback = s.scrollback →
      s'.pendingRedraws = (if W.syncInProgress s.screen then
        s.pendingRedraws ++ [(if W.syncInProgress s.screen then handle else sendInitialAttachRedraw W handle s.screen).id]
        else s.pendingRedraws) → Showing W inp top s s' := by
    intro s' hc hs hb hp
    refine .single (.attach htop hdone (fun ch' hch' => ?_) hs hb fun id hid => ?_)
    · rw [hc] at hch'
      rcases List.mem_append.1 hch' with hch' | hch'
      · exact .inl hch'
      · right
        rw [List.mem_singleton.1 hch']
        have hbefore : ∀ item ∈ handle.offers.map (·.item), item.aside = true := by
          intro item hi
          obtain ⟨o, ho, rfl⟩ := List.mem_map.1 hi
          exact hfresh.offers o ho
        cases hsync : W.syncInProgress s.screen with
        | true =>
          rw [hsync] at hp
          exact ⟨hfresh.subscription, hfresh.tail, ⟨_, hbefore, by simp [hsync]⟩, fun _ => by simp [hp]⟩
        | false =>
          have hsub : (sendInitialAttachRedraw W handle s.screen).subscription = .raw ∧
              (sendInitialAttachRedraw W handle s.screen).tail = none := by
            unfold sendInitialAttachRedraw
            split <;> exact ⟨hfresh.subscription, hfresh.tail⟩
          refine ⟨hsub.1, hsub.2, ⟨_, hbefore, ?_⟩, fun hs => nomatch hsync.symm.trans hs⟩
          simpa [hsync] using sendInitialAttachRedraw_offers (W := W) handle s.screen
    · rw [hp]
      split
      · exact List.mem_append_left _ hid
      · exact hid
  split
  · refine ⟨Relation.ReflTransGen.trans ?_ (Murmurs.showing (broadcastControl_murmurs _ rfl)), rfl⟩
    exact hjoin _ rfl rfl rfl rfl
  · exact ⟨hjoin _ rfl rfl rfl rfl, rfl⟩

theorem processPendingHandshakes_showing (cfg : Config) (inp : IterInput) (now : Instant) (unixMs : Nat)
    (kept rest : List PendingHandshake)
    {polls : List HandshakePoll} (hpolls : ∀ poll ∈ polls, poll ∈ inp.handshakes) {s : Session} (htop : s.screen = top)
    (d : DaemonState) (ov : List ClientId) :
    Showing W inp top s (processPendingHandshakes W cfg now unixMs s d kept rest polls ov).1 ∧
      (processPendingHandshakes W cfg now unixMs s d kept rest polls ov).1.screen = s.screen := by
  induction rest generalizing kept polls s d ov with
  | nil => exact ⟨.refl, rfl⟩
  | cons entry rest ih =>
    have htail : ∀ poll ∈ polls.tail, poll ∈ inp.handshakes := fun poll hp => hpolls poll (List.mem_of_mem_tail hp)
    unfold processPendingHandshakes
    split
    · rename_i req intersect setNonblocking hready
      split
      · rename_i accepted hfinal
        obtain ⟨hnb, hfresh⟩ := finalizeAcceptedClient_fresh hfinal
        have hdone : ∃ poll ∈ inp.handshakes, poll.completes = true := by
          cases polls with
          | nil => cases hready
          | cons poll polls =>
            rw [List.headD_cons] at hready
            exact ⟨poll, hpolls poll List.mem_cons_self, by rw [hready]; exact hnb⟩
        obtain ⟨hattach, hscreen⟩ := attachClient_showing (W := W) htop hdone d ov hfresh
        dsimp only
        split
        · have hothers := detachOthers_murmurs (W := W) accepted.handle.id now (attachClient W s d ov accepted).1 d
            (attachClient W s d ov accepted).2
          exact ⟨hattach.trans hothers.showing, hothers.screen.trans hscreen⟩
        · obtain ⟨hrest, hscreen'⟩ := ih kept htail (hscreen.trans htop) d (attachClient W s d ov accepted).2
          exact ⟨hattach.trans hrest, hscreen'.trans hscreen⟩
      · dsimp only
        split
        · rename_i c _
          have hrefused : Murmurs s { s with closing := admitClosing s.closing c } := .same rfl rfl rfl rfl
          obtain ⟨hrest, hscreen'⟩ := ih kept htail (hrefused.screen.trans htop) d ov
          exact ⟨hrefused.showing.trans hrest, hscreen'⟩
        · exact ih _ htail htop _ _
    · exact ih _ htail htop _ _
    · exact ih _ htail htop _ _
    · exact ih _ htail htop _ _

end Joining

/-! ## First redraws -/

section Flush

variable {W : World} {cfg : Config} {inp : IterInput} {top : Screen} {w : Work}

theorem sendInitialAttachRedraw_got (ch : ClientHandle) (screen : Screen) :
    Got (· = if redrawFits W screen = true then [.redraw screen] else []) ch (sendInitialAttachRedraw W ch screen) := by
  unfold sendInitialAttachRedraw redrawFits
  cases attachRedrawFrame W screen with
  | some payload => exact ⟨rfl, rfl, rfl, [⟨.redraw screen, _⟩], rfl, fun _ => rfl⟩
  | none => exact .same rfl rfl rfl rfl rfl

theorem redrawClient_eq (screen : Screen) {clients : List ClientHandle} (hn : (clients.map (·.id)).Nodup) (id : ClientId) :
    redrawClient W screen clients id =
      clients.map fun ch => if ch.id = id then sendInitialAttachRedraw W ch screen else ch := by
  induction clients with
  | nil => rfl
  | cons c cs ih =>
    rw [List.map_cons, List.nodup_cons] at hn
    have hrest := ih hn.2
    unfold redrawClient at hrest ⊢
    rw [List.findIdx?_cons, List.map_cons]
    by_cases hid : c.id = id
    · have hothers : ∀ ch ∈ cs, (if ch.id = id then sendInitialAttachRedraw W ch screen else ch) = ch := fun ch hch =>
        if_neg fun h : ch.id = id => hn.1 ((hid.trans h.symm) ▸ List.mem_map_of_mem hch)
      rw [decide_eq_true hid, if_pos rfl, if_pos hid, List.map_congr_left hothers, List.map_id']
      rfl
    · rw [decide_eq_false hid, if_neg hid, ← hrest]
      cases cs.findIdx? (·.id = id) <;> rfl

/-- Every client that waits is sent the screen, if that fits in a frame. -/
theorem redrawClients_got (screen : Screen) (ids : List ClientId) {clients : List ClientHandle}
    (hn : (clients.map (·.id)).Nodup) :
    ∀ ch' ∈ ids.foldl (redrawClient W screen) clients, ∃ ch ∈ clients, Got (fun items =>
      (∀ item ∈ items, item = .redraw screen) ∧ (ch.id ∈ ids → redrawFits W screen = true → items ≠ [])) ch ch' := by
  induction ids generalizing clients with
  | nil => exact fun ch' hch' => ⟨ch', hch', .same rfl rfl rfl rfl ⟨(fun _ h => nomatch h), fun h => nomatch h⟩⟩
  | cons id ids ih =>
    intro ch' hch'
    rw [List.foldl_cons, redrawClient_eq screen hn] at hch'
    have hids : ((clients.map fun ch => if ch.id = id then sendInitialAttachRedraw W ch screen else ch).map (·.id)) =
        clients.map (·.id) := by
      rw [List.map_map]
      refine List.map_congr_left fun ch _ => ?_
      simp only [Function.comp_apply]
      split
      · exact (sendInitialAttachRedraw_got ch screen).id
      · rfl
    obtain ⟨ch₁, hch₁, hgot⟩ := ih (hids ▸ hn) ch' hch'
    obtain ⟨ch, hch, rfl⟩ := List.mem_map.1 hch₁
    refine ⟨ch, hch, ?_⟩
    by_cases hid : ch.id = id
    · rw [if_pos hid] at hgot
      refine (sendInitialAttachRedraw_got ch screen).trans hgot fun l l' hl hl' => ⟨fun item hi => ?_, fun _ hfit => ?_⟩
      · rw [hl] at hi
        rcases List.mem_append.1 hi with hi | hi
        · split at hi
          · exact List.mem_singleton.1 hi
          · cases hi
        · exact hl'.1 item hi
      · rw [hl, if_pos hfit]
        exact List.cons_ne_nil _ _
    · rw [if_neg hid] at hgot
      exact hgot.mono fun l hl => ⟨hl.1, fun hmem => hl.2 (List.mem_of_ne_of_mem hid hmem)⟩

theorem flushPendingRedraws_showing {s : Session} (htop : s.screen = top) (hn : (s.clients.map (·.id)).Nodup) :
    Showing W inp top s (flushPendingRedraws W s) ∧ Flushed W (flushPendingRedraws W s) := by
  unfold flushPendingRedraws
  split <;> rename_i hskip
  · exact ⟨.refl, hskip.imp_right List.isEmpty_iff.1⟩
  · rw [not_or, Bool.not_eq_true] at hskip
    exact ⟨.single (.flush htop hskip.1 (redrawClients_got s.screen s.pendingRedraws hn) rfl rfl rfl), .inr rfl⟩

theorem handshakes_showing (cfg : Config) (inp : IterInput) (h : w.Mid) (htop : w.sess.screen = top) :
    Showing W inp top w.sess (w.handshakes W cfg inp).sess ∧ Flushed W (w.handshakes W cfg inp).sess := by
  have hst := processPendingHandshakes_stepped (W := W) cfg inp.handshakeNow inp.unixMs h [] w.loc.pendingHandshakes inp.handshakes
  have hshow := processPendingHandshakes_showing (W := W) cfg inp inp.handshakeNow inp.unixMs []
    w.loc.pendingHandshakes (fun _ hp => hp) htop w.loc.daemonState w.overflow
  unfold Work.handshakes
  generalize processPendingHandshakes W cfg inp.handshakeNow inp.unixMs w.sess w.loc.daemonState []
    w.loc.pendingHandshakes inp.handshakes w.overflow = r at hst hshow ⊢
  obtain ⟨s, d, pending, overflow⟩ := r
  obtain ⟨hshow, hscreen⟩ := hshow
  obtain ⟨hflush, hflushed⟩ : Showing W inp top s (flushPendingRedraws W s) ∧ Flushed W (flushPendingRedraws W s) :=
    flushPendingRedraws_showing (hscreen.trans htop) hst.mid.ids
  exact ⟨hshow.trans hflush, hflushed⟩

end Flush

/-! ## Frames -/

/-- Of the session and its output nothing changed but the client at the index. -/
structure Edits (s : Session) (idx : Nat) (ch' : ClientHandle) (s' : Session) : Prop where
  clients : s'.clients = s.clients.set idx ch'
  screen : s'.screen = s.screen
  scrollback : s'.scrollback = s.scrollback
  pendingRedraws : s'.pendingRedraws = s.pendingRedraws

section Frames

variable {W : World} {cfg : Config} {inp : IterInput} {top : Screen} {s s' : Session} {d : DaemonState} {idx : Nat}
  {ch ch' : ClientHandle}

theorem Edits.modify (h : Edits s idx ch' s') (hlt : idx < s.clients.length) (f : ClientHandle → ClientHandle) :
    Edits s idx (f ch') { s' with clients := s'.clients.modify idx f } := by
  refine ⟨?_, h.screen, h.scrollback, h.pendingRedraws⟩
  rw [h.clients, List.modify_eq_set_getElem?, List.getElem?_set_self hlt]
  exact List.set_set _

theorem Edits.reply (h : Edits s idx ch' s') (hlt : idx < s.clients.length) (W : World) (msg : ControlMessage) :
    Edits s idx (ch'.offer (.control msg) (W.controlFrame msg)).1 (s'.reply W idx msg) := by
  have hat : s'.clients[idx]? = some ch' := by rw [h.clients, List.getElem?_set_self hlt]
  have hset : s'.clients.set idx (ch'.offer (.control msg) (W.controlFrame msg)).1 =
      s.clients.set idx (ch'.offer (.control msg) (W.controlFrame msg)).1 := by rw [h.clients, List.set_set]
  unfold Session.reply Session.sendIgnoring
  rw [hat]
  dsimp only
  split <;> exact ⟨hset, h.screen, h.scrollback, h.pendingRedraws⟩

theorem offer_offers (ch : ClientHandle) (item : Outgoing) (payload : Option Bytes) :
    (ch.offer item payload).1.subscription = ch.subscription ∧ (ch.offer item payload).1.tail = ch.tail ∧
      ∃ more, (ch.offer item payload).1.offers = ch.offers ++ more ∧
        (more = [] ∧ payload.isSome = false ∨ ∃ o, more = [⟨item, o⟩] ∧ payload.isSome = true) := by
  cases payload with
  | none => exact ⟨rfl, rfl, [], (List.append_nil _).symm, .inl ⟨rfl, rfl⟩⟩
  | some payload => exact ⟨rfl, rfl, _, rfl, .inr ⟨_, rfl, rfl⟩⟩

theorem handleTailRequest_showing (env : FrameEnv) (req : TailRequest) (hch : s.clients[idx]? = some ch) :
    Showing W inp top s (handleTailRequest W env s idx req) := by
  obtain ⟨hlt, hat⟩ := List.getElem?_eq_some_iff.1 hch
  have hanswer : ∀ (s' : Session) (ch' : ClientHandle), Edits s idx ch' s' → Answered W s env.now req ch ch' →
      Showing W inp top s s' := by
    intro s' ch' he ha
    refine .single (.tail env.now req (fun c hc => ?_) he.screen he.scrollback he.pendingRedraws)
    rw [he.clients] at hc
    rcases List.mem_or_eq_of_mem_set hc with hc | rfl
    · exact ⟨c, hc, .inl (.refl c)⟩
    · exact ⟨ch, List.mem_of_getElem? hch, .inr ha⟩
  unfold handleTailRequest
  split
  · exact (reply_murmurs W s idx rfl).showing
  · rename_i bytes hbytes
    have hstart : Edits s idx { ch with tail := some (tailStart s req bytes ch) }
        (s.startTail idx req.stripAnsi (tailCut req bytes)) := by
      have hself : Edits s idx ch s := ⟨by rw [← hat, List.set_getElem_self], rfl, rfl, rfl⟩
      exact hself.modify hlt fun ch => { ch with tail := some (tailStart s req bytes ch) }
    dsimp only
    generalize s.startTail idx req.stripAnsi (tailCut req bytes) = s₁ at hstart ⊢
    -- the client after the snapshot, where one is sent
    obtain ⟨ch₂, hsnap, hid, hsub, htail, more, hoffers, hseen, hdata⟩ : ∃ ch₂, Edits s idx ch₂
        (if (tailSnapshot W req bytes).isEmpty then s₁
          else s₁.reply W idx (.tailData (tailSnapshot W req bytes) env.unixMs)) ∧
        ch₂.id = ch.id ∧ ch₂.subscription = ch.subscription ∧ ch₂.tail = some (tailStart s req bytes ch) ∧
        ∃ more, ch₂.offers = ch.offers ++ more ∧ (∀ o ∈ more, o.item.seen = none) ∧
          more.filterMap (·.item.tailBytes) = tailSent W req bytes env.unixMs := by
      split <;> rename_i hempty
      · refine ⟨_, hstart, rfl, rfl, rfl, [], (List.append_nil _).symm, (fun _ h => nomatch h), ?_⟩
        rw [tailSent, if_pos hempty, List.filterMap_nil]
      · obtain ⟨hsub, htail, more, hoffers, hmore⟩ := offer_offers { ch with tail := some (tailStart s req bytes ch) }
          (.control (.tailData (tailSnapshot W req bytes) env.unixMs))
          (W.controlFrame (.tailData (tailSnapshot W req bytes) env.unixMs))
        refine ⟨_, hstart.reply hlt W _, offer_id _ _ _, hsub, htail, more, hoffers, ?_⟩
        rw [tailSent, if_neg hempty]
        rcases hmore with ⟨rfl, hframe⟩ | ⟨o, rfl, hframe⟩
        · rw [hframe]
          exact ⟨(fun _ h => nomatch h), rfl⟩
        · rw [hframe]
          exact ⟨fun o ho => by rw [List.mem_singleton.1 ho]; rfl, rfl⟩
    generalize (if (tailSnapshot W req bytes).isEmpty = true then s₁
      else s₁.reply W idx (.tailData (tailSnapshot W req bytes) env.unixMs)) = s₂ at hsnap ⊢
    split <;> rename_i hfollow
    · exact hanswer _ _ (hsnap.modify hlt fun ch => { ch with subscription := .tailFollow req.stripAnsi })
        ⟨hid, (if_pos hfollow).symm, more, bytes, env.unixMs, hoffers, hseen, hbytes, htail, hdata⟩
    · obtain ⟨hsub', htail', more', hoffers', hmore'⟩ :=
        offer_offers ch₂ (.control (.tailEnd .eof)) (W.controlFrame (.tailEnd .eof))
      refine hanswer _ _ (hsnap.reply hlt W (.tailEnd .eof)) ⟨(offer_id _ _ _).trans hid, ?_,
        more ++ more', bytes, env.unixMs, ?_, fun o ho => ?_, hbytes, htail'.trans htail, ?_⟩
      · rw [if_neg hfollow]
        exact hsub'.trans hsub
      · rw [hoffers', hoffers, List.append_assoc]
      · rcases List.mem_append.1 ho with ho | ho
        · exact hseen o ho
        · rcases hmore' with ⟨rfl, -⟩ | ⟨o', rfl, -⟩
          · cases ho
          · rw [List.mem_singleton.1 ho]
            rfl
      · have hnone : more'.filterMap (·.item.tailBytes) = [] := by
          rcases hmore' with ⟨rfl, -⟩ | ⟨o', rfl, -⟩ <;> rfl
        rw [List.filterMap_append, hnone, List.append_nil]
        exact hdata

theorem handleResize_showing (cols rows : Nat) : Showing W inp top s (handleResize W s idx cols rows).1 :=
  guarded_keeps .refl (refuse_murmurs s idx _ _).showing fun _ _ => .single (.resize _ _ rfl rfl rfl rfl)

theorem handleControlMessage_showing (env : FrameEnv) (msg : ControlMessage) :
    Showing W inp top s (handleControlMessage W cfg env s d idx msg).1 := by
  by_cases hresize : ∃ cols rows, msg = .resize cols rows
  · obtain ⟨cols, rows, rfl⟩ := hresize
    exact handleResize_showing cols rows
  · by_cases htail : ∃ req, msg = .tailRequest req
    · obtain ⟨req, rfl⟩ := htail
      exact guarded_keeps .refl (refuse_murmurs s idx _ _).showing fun ch hch => handleTailRequest_showing env req hch
    · exact (handleControlMessage_murmurs env (fun cols rows h => hresize ⟨cols, rows, h⟩) fun req h =>
        htail ⟨req, h⟩).showing

theorem handleClientFrame_showing (env : FrameEnv) (frame : Frame) :
    Showing W inp top s (handleClientFrame W cfg env s d idx frame).1 := by
  unfold handleClientFrame
  split
  · exact (handleRawData_murmurs env frame.body).showing
  · split
    · split
      · exact handleControlMessage_showing env _
      · exact .refl
    · exact .refl

theorem FrameRun.step_showing (r : FrameRun) (idx : Nat) (fre : FrameOrError) :
    Showing W inp top r.sess (r.step W cfg inp idx fre).sess := by
  unfold FrameRun.step
  split
  · exact .refl
  · split
    · exact .refl
    · rename_i frame
      dsimp only
      have hframe : Showing W inp top r.sess (handleClientFrame W cfg
          (inp.frameEnv ((r.sess.clients[idx]?).elim 0 (·.id))) r.sess r.daemonState idx frame).1 :=
        handleClientFrame_showing _ frame
      generalize handleClientFrame W cfg _ r.sess r.daemonState idx frame = res at hframe ⊢
      obtain ⟨s, d, outcome⟩ := res
      cases outcome <;> exact hframe

theorem FrameRun.run_showing (r : FrameRun) (frames : List (Nat × FrameOrError)) :
    Showing W inp top r.sess (r.run W cfg inp frames).sess := by
  induction frames generalizing r with
  | nil => exact .refl
  | cons f frames ih => exact (FrameRun.step_showing r f.1 f.2).trans (ih _)

theorem dropClients_murmurs (inp : IterInput) (r : FrameRun) : Murmurs r.sess (dropClients W inp r).1 := by
  unfold dropClients
  dsimp only
  refine Murmurs.trans ?_ (executeIgnoringOverflow_murmurs _ _ (detachClients_murmurs inp.dropNow _ r.sess r.daemonState).2)
  split
  · exact ((detachClients_murmurs inp.dropNow _ r.sess r.daemonState).1.trans (announceNextLeader_murmurs _)).ignore _
  · exact (detachClients_murmurs inp.dropNow _ r.sess r.daemonState).1

theorem frames_showing (w : Work) (revents : List (ClientId × Bool)) :
    Showing W inp top w.sess (w.frames W cfg inp revents).1.sess := by
  have hcollect : Murmurs w.sess (w.frameRun W inp revents).1.sess := by
    refine .of_clients fun ch' hch' => ?_
    obtain ⟨ch, hch, decoder, rfl⟩ := forall₂_mem_right (collectFrames_same (W := W) inp.recv 0 w.sess.clients revents) hch'
    exact ⟨ch, hch, .same rfl rfl rfl rfl (.nil _)⟩
  unfold Work.frames
  generalize w.frameRun W inp revents = r at hcollect ⊢
  obtain ⟨r, frames⟩ := r
  exact (hcollect.showing.trans (FrameRun.run_showing r frames)).trans (dropClients_murmurs inp _).showing

end Frames

/-! ## A turn -/

section Turn

variable {W : World} {cfg : Config} {inp : IterInput} {top : Screen} {st : State} {w : Work}

theorem flushClients_murmurs (s : Session) (scripts : ClientId → List WriteResult) {s' : Session}
    (hc : s'.clients = flushClients s.clients scripts) (hs : s'.screen = s.screen) (hb : s'.scrollback = s.scrollback)
    (hp : s'.pendingRedraws = s.pendingRedraws) : Murmurs s s' := by
  refine ⟨fun ch' hch' => ?_, hs, hb, hp⟩
  rw [hc] at hch'
  obtain ⟨ch, hch, rfl⟩ := List.mem_map.1 hch'
  refine ⟨ch, hch, ?_⟩
  split
  · exact .refl ch
  · exact .same rfl rfl rfl rfl (.nil _)

/-- The session a turn comes to `poll` with, or ends with before it. -/
def sessAtPoll : Except Turn Work → Session
  | .error turn => turn.1.sess
  | .ok w => w.sess

theorem beforePoll_murmurs (cfg : Config) (inp : IterInput) (st : State) :
    Murmurs st.sess (sessAtPoll (beforePoll cfg inp st)) := by
  unfold beforePoll
  dsimp only
  split
  · unfold awaitUpgradeFlush
    dsimp only
    split <;> exact flushClients_murmurs st.sess inp.flush rfl rfl rfl rfl
  · split
    · exact flushClients_murmurs st.sess inp.flush rfl rfl rfl rfl
    · split <;> exact flushClients_murmurs st.sess inp.flush rfl rfl rfl rfl

/-- The listener leaves the session alone. -/
theorem listen_sess (w : Work) (inp : IterInput) (ready : Bool) : (w.listen inp ready).1.sess = w.sess := by
  unfold Work.listen
  split
  · split
    · rfl
    · split <;> rfl
  · rfl

/-- The session a turn has come to at this stage. -/
def Stage.sess : Stage → Session
  | .done turn => turn.1.sess
  | .tick w | .frames w _ => w.sess

theorem leave_showing {s : Session} (h : Showing W inp top s w.sess) (o : Option RelayOutcome) :
    Showing W inp top s (Stage.done (w.leave o)).sess := h.trans (Murmurs.showing ((Murmurs.refl w.sess).ignore w.overflow))

theorem afterHandshakes_showing (hflushed : Flushed W w.sess) (listener master sigchld : Bool)
    (revents : List (ClientId × Bool)) :
    Showing W inp top w.sess (w.afterHandshakes W cfg inp listener master sigchld revents).sess := by
  unfold Work.afterHandshakes
  have hsig : Murmurs w.sess (w.sigchld W cfg inp sigchld).1.sess := sigchld_murmurs w inp sigchld
  generalize w.sigchld W cfg inp sigchld = r₁ at hsig ⊢
  obtain ⟨w₁, flow₁⟩ := r₁
  cases flow₁ with
  | ret o => exact leave_showing hsig.showing _
  | again => exact leave_showing hsig.showing _
  | go =>
    have hlisten := listen_sess w₁ inp listener
    dsimp only at hsig ⊢
    generalize w₁.listen inp listener = r₂ at hlisten ⊢
    obtain ⟨w₂, flow₂⟩ := r₂
    dsimp only at hlisten
    rw [← hlisten] at hsig
    cases flow₂ with
    | ret o => exact leave_showing hsig.showing _
    | again => exact leave_showing hsig.showing _
    | go =>
      have hmaster : Showing W inp top w₂.sess (w₂.master W cfg inp master).1.sess :=
        master_showing (hflushed.murmurs hsig) inp master
      dsimp only at hmaster ⊢
      generalize w₂.master W cfg inp master = r₃ at hmaster ⊢
      obtain ⟨w₃, flow₃⟩ := r₃
      have hall := hsig.showing.trans hmaster
      cases flow₃ with
      | ret o => exact leave_showing hall _
      | again => exact leave_showing hall _
      | go => exact hall

theorem afterPoll_showing (cfg : Config) (inp : IterInput) (h : w.Mid) (htop : w.sess.screen = top) :
    Showing W inp top w.sess (w.afterPoll W cfg inp).sess := by
  unfold Work.afterPoll
  cases inp.poll with
  | error => exact leave_showing .refl _
  | interrupted => exact (interrupted_murmurs w inp).showing
  | timeout =>
    have hobs : Murmurs w.sess (w.timeoutObserve W cfg inp).sess := timeoutObserve_murmurs w inp
    have hmid : (w.timeoutObserve W cfg inp).Mid := (Work.timeoutObserve_chats h inp).mid
    obtain ⟨hshake, hflushed⟩ := handshakes_showing (W := W) cfg inp hmid (hobs.screen.trans htop)
    dsimp only
    split
    · exact hobs.showing.trans (hshake.trans (afterHandshakes_showing hflushed _ _ _ _))
    · exact hobs.showing.trans hshake
  | ready listener master readable sigchld =>
    obtain ⟨hshake, hflushed⟩ := handshakes_showing (W := W) cfg inp h htop
    exact hshake.trans (afterHandshakes_showing hflushed _ _ _ _)

theorem beforeFrames_showing (cfg : Config) (inp : IterInput) (h : st.Ok) :
    Showing W inp st.sess.screen st.sess (beforeFrames W cfg inp st).sess := by
  have hbefore := beforePoll_murmurs cfg inp st
  unfold beforeFrames
  rcases beforePoll_spec (W := W) cfg inp h with ⟨turn, heq, -, -⟩ | ⟨w, heq, harr, -⟩
  · rw [heq] at hbefore ⊢
    exact hbefore.showing
  · rw [heq] at hbefore ⊢
    exact hbefore.showing.trans (afterPoll_showing cfg inp harr.mid hbefore.screen)

/-- A turn is a sequence of these steps. -/
theorem iterate_showing (cfg : Config) (inp : IterInput) (h : st.Ok) :
    Showing W inp st.sess.screen st.sess (iterate W cfg inp st).1.sess := by
  have hbefore := beforeFrames_showing (W := W) cfg inp h
  unfold iterate
  generalize beforeFrames W cfg inp st = stage at hbefore ⊢
  cases stage with
  | done turn => exact hbefore
  | tick w => exact hbefore.trans (dropSilently_murmurs inp.dropNow _ w.sess).showing
  | frames w revents => exact hbefore.trans (frames_showing w revents)

theorem enterServeLoop_murmurs (cfg : Config) (e : EntryInput) (s : Session) : Murmurs s (enterServeLoop W cfg e s).sess :=
  observeChildTransition_murmurs { sess := s, loc := Locals.initial cfg e, overflow := [] } e.childEvents e.now

theorem resumeServe_murmurs (failure : UpgradeFailure) (e : EntryInput) (s : Session) :
    Murmurs s (resumeServe W cfg failure e s).sess := by
  refine Murmurs.trans ?_ (enterServeLoop_murmurs cfg e _)
  exact .same rfl rfl rfl rfl

end Turn

end Hyoui.Daemon
