import Hyoui.Daemon.Retelling
import Hyoui.Daemon.Showing
/-!
# What the daemon does to a client

Whatever the daemon does to a client, between two passes of writes and apart from reading its socket, is
a sequence of four kinds of step (`Dealing`), guards included: what is sent only to a client that asked
for the capability, and who may become a writer, stands in them. Every handler deals with the clients
this way, and a client that was not there before is a `Newcomer` of a finished handshake. `Deals` says
beside that which entries about input were logged: none, but by a frame of raw input.
-/

namespace Hyoui.Daemon

open Hyoui.Protocol Hyoui.Lib

/-! ## One client -/

/-- The frame an item is sent in. -/
def Outgoing.payload (W : World) : Outgoing → Option Bytes
  | .control msg => W.controlFrame msg
  | .rawAck ack => W.rawAckFrame ack
  | .output bytes => rawDataFrame bytes
  | .redraw screen => attachRedrawFrame W screen

/-- The capability that the protocol gives a message to. -/
def Outgoing.cap : Outgoing → Option Cap
  | .output _ | .redraw _ => some .data
  | .control (.lockResponse _) | .control (.leaderNotify _) | .control (.modeChange _) => some .lock
  | .control (.tailData _ _) | .control (.tailEnd _) => some .tailV1
  | .control (.screenDumpResponse _ _) => some .screenDumpV1
  | .control (.stateSnapshotResponse _) => some .stateSnapshotV1
  | .control (.sessionExitNotify _ _) => some .sessionExitV1
  | .control (.sessionChildStoppedNotify _ _) => some .childStateV1
  | .control (.recordStartResponse _) | .control (.recordStopResponse _) | .control (.recordListResponse _) => some .recordV1
  | .control (.setAck _ _) => some .setV1
  | .control .upgradeAck => some .upgradeV1
  | _ => none

/-- The capability a client must have negotiated to be sent the item: what belongs to `data` and to `lock` is sent
to anybody. -/
def Outgoing.capNeeded (item : Outgoing) : Option Cap := item.cap.filter fun cap => cap ≠ .data ∧ cap ≠ .lock

def Outgoing.isExitNotice : Outgoing → Bool
  | .control (.sessionExitNotify _ _) => true
  | _ => false

/-- The item may be sent to the client. A tail follower is one that was let follow. -/
structure Outgoing.Fitting (item : Outgoing) (ch : ClientHandle) : Prop where
  cap : ∀ cap, item.capNeeded = some cap → cap ∈ ch.negotiatedCaps ∨ cap = .tailV1 ∧ ch.subscription ≠ .raw
  exit : item.isExitNotice = false

/-- One thing the daemon does to an attached client. -/
inductive Dealing (W : World) (ch : ClientHandle) : ClientHandle → Prop
  | enqueue {item : Outgoing} {payload : Bytes} (frame : item.payload W = some payload) (fits : item.Fitting ch) :
    Dealing W ch (ch.enqueueForClient item payload).1
  | enqueueIgnoringLimit {item : Outgoing} {payload : Bytes} (frame : item.payload W = some payload) (fits : item.Fitting ch) :
    Dealing W ch (ch.enqueueIgnoringLimit item payload)
  | role {leader : Bool} {mode : Mode} (writes : mode = ch.mode ∨ ch.mode = .rwNoLeader ∧ mode = .rw) :
    Dealing W ch { ch with leader, mode }
  | follow {subscription : Subscription} {tail : Option TailStart}
    (asked : subscription = ch.subscription ∨ .tailV1 ∈ ch.negotiatedCaps) : Dealing W ch { ch with subscription, tail }

abbrev Dealt (W : World) : ClientHandle → ClientHandle → Prop := Relation.ReflTransGen (Dealing W)

/-- A client made of a handshake that turned out complete. -/
structure Newcomer (polls : List HandshakePoll) (ch : ClientHandle) : Prop where
  handshake : ∃ req, .ready req ch.negotiatedCaps true ∈ polls ∧ ch.mode = req.mode
  subscription : ch.subscription = .raw
  offers : ch.offers = []
  send : ch.send = {}
  decoder : ch.decoder = {}

theorem fitting_of_none {item : Outgoing} (hcap : item.capNeeded = none) (ch : ClientHandle) : item.Fitting ch where
  cap cap h := by rw [hcap] at h; cases h
  exit := by
    unfold Outgoing.isExitNotice
    split
    · cases hcap
    · rfl

/-- A client with the capability may be sent what needs it, unless that is the exit notice. -/
theorem fitting_of_cap {item : Outgoing} {ch : ClientHandle} {cap : Cap} (hneeds : item.capNeeded = some cap)
    (hcap : cap ∈ ch.negotiatedCaps) (hexit : cap ≠ .sessionExitV1) : item.Fitting ch where
  cap c h := .inl (Option.some.inj (hneeds.symm.trans h) ▸ hcap)
  exit := by
    unfold Outgoing.isExitNotice
    split
    · exact absurd (Option.some.inj hneeds).symm hexit
    · rfl

section Client

variable {W : World} {ch ch' : ClientHandle}

theorem offer_dealt {item : Outgoing} (fits : item.Fitting ch) : Dealt W ch (ch.offer item (item.payload W)).1 := by
  cases hframe : item.payload W with
  | none => exact .refl
  | some payload => exact .single (.enqueue hframe fits)

theorem sendControl_dealt {msg : ControlMessage} (fits : (Outgoing.control msg).Fitting ch) :
    Dealt W ch (sendControl W ch msg).1 := offer_dealt fits

/-- An enqueue of a broadcast, and the notice to a client that overflowed. -/
theorem handleEnqueueOutcome_dealt {item : Outgoing} {payload : Bytes} (hframe : item.payload W = some payload)
    (fits : item.Fitting ch) : Dealt W ch (handleEnqueueOutcome W (ch.enqueueForClient item payload)).1 := by
  have hsent : Dealt W ch (ch.enqueueForClient item payload).1 := .single (.enqueue hframe fits)
  unfold handleEnqueueOutcome
  split
  · exact hsent
  · refine hsent.trans ?_
    generalize (ch.enqueueForClient item payload).1 = ch₁
    dsimp only
    unfold sendBackpressureError
    split
    · exact .refl
    · rename_i frame hframe
      split
      · exact .refl
      · have hnotice : (Outgoing.control (backpressureError ch₁ ch₁.send.queuedBytes)).payload W = some frame := hframe
        exact .single (.enqueueIgnoringLimit hnotice (fitting_of_none rfl _))
  · exact hsent

/-- Capabilities and id are for life, and what is dealt out does not touch what was read. -/
theorem Dealt.same (h : Dealt W ch ch') :
    ch'.negotiatedCaps = ch.negotiatedCaps ∧ ch'.id = ch.id ∧ ch'.decoder = ch.decoder := by
  induction h with
  | refl => exact ⟨rfl, rfl, rfl⟩
  | tail _ hstep ih => cases hstep <;> exact ih

end Client

/-! ## A session -/

/-- Whose input an entry is about: recorded, refused, or not taken to its end. -/
def LogEntry.typist : LogEntry → Option ClientId
  | .push (.bytesIn id _) | .push (.inRejected id _ _ _ _) | .push (.inWriteError id _ _ _ _) => some id
  | _ => none

def LogEntry.isTyping (e : LogEntry) : Bool := e.typist.isSome

def Session.typing (s : Session) : Log := s.log.filter (·.isTyping)

/-- Every client was there and was dealt with, or is one of the handshakes and was dealt with since; and of the
entries about what clients typed, these were logged. -/
structure Deals (W : World) (polls : List HandshakePoll) (typed : Log) (s s' : Session) : Prop where
  clients : ∀ ch' ∈ s'.clients, (∃ ch ∈ s.clients, Dealt W ch ch') ∨
    ∃ ch, Newcomer polls ch ∧ s.nextClientId ≤ ch.id ∧ ch.id < s'.nextClientId ∧ Dealt W ch ch'
  nextId : s.nextClientId ≤ s'.nextClientId
  typing : s'.typing = s.typing ++ typed

section Deals

variable {W : World} {polls : List HandshakePoll} {s s' s'' : Session} {idx : Nat} {typed typed' : Log}

theorem typing_of_log (h : s'.log = s.log) : s'.typing = s.typing := congrArg (List.filter LogEntry.isTyping) h

theorem typing_logs (s : Session) (e : LogEntry) : (s.logs e).typing = s.typing ++ [e].filter (·.isTyping) :=
  List.filter_append ..

theorem Deals.append (h : Deals W polls typed s s') (h' : Deals W polls typed' s' s'') : Deals W polls (typed ++ typed') s s'' where
  clients ch'' hch'' := by
    rcases h'.clients ch'' hch'' with ⟨ch', hch', hd'⟩ | ⟨ch', hnew, hle, hlt, hd'⟩
    · rcases h.clients ch' hch' with ⟨ch, hch, hd⟩ | ⟨ch, hnew, hle, hlt, hd⟩
      · exact .inl ⟨ch, hch, hd.trans hd'⟩
      · exact .inr ⟨ch, hnew, hle, lt_of_lt_of_le hlt h'.nextId, hd.trans hd'⟩
    · exact .inr ⟨ch', hnew, le_trans h.nextId hle, hlt, hd'⟩
  nextId := le_trans h.nextId h'.nextId
  typing := by rw [h'.typing, h.typing, List.append_assoc]

theorem Deals.trans (h : Deals W polls [] s s') (h' : Deals W polls typed s' s'') : Deals W polls typed s s'' := h.append h'

/-- The rest of the session does not matter. -/
theorem Deals.after (h : Deals W polls typed s s') (hc : s''.clients = s'.clients) (hn : s''.nextClientId = s'.nextClientId)
    (hlog : s''.log = s'.log) : Deals W polls typed s s'' :=
  ⟨hc ▸ hn ▸ h.clients, hn ▸ h.nextId, (typing_of_log hlog).trans h.typing⟩

theorem Deals.of_clients {clients : List ClientHandle} (h : ∀ ch' ∈ clients, ∃ ch ∈ s.clients, Dealt W ch ch') :
    Deals W polls [] s { s with clients } :=
  ⟨fun ch' hch' => .inl (h ch' hch'), Nat.le_refl _, (List.append_nil _).symm⟩

theorem Deals.refl (s : Session) : Deals W polls [] s s := .of_clients fun ch hch => ⟨ch, hch, .refl⟩

theorem Deals.same (hc : s'.clients = s.clients) (hn : s'.nextClientId = s.nextClientId) (hlog : s'.log = s.log) :
    Deals W polls [] s s' := (Deals.refl s).after hc hn hlog

theorem Deals.entry (s : Session) (e : LogEntry) : Deals W polls ([e].filter (·.isTyping)) s (s.logs e) := by
  have hrefl : Deals W polls [] s s := .refl s
  exact ⟨hrefl.clients, Nat.le_refl _, typing_logs s e⟩

theorem Deals.logs (s : Session) (e : LogEntry) (h : e.isTyping = false) : Deals W polls [] s (s.logs e) := by
  have hentry : Deals W polls ([e].filter (·.isTyping)) s (s.logs e) := .entry s e
  rwa [List.filter_cons_of_neg (by simp [h]), List.filter_nil] at hentry

/-- What was logged is known otherwise. -/
theorem Deals.logged (h : Deals W polls typed s s') (hlog : s'.typing = s.typing ++ typed') : Deals W polls typed' s s' :=
  ⟨h.clients, h.nextId, hlog⟩

theorem Deals.set {ch ch' : ClientHandle} (hch : s.clients[idx]? = some ch) (h : Dealt W ch ch') :
    Deals W polls [] s { s with clients := s.clients.set idx ch' } := by
  refine .of_clients fun c hc => ?_
  rcases List.mem_or_eq_of_mem_set hc with hc | rfl
  · exact ⟨c, hc, .refl⟩
  · exact ⟨ch, List.mem_of_getElem? hch, h⟩

theorem Deals.ignore (h : Deals W polls typed s s') (ids : List ClientId) : Deals W polls typed s (s'.ignore ids) :=
  h.after rfl rfl rfl

theorem offerAt_deals (s : Session) (idx : Nat) {item : Outgoing}
    (fits : ∀ ch, s.clients[idx]? = some ch → item.Fitting ch) :
    Deals W polls [] s (s.offerAt idx item (item.payload W)).1 := by
  cases hch : s.clients[idx]? with
  | none =>
    rw [Session.offerAt, hch]
    exact .refl s
  | some ch =>
    rw [offerAt_eq hch]
    exact .set hch (offer_dealt (fits ch hch))

theorem sendIgnoring_deals (s : Session) (idx : Nat) {item : Outgoing}
    (fits : ∀ ch, s.clients[idx]? = some ch → item.Fitting ch) :
    Deals W polls [] s (s.sendIgnoring idx (·.offer item (item.payload W))).1 := by
  unfold Session.sendIgnoring
  split
  · exact .refl s
  · rename_i ch hch
    have hoffer : Deals W polls [] s (s.offerAt idx item (item.payload W)).1 := offerAt_deals s idx fits
    rw [offerAt_eq hch] at hoffer
    dsimp only
    split
    · exact hoffer.ignore _
    · exact hoffer

theorem reply_deals (s : Session) (idx : Nat) {msg : ControlMessage}
    (fits : ∀ ch, s.clients[idx]? = some ch → (Outgoing.control msg).Fitting ch) : Deals W polls [] s (s.reply W idx msg) :=
  sendIgnoring_deals s idx fits

/-- A reply that needs no capability. -/
theorem reply_free (s : Session) (idx : Nat) {msg : ControlMessage} (h : (Outgoing.control msg).capNeeded = none) :
    Deals W polls [] s (s.reply W idx msg) := reply_deals s idx fun ch _ => fitting_of_none h ch

theorem refuse_deals (s : Session) (idx : Nat) (code : ErrorCode) (message : String) :
    Deals W polls [] s (refuse W s idx code message) := reply_free s idx rfl

theorem broadcastWith_deals (s : Session) {select : ClientHandle → Option (Outgoing × Bytes)}
    (h : ∀ ch ∈ s.clients, ∀ item payload, select ch = some (item, payload) →
      item.payload W = some payload ∧ item.Fitting ch) :
    Deals W polls [] s { s with clients := (broadcastWith W s.clients select).1 } := by
  refine .of_clients fun ch' hch' => ?_
  obtain ⟨ch, hch, ⟨-, rfl⟩ | ⟨item, payload, hsel, rfl⟩⟩ := mem_broadcastWith hch'
  · exact ⟨ch', hch, .refl⟩
  · obtain ⟨hframe, fits⟩ := h ch hch item payload hsel
    exact ⟨ch, hch, handleEnqueueOutcome_dealt hframe fits⟩

theorem broadcastControl_deals (s : Session) {msg : ControlMessage} (h : (Outgoing.control msg).capNeeded = none) :
    Deals W polls [] s (s.broadcastControl W msg).1 := by
  refine broadcastWith_deals s fun ch _ item payload hsel => ?_
  simp only [Option.map_eq_some_iff, Prod.mk.injEq] at hsel
  obtain ⟨frame, hframe, rfl, rfl⟩ := hsel
  exact ⟨hframe, fitting_of_none h ch⟩

end Deals

/-! ## The reducer's effects -/

def EffectKind.free : EffectKind → Bool
  | .clientReply _ message | .clientBroadcast message => (Outgoing.control message).capNeeded.isNone
  | .ttyWrite _ | .clientRawAck .. | .clientDisconnect _ | .record _ => true

/-- None of the effects sends what needs a capability. -/
def EffectsFree (effects : List Effect) : Prop := ∀ e ∈ effects, e.kind.free = true

section Effects

variable {W : World} {polls : List HandshakePoll} {d : DaemonState} {effects : List Effect}

theorem EffectsFree.append {es es' : List Effect} (h : EffectsFree es) (h' : EffectsFree es') : EffectsFree (es ++ es') := by
  intro e he
  rcases List.mem_append.1 he with he | he
  · exact h e he
  · exact h' e he

theorem reduceMsg_free (lock : LockState) (msg : LockMsg) : EffectsFree (lock.reduceMsg msg).2.1 := by
  have hevent : ∀ (lock : LockState) ev, EffectsFree (lock.eventEffects ev).2 := by
    intro lock ev e he
    cases ev with
    | acquired id token newly =>
      cases newly <;> simp only [LockState.eventEffects, LockState.emit] at he
      · rw [List.mem_singleton.1 he]
        rfl
      · rcases List.mem_cons.1 he with rfl | he
        · rfl
        · rw [List.mem_singleton.1 he]
          rfl
    | tokenRequired id => cases he
    | released id reason =>
      rw [List.mem_singleton.1 he]
      rfl
    | denied id reason =>
      rw [List.mem_singleton.1 he]
      cases reason <;> rfl
  have hevents : ∀ (evs : List LockEvent) (lock : LockState), EffectsFree (lock.eventsEffects evs).2 := by
    intro evs
    induction evs with
    | nil =>
      intro lock e he
      cases he
    | cons ev evs ih => exact fun lock => (hevent lock ev).append (ih _)
  exact hevents _ _

theorem emitAll_free (s : ClientRegistry) {ks : List EffectKind} (h : ∀ k ∈ ks, k.free = true) :
    EffectsFree (s.emitAll ks).2 := fun _ he => h _ (emitAll_mem he)

theorem reduceRawData_free (s : ClientRegistry) (lock : LockState) (id : ClientId) (mode : Mode) (bytes : Bytes) :
    EffectsFree (s.reduceRawData lock id mode bytes).2.effects := by
  have hreject : ∀ lockHolder reason ack, EffectsFree (s.rejectInput id mode lockHolder reason bytes ack).2.effects := by
    intro lockHolder reason ack e he
    simp only [ClientRegistry.rejectInput, ClientRegistry.emit, List.mem_cons, List.not_mem_nil, or_false] at he
    rcases he with rfl | rfl <;> rfl
  unfold ClientRegistry.reduceRawData
  split
  · exact hreject _ _ _
  · split
    · exact hreject _ _ _
    · intro e he
      rw [List.mem_singleton.1 he]
      rfl

theorem reduceEffectResult_free (s : ClientRegistry) (seq : Nat) (outcome : EffectOutcome) :
    EffectsFree (s.reduceEffectResult seq outcome).2.effects := by
  have hone : ∀ {e : Effect}, e.kind.free = true → EffectsFree [e] := fun he e' he' => List.mem_singleton.1 he' ▸ he
  have hnil : EffectsFree [] := by
    intro e he
    cases he
  unfold ClientRegistry.reduceEffectResult
  split
  · rename_i pw _
    unfold ClientRegistry.finishWrite
    split
    · rename_i written requested error
      have hrecords : ∀ s : ClientRegistry, EffectsFree (s.emitAll (ClientRegistry.writeRecords pw written requested error)).2 := by
        refine fun s => emitAll_free s fun k hk => ?_
        obtain ⟨entry, rfl⟩ := writeRecords_isRecord pw written requested error hk
        rfl
      dsimp only
      split
      · exact (hrecords _).append (hone rfl)
      · refine (hrecords _).append (emitAll_free _ fun k hk => ?_)
        simp only [List.mem_append, List.mem_singleton] at hk
        rcases hk with (rfl | hk) | rfl
        · rfl
        · split at hk
          · rw [List.mem_singleton.1 hk]
            rfl
          · cases hk
        · rfl
    · exact hone rfl
    · exact hone rfl
  · split
    · dsimp only
      split
      · exact hnil
      · exact hone rfl
    · exact hnil

theorem dispatch_free (d : DaemonState) (msg : DaemonMsg) : EffectsFree (d.dispatch msg).2.effects := by
  have hnil : EffectsFree [] := by
    intro e he
    cases he
  rcases msg with (⟨id, mode, bytes⟩ | id) | msg | ⟨⟨domain, seq⟩, outcome⟩
  · exact reduceRawData_free _ _ _ _ _
  · exact hnil
  · exact reduceMsg_free _ _
  · cases domain with
    | client => exact reduceEffectResult_free _ _ _
    | lock => exact hnil

theorem drive_free (fuel : Nat) (d : DaemonState) (queue : List DaemonMsg) : EffectsFree (d.drive fuel queue).2 := by
  induction fuel generalizing d queue with
  | zero =>
    intro e he
    cases he
  | succ fuel ih =>
    cases queue with
    | nil =>
      intro e he
      cases he
    | cons msg queue =>
      unfold DaemonState.drive
      dsimp only
      split
      · exact dispatch_free d msg
      · exact (dispatch_free d msg).append (ih _ _)

theorem handle_free (d : DaemonState) (msg : DaemonMsg) : EffectsFree (d.handle msg).2 := drive_free _ _ _

theorem handleAll_free (d : DaemonState) (msgs : List DaemonMsg) : EffectsFree (d.handleAll msgs).2 := by
  induction msgs generalizing d with
  | nil =>
    intro e he
    cases he
  | cons msg msgs ih => exact (handle_free d msg).append (ih _)

theorem sendTo_deals (ctx : ExecuteCtx) (id : ClientId) {item : Outgoing} (h : item.capNeeded = none) :
    Deals W polls [] ctx.session (ctx.sendTo id (·.offer item (item.payload W))).1.session := by
  unfold ExecuteCtx.sendTo
  split
  · exact .refl _
  · exact sendIgnoring_deals _ _ fun ch _ => fitting_of_none h ch

theorem executeOne_deals (ctx : ExecuteCtx) {kind : EffectKind} (h : kind.free = true) :
    ∃ typed, Deals W polls typed ctx.session (ctx.executeOne W kind).1.session := by
  cases kind with
  | clientReply id message => exact ⟨_, sendTo_deals ctx id (Option.isNone_iff_eq_none.1 h)⟩
  | clientBroadcast message => exact ⟨_, broadcastControl_deals ctx.session (Option.isNone_iff_eq_none.1 h)⟩
  | ttyWrite bytes =>
    unfold ExecuteCtx.executeOne
    dsimp only
    split
    · exact ⟨_, .refl _⟩
    · exact ⟨_, .logs _ _ rfl⟩
  | clientRawAck id ack =>
    have hack : (Outgoing.rawAck ack).capNeeded = none := rfl
    exact ⟨_, sendTo_deals ctx id hack⟩
  | clientDisconnect id => exact ⟨_, .refl _⟩
  | record entry =>
    unfold ExecuteCtx.executeOne
    dsimp only
    split
    · exact ⟨_, .entry _ _⟩
    · exact ⟨_, .refl _⟩

theorem execute_deals (ctx : ExecuteCtx) (h : EffectsFree effects) :
    ∃ typed, Deals W polls typed ctx.session (ctx.execute W effects).1.session := by
  induction effects generalizing ctx with
  | nil => exact ⟨_, .refl _⟩
  | cons e es ih =>
    obtain ⟨_, hone⟩ : ∃ typed, Deals W polls typed ctx.session (ctx.executeOne W e.kind).1.session :=
      executeOne_deals ctx (h e List.mem_cons_self)
    obtain ⟨_, hrest⟩ := ih (ctx.executeOne W e.kind).1 fun e' he' => h e' (List.mem_cons_of_mem _ he')
    exact ⟨_, hone.append hrest⟩

variable (W polls) in
theorem feedbackRounds_deals (rounds : Nat) (d : DaemonState) (ctx : ExecuteCtx) (h : EffectsFree effects) :
    ∃ typed, Deals W polls typed ctx.session (feedbackRounds W rounds d effects ctx).2.session := by
  induction rounds generalizing d effects ctx with
  | zero => exact ⟨_, .refl _⟩
  | succ rounds ih =>
    cases effects with
    | nil => exact ⟨_, .refl _⟩
    | cons e es =>
      obtain ⟨_, hround⟩ : ∃ typed, Deals W polls typed ctx.session (ctx.execute W (e :: es)).1.session := execute_deals ctx h
      obtain ⟨_, hrest⟩ := ih (d.handleAll (ctx.execute W (e :: es)).2).1 (ctx.execute W (e :: es)).1 (handleAll_free _ _)
      exact ⟨_, hround.append hrest⟩

theorem Clientside.log {s s' : Session} (h : Clientside s s') : s'.log = s.log := by
  obtain ⟨_, _, rfl⟩ := h
  rfl

/-- Without the PTY nothing is logged. -/
theorem feedbackRounds_clientside (rounds : Nat) (d : DaemonState) (es : List Effect) (ctx : ExecuteCtx) (htty : ctx.tty = none) :
    Clientside ctx.session (feedbackRounds W rounds d es ctx).2.session := by
  induction rounds generalizing d es ctx with
  | zero => exact .refl _
  | succ rounds ih =>
    cases es with
    | nil => exact .refl _
    | cons e es =>
      obtain ⟨hround, htty'⟩ := execute_clientside (W := W) ctx htty (e :: es)
      exact hround.trans (ih _ _ _ htty')

theorem executeWithFeedback_deals (d : DaemonState) (s : Session) (ids : List ClientId) (h : EffectsFree effects) :
    Deals W polls [] s (executeWithFeedback W d effects s ids).2.1 := by
  obtain ⟨_, hdeals⟩ := feedbackRounds_deals W polls maxFeedbackRounds d { session := s, overflowIds := ids } h
  have hside : Clientside s (executeWithFeedback W d effects s ids).2.1 :=
    feedbackRounds_clientside maxFeedbackRounds d effects { session := s, overflowIds := ids } rfl
  exact hdeals.logged ((typing_of_log hside.log).trans (List.append_nil _).symm)

theorem executeIgnoringOverflow_deals (d : DaemonState) (s : Session) (h : EffectsFree effects) :
    Deals W polls [] s (executeIgnoringOverflow W d effects s).1 := (executeWithFeedback_deals d s [] h).ignore _

end Effects

/-! ## The handlers -/

section Handlers

variable {W : World} {cfg : Config} {polls : List HandshakePoll} {s s₁ : Session} {d : DaemonState} {idx : Nat} {ch : ClientHandle}

theorem guarded_deals {ok : ClientHandle → Bool} {code : ErrorCode} {message : String} {k : ClientHandle → Handled}
    (h : ∀ ch, s.clients[idx]? = some ch → ok ch = true → Deals W polls [] s (k ch).1) :
    Deals W polls [] s (guarded W s idx ok code message k).1 := by
  unfold guarded
  split
  · exact .refl s
  · rename_i ch hch
    split <;> rename_i hok
    · exact h ch hch hok
    · exact refuse_deals s idx code message

/-- Whoever is at the index negotiated the capability. -/
def CapAt (cap : Cap) (idx : Nat) (s : Session) : Prop := ∀ ch, s.clients[idx]? = some ch → cap ∈ ch.negotiatedCaps

theorem capAt_of_check {cap : Cap} (hch : s.clients[idx]? = some ch) (hok : decide (cap ∈ ch.negotiatedCaps) = true) :
    CapAt cap idx s := by
  intro c hc
  rw [hch] at hc
  exact Option.some.inj hc ▸ of_decide_eq_true hok

theorem CapAt.modify {cap : Cap} (h : CapAt cap idx s) {f : ClientHandle → ClientHandle}
    (hf : ∀ ch, (f ch).negotiatedCaps = ch.negotiatedCaps) : CapAt cap idx { s with clients := s.clients.modify idx f } := by
  intro c hc
  rw [List.getElem?_modify_eq] at hc
  change Option.map f s.clients[idx]? = some c at hc
  rw [Option.map_eq_some_iff] at hc
  obtain ⟨ch, hch, rfl⟩ := hc
  exact hf ch ▸ h ch hch

theorem CapAt.reply {cap : Cap} (h : CapAt cap idx s) (W : World) (msg : ControlMessage) : CapAt cap idx (s.reply W idx msg) := by
  unfold Session.reply Session.sendIgnoring
  cases hch : s.clients[idx]? with
  | none => exact h
  | some ch =>
    have hset : CapAt cap idx { s with clients := s.clients.set idx (ch.offer (.control msg) (W.controlFrame msg)).1 } := by
      intro c hc
      have hlt := (List.getElem?_eq_some_iff.1 hch).1
      rw [List.getElem?_set_self hlt] at hc
      obtain rfl := Option.some.inj hc
      cases W.controlFrame msg <;> exact h ch hch
    dsimp only
    split <;> exact hset

/-- A reply behind the check of its capability. -/
theorem reply_gated (s : Session) {cap : Cap} (h : CapAt cap idx s) {msg : ControlMessage}
    (hneeds : (Outgoing.control msg).capNeeded = some cap) (hexit : cap ≠ .sessionExitV1) :
    Deals W polls [] s (s.reply W idx msg) :=
  reply_deals s idx fun ch hch => fitting_of_cap hneeds (h ch hch) hexit

theorem handleDetachTarget_deals (target : DetachTarget) : Deals W polls [] s (handleDetachTarget W s idx target).1 := by
  cases target with
  | myself => exact .refl s
  | others => exact guarded_deals fun _ _ _ => reply_free s idx rfl
  | all => exact guarded_deals fun _ _ _ => reply_free s idx rfl

theorem handleKill_deals (signal : Option String) (wait : Bool) : Deals W polls [] s (handleKill W s idx signal wait).1 := by
  refine guarded_deals fun ch _ _ => ?_
  dsimp only
  split
  · exact refuse_deals s idx _ _
  · rename_i sig _
    have hcont : Deals W polls [] s (if signalShouldContFirst sig = true then s.logs (.kill sigCont) else s) := by
      split
      · exact .logs s _ rfl
      · exact .refl s
    have hkill := hcont.trans (.logs _ (.kill sig) rfl)
    split
    · exact hkill
    · exact hkill.trans (reply_free _ idx rfl)

theorem handleSignal_deals (signal : String) : Deals W polls [] s (handleSignal W s idx signal).1 := by
  refine guarded_deals fun ch _ _ => ?_
  split
  · exact refuse_deals s idx _ _
  · exact .logs s _ rfl

theorem handleResize_deals (cols rows : Nat) : Deals W polls [] s (handleResize W s idx cols rows).1 :=
  guarded_deals fun _ _ _ => (Deals.logs s (.ptyResize _ _) rfl).after rfl rfl rfl

/-- Only the client that asks changes its mode, and only from a writer without the lead to one with it. -/
theorem takeLeader_dealt (hch : s.clients[idx]? = some ch) :
    ∀ ch' ∈ (takeLeader s.clients idx ch).1, ∃ c ∈ s.clients, Dealt W c ch' := by
  unfold takeLeader
  split
  · exact fun ch' hch' => ⟨ch', hch', .refl⟩
  · intro ch' hch'
    obtain ⟨c, hc, rfl⟩ := List.mem_map.1 hch'
    have hlead : ∀ c : ClientHandle, Dealt W c { c with leader := c.id = ch.id } := fun c => .single (.role (.inl rfl))
    split at hc
    · rename_i hmode
      rcases List.mem_or_eq_of_mem_set hc with hc | rfl
      · exact ⟨c, hc, hlead c⟩
      · exact ⟨ch, List.mem_of_getElem? hch,
          (Relation.ReflTransGen.single (.role (.inr ⟨of_decide_eq_true hmode, rfl⟩))).trans (hlead _)⟩
    · exact ⟨c, hc, hlead c⟩

theorem handleLeaderRequest_deals (lock : LockState) : Deals W polls [] s (handleLeaderRequest W s lock idx).1 := by
  refine guarded_deals fun _ _ _ => guarded_deals fun ch hch _ => ?_
  have htake := takeLeader_dealt (W := W) hch
  generalize takeLeader s.clients idx ch = r at htake
  obtain ⟨clients, takeover⟩ := r
  cases takeover with
  | alreadyLeader id => exact reply_free s idx rfl
  | taken id modeChanged =>
    refine (Deals.of_clients htake).trans ?_
    dsimp only
    split
    · exact (reply_free _ idx rfl).trans ((broadcastControl_deals _ rfl).ignore _)
    · exact (broadcastControl_deals _ rfl).ignore _

theorem handleLockAcquire_deals (env : FrameEnv) : Deals W polls [] s (handleLockAcquire W env s d idx).1 := by
  unfold handleLockAcquire
  split
  · exact .refl s
  · rename_i ch _
    split
    · exact refuse_deals s idx _ _
    · split
      · exact refuse_deals s idx _ _
      · dsimp only
        split
        · split
          · exact (reply_free s idx rfl).trans (refuse_deals _ idx _ _)
          · rename_i token _
            refine Deals.trans ?_ (executeIgnoringOverflow_deals _ _
              (reduceMsg_free (d.lock.reduceMsg (.acquire ch.id none)).1 (.acquire ch.id (some token))))
            split
            · exact .logs s _ rfl
            · exact .refl s
        · exact executeIgnoringOverflow_deals _ _ (reduceMsg_free d.lock (.acquire ch.id none))

theorem handleLockRelease_deals (token : String) : Deals W polls [] s (handleLockRelease W s d idx token).1 := by
  unfold handleLockRelease
  split
  · exact .refl s
  · rename_i ch _
    refine Deals.trans ?_ (executeIgnoringOverflow_deals _ _ (reduceMsg_free d.lock (.release ch.id token)))
    split
    · exact .logs s _ rfl
    · exact .refl s

theorem handleRecordStartRequest_deals (req : RecordStartRequest) :
    Deals W polls [] s (handleRecordStartRequest W cfg s idx req).1 := by
  refine guarded_deals fun ch hch hok => ?_
  have hcap := capAt_of_check hch hok
  dsimp only
  split
  · exact (Deals.logs s _ rfl).trans (reply_gated (s.logs _) hcap rfl (by decide))
  · exact (Deals.logs s _ rfl).trans (refuse_deals _ idx _ _)

theorem handleRecordStopRequest_deals (recordId : Nat) : Deals W polls [] s (handleRecordStopRequest W s idx recordId).1 := by
  refine guarded_deals fun ch hch hok => ?_
  have hcap := capAt_of_check hch hok
  dsimp only
  split
  · exact (Deals.logs s _ rfl).trans (reply_gated (s.logs _) hcap rfl (by decide))
  · exact (Deals.logs s _ rfl).trans (refuse_deals _ idx _ _)

theorem handleRecordStopAllRequest_deals : Deals W polls [] s (handleRecordStopAllRequest W s idx).1 :=
  guarded_deals fun _ hch hok => (Deals.logs s _ rfl).trans (reply_gated (s.logs _) (capAt_of_check hch hok) rfl (by decide))

theorem handleRecordListRequest_deals : Deals W polls [] s (handleRecordListRequest W s idx).1 :=
  guarded_deals fun _ hch hok => reply_gated s (capAt_of_check hch hok) rfl (by decide)

theorem handleScreenDumpRequest_deals (format : ScreenDumpFormat) (layer : ScreenDumpLayer) (serial : Option Nat) :
    Deals W polls [] s (handleScreenDumpRequest W s idx format layer serial).1 := by
  refine guarded_deals fun ch hch hok => ?_
  split
  · exact reply_gated s (capAt_of_check hch hok) rfl (by decide)
  · exact refuse_deals s idx _ _
  · exact refuse_deals s idx _ _

theorem handleStateSnapshotRequest_deals (components : List SnapshotComponent) (serial : Option Nat) :
    Deals W polls [] s (handleStateSnapshotRequest W s idx components serial).1 := by
  refine guarded_deals fun ch hch hok => ?_
  split
  · exact refuse_deals s idx _ _
  · split
    · exact refuse_deals s idx _ _
    · split
      · exact refuse_deals s idx _ _
      · exact reply_gated s (capAt_of_check hch hok) rfl (by decide)

theorem handleSessionChildResumeRequest_deals : Deals W polls [] s (handleSessionChildResumeRequest W cfg s idx).1 := by
  refine guarded_deals fun ch _ _ => ?_
  dsimp only
  have hlog : Deals W polls [] s (s.pushLifecycle (.resumeRequestReceived ch.id)) := .logs s _ rfl
  generalize s.pushLifecycle (.resumeRequestReceived ch.id) = s₁ at hlog ⊢
  have hoffer : Deals W polls [] s₁ (s₁.offerAt idx (.redraw s₁.screen) (attachRedrawFrame W s₁.screen)).1 :=
    offerAt_deals s₁ idx fun ch _ => fitting_of_none rfl ch
  split
  · exact hlog.trans hoffer
  · exact ((hlog.trans hoffer).trans (.logs _ _ rfl)).trans (.logs _ _ rfl)

theorem handleSetRequest_deals (key value : String) : Deals W polls [] s (handleSetRequest W s idx key value).1 := by
  refine guarded_deals fun _ hch hok => guarded_deals fun ch _ _ => ?_
  split
  · split
    · exact refuse_deals s idx _ _
    · rename_i policy _
      have hpolicy : Deals W polls [] s { s with childSuspendPolicy := policy } := .same rfl rfl rfl
      have hset := hpolicy.trans (.logs _ (.push (.lifecycle (.policyChanged "on-child-suspend" policy.asStr ch.id))) rfl)
      have hcap : CapAt .setV1 idx ({ s with childSuspendPolicy := policy }.pushLifecycle
          (.policyChanged "on-child-suspend" policy.asStr ch.id)) := capAt_of_check hch hok
      exact hset.trans (reply_gated _ hcap rfl (by decide))
  · exact refuse_deals s idx _ _

theorem handleUpgradeRequest_deals (env : FrameEnv) (binaryPath : Option String) :
    Deals W polls [] s (handleUpgradeRequest W env s idx binaryPath).1 := by
  refine guarded_deals fun _ _ _ => guarded_deals fun ch _ _ => ?_
  split
  · exact refuse_deals s idx _ _
  · have hack : Deals W polls [] s { s with clients := (broadcastControlWithCap W s.clients .upgradeAck .upgradeV1).1 } := by
      refine broadcastWith_deals s fun ch _ item payload hsel => ?_
      split at hsel <;> rename_i hcap
      · simp only [Option.map_eq_some_iff, Prod.mk.injEq] at hsel
        obtain ⟨frame, hframe, rfl, rfl⟩ := hsel
        exact ⟨hframe, fitting_of_cap rfl hcap (by decide)⟩
      · cases hsel
    have hpush := hack.trans (.logs _ (.push (.lifecycle (.sessionTerminatedByCondition "upgrade-request-accepted"))) rfl)
    exact hpush.after rfl rfl rfl

/-- The client at the index goes through these steps, and nothing else happens to the clients. -/
theorem Deals.modify {f : ClientHandle → ClientHandle} (h : ∀ ch, s.clients[idx]? = some ch → Dealt W ch (f ch)) :
    Deals W polls [] s { s with clients := s.clients.modify idx f } := by
  cases hch : s.clients[idx]? with
  | none =>
    refine .same ?_ rfl rfl
    rw [List.modify_eq_set_getElem?, hch]
    rfl
  | some ch =>
    rw [List.modify_eq_set_getElem?, hch]
    exact .set hch (h ch hch)

theorem handleTailRequest_deals (env : FrameEnv) (req : TailRequest) (hcap : CapAt .tailV1 idx s) :
    Deals W polls [] s (handleTailRequest W env s idx req) := by
  unfold handleTailRequest
  split
  · exact reply_gated s hcap rfl (by decide)
  · rename_i bytes _
    have hstart : Deals W polls [] s (s.startTail idx req.stripAnsi (tailCut req bytes)) :=
      .modify fun ch _ => .single (.follow (.inl rfl))
    have hcap₁ : CapAt .tailV1 idx (s.startTail idx req.stripAnsi (tailCut req bytes)) := hcap.modify fun _ => rfl
    dsimp only
    generalize s.startTail idx req.stripAnsi (tailCut req bytes) = s₁ at hstart hcap₁ ⊢
    obtain ⟨hsnap, hcap₂⟩ : Deals W polls [] s₁ (if (tailSnapshot W req bytes).isEmpty = true then s₁
          else s₁.reply W idx (.tailData (tailSnapshot W req bytes) env.unixMs)) ∧
        CapAt .tailV1 idx (if (tailSnapshot W req bytes).isEmpty = true then s₁
          else s₁.reply W idx (.tailData (tailSnapshot W req bytes) env.unixMs)) := by
      split
      · exact ⟨.refl _, hcap₁⟩
      · exact ⟨reply_gated s₁ hcap₁ rfl (by decide), hcap₁.reply W _⟩
    refine (hstart.trans hsnap).trans ?_
    generalize (if (tailSnapshot W req bytes).isEmpty = true then s₁
      else s₁.reply W idx (.tailData (tailSnapshot W req bytes) env.unixMs)) = s₂ at hcap₂ ⊢
    split
    · exact .modify fun ch hch => .single (.follow (.inr (hcap₂ ch hch)))
    · exact reply_gated _ hcap₂ rfl (by decide)

/-- What the log tells of a frame of raw input. -/
def rawTyping (env : FrameEnv) (s : Session) (d : DaemonState) (idx : Nat) (body : Bytes) : Log :=
  match s.clients[idx]? with
  | none => []
  | some ch => if s.upgradePending then [] else (inputEntries d.lock ch.id ch.mode body env.tty).filter (·.isTyping)

theorem handleRawData_deals (env : FrameEnv) (hidle : d.clients.Idle) (body : Bytes) :
    Deals W polls (rawTyping env s d idx body) s (handleRawData W env s d idx body).1 := by
  unfold handleRawData rawTyping
  cases s.clients[idx]? with
  | none => exact .refl s
  | some ch =>
    dsimp only
    split
    · exact refuse_deals s idx _ _
    · obtain ⟨_, hdeals⟩ := feedbackRounds_deals W polls maxFeedbackRounds
        (d.handle (.client (.rawDataReceived ch.id ch.mode body))).1 { session := s, tty := some env.tty } (handle_free _ _)
      have hlog := rawInput_log (W := W) { session := s, tty := some env.tty } ch.id hidle ch.mode body rfl
      refine (hdeals.logged ?_).ignore _
      rw [executeWithFeedbackCtx] at hlog
      rw [Session.typing, hlog, List.filter_append]
      rfl

theorem handleControlMessage_deals (env : FrameEnv) (msg : ControlMessage) :
    Deals W polls [] s (handleControlMessage W cfg env s d idx msg).1 := by
  cases msg with
  | resize cols rows => exact handleResize_deals cols rows
  | tailRequest req => exact guarded_deals fun ch hch hok => handleTailRequest_deals env req (capAt_of_check hch hok)
  | detach target => exact handleDetachTarget_deals target
  | kill signal wait => exact handleKill_deals signal wait
  | signal signal => exact handleSignal_deals signal
  | leaderRequest => exact handleLeaderRequest_deals d.lock
  | lockAcquire => exact handleLockAcquire_deals env
  | lockRelease token => exact handleLockRelease_deals token
  | statusQuery => exact reply_free s idx rfl
  | screenDumpRequest format layer serial => exact handleScreenDumpRequest_deals format layer serial
  | stateSnapshotRequest components serial => exact handleStateSnapshotRequest_deals components serial
  | sessionChildResumeRequest => exact handleSessionChildResumeRequest_deals
  | recordStartRequest req => exact handleRecordStartRequest_deals req
  | recordStopRequest recordId => exact handleRecordStopRequest_deals recordId
  | recordStopAllRequest => exact handleRecordStopAllRequest_deals
  | recordListRequest => exact handleRecordListRequest_deals
  | setRequest key value => exact handleSetRequest_deals key value
  | upgradeRequest binaryPath => exact handleUpgradeRequest_deals env binaryPath
  | handshakeRequest | handshakeResponse | error | killAck | detachAck | lockResponse | leaderNotify | modeChange
  | statusResponse | tailData | tailEnd | screenDumpResponse | stateSnapshotResponse | sessionExitNotify
  | sessionChildStoppedNotify | recordStartResponse | recordStopResponse | recordListResponse | setAck | upgradeAck =>
    exact refuse_deals s idx _ _

def frameTyping (env : FrameEnv) (s : Session) (d : DaemonState) (idx : Nat) (frame : Frame) : Log :=
  if frame.ty = typeRawData then rawTyping env s d idx frame.body else []

theorem handleClientFrame_deals (env : FrameEnv) (hidle : d.clients.Idle) (frame : Frame) :
    Deals W polls (frameTyping env s d idx frame) s (handleClientFrame W cfg env s d idx frame).1 := by
  unfold handleClientFrame frameTyping
  split
  · exact handleRawData_deals env hidle frame.body
  · split
    · split
      · exact handleControlMessage_deals env _
      · exact .refl s
    · exact .refl s

end Handlers

/-! ## The child and its output -/

section Child

variable {W : World} {cfg : Config} {polls : List HandshakePoll} {w : Work}

theorem notifyChildStopped_deals (s : Session) (sig : Signal) : Deals W polls [] s (notifyChildStopped W cfg s sig).1 := by
  have hseen : Deals W polls [] s ({ s with childStopped := true }.pushLifecycle
      (.childStoppedObserved (W.signalName sig) sig cfg.childPid)) :=
    (Deals.logs s (.push (.lifecycle (.childStoppedObserved (W.signalName sig) sig cfg.childPid))) rfl).after rfl rfl rfl
  unfold notifyChildStopped
  dsimp only
  split
  · exact hseen.trans (.logs _ _ rfl)
  · rw [List.map_map]
    refine hseen.trans (.of_clients fun ch' hch' => ?_)
    obtain ⟨ch, hch, rfl⟩ := List.mem_map.1 hch'
    refine ⟨ch, hch, ?_⟩
    simp only [Function.comp_apply]
    split <;> rename_i hskip
    · exact .refl
    · rw [not_or, not_not] at hskip
      exact sendControl_dealt (fitting_of_cap rfl hskip.2 (by decide))

theorem recordChildContinued_deals (s : Session) : Deals W polls [] s (recordChildContinued cfg s) :=
  (Deals.logs s (.push (.lifecycle (.childContinuedObserved "SIGCONT" sigCont cfg.childPid))) rfl).after rfl rfl rfl

theorem transition_deals (w : Work) (t : Option ChildTransition) : Deals W polls [] w.sess (w.transition W cfg t).sess := by
  unfold Work.transition
  split
  · exact notifyChildStopped_deals w.sess _
  · exact recordChildContinued_deals w.sess
  · exact .refl _
  · exact .refl _

theorem observeChildTransition_deals (w : Work) (evs : List ChildEvent) (now : Instant) :
    Deals W polls [] w.sess (observeChildTransition W cfg w evs now).sess := by
  unfold observeChildTransition
  have hpoll : Deals W polls [] w.sess (w.pollChild evs).1.sess := .same rfl rfl rfl
  generalize w.pollChild evs = r at hpoll ⊢
  obtain ⟨w₁, childState, transition⟩ := r
  dsimp only
  refine hpoll.trans ?_
  cases childState with
  | exited code => exact transition_deals { w₁ with loc := deferChildExit w₁.loc now code } transition
  | alive => exact transition_deals w₁ transition
  | stopped => exact transition_deals w₁ transition

theorem handleSuspendSignals_deals (lifecycle : ChildLifecycle) (sigs : List (Signal × List ChildEvent)) (s : Session) :
    Deals W polls [] s (handleSuspendSignals lifecycle sigs s).1 := by
  induction sigs generalizing s with
  | nil => exact .refl s
  | cons se rest ih =>
    obtain ⟨sig, evs⟩ := se
    have hgo : ∀ s' : Session, Deals W polls [] s s' → Deals W polls [] s (handleSuspendSignals lifecycle rest s').1 :=
      fun s' h => h.trans (ih s')
    have hlive : Deals W polls [] s { s with child := s.child.events evs } := .same rfl rfl rfl
    have hseen : Deals W polls [] s { s with child := (childIsStoppedViaWaitpid (s.child.events evs)).1 } := .same rfl rfl rfl
    unfold handleSuspendSignals
    dsimp only
    split
    · split
      · exact hgo _ (hlive.trans (.logs _ _ rfl))
      · refine hgo _ ?_
        split
        · exact hseen.trans (.logs _ _ rfl)
        · exact hseen
    · split
      · have hasked := hlive.trans (.logs _ (.push (.lifecycle (.sessionTerminatedByCondition "upgrade-request"))) rfl)
        exact hgo _ (hasked.after rfl rfl rfl)
      · split
        · exact (hlive.trans (.logs _ _ rfl)).trans (.logs _ _ rfl)
        · exact hgo _ hlive

theorem drainSignals_deals (w : Work) (inp : IterInput) : Deals W polls [] w.sess (w.drainSignals inp).1.sess := by
  have hsig : Deals W polls [] w.sess (handleSuspendSignals w.loc.lifecycle inp.signals w.sess).1 :=
    handleSuspendSignals_deals w.loc.lifecycle inp.signals w.sess
  unfold Work.drainSignals
  split
  · dsimp only
    split <;> exact hsig
  · exact .refl _

theorem sigchld_deals (w : Work) (inp : IterInput) (ready : Bool) :
    Deals W polls [] w.sess (w.sigchld W cfg inp ready).1.sess := by
  unfold Work.sigchld
  split
  · have hdrain : Deals W polls [] w.sess (w.drainSignals inp).1.sess := drainSignals_deals w inp
    generalize w.drainSignals inp = r at hdrain ⊢
    obtain ⟨w₁, flow⟩ := r
    cases flow with
    | go => exact hdrain.trans (observeChildTransition_deals w₁ _ _)
    | again => exact hdrain
    | ret o => exact hdrain
  · exact .refl _

theorem interrupted_deals (w : Work) (inp : IterInput) : Deals W polls [] w.sess (w.interrupted W cfg inp).1.sess := by
  unfold Work.interrupted
  have hdrain : Deals W polls [] w.sess (w.drainSignals inp).1.sess := drainSignals_deals w inp
  generalize w.drainSignals inp = r at hdrain ⊢
  obtain ⟨w₁, flow⟩ := r
  cases flow with
  | go => exact (hdrain.trans (observeChildTransition_deals w₁ _ _)).ignore _
  | again => exact hdrain.ignore _
  | ret o => exact hdrain.ignore _

theorem timeoutObserve_deals (w : Work) (inp : IterInput) : Deals W polls [] w.sess (w.timeoutObserve W cfg inp).sess := by
  unfold Work.timeoutObserve
  split
  · have hobs : Deals W polls [] w.sess (observeChildTransition W cfg w inp.childBeforeObserve inp.observeNow).sess :=
      observeChildTransition_deals w _ _
    dsimp only
    split
    · exact (hobs.trans (recordChildContinued_deals _)).after rfl rfl rfl
    · exact hobs
  · exact .refl _

theorem masterEof_deals (w : Work) (inp : IterInput) : Deals W polls [] w.sess (w.masterEof W cfg inp).sess := by
  unfold Work.masterEof
  split
  · exact .refl _
  · have hpoll : Deals W polls [] w.sess (w.pollChild inp.childBeforeRead).1.sess := .same rfl rfl rfl
    generalize w.pollChild inp.childBeforeRead = r at hpoll ⊢
    obtain ⟨w₁, childState, transition⟩ := r
    have htrans : Deals W polls [] w₁.sess (w₁.transition W cfg transition).sess := transition_deals w₁ transition
    cases childState <;> exact hpoll.trans htrans

/-- A chunk goes to a tail follower as what it asked for. -/
theorem broadcastMasterBytes_deals (s : Session) (bytes : Bytes) (tsMs : Int) :
    Deals W polls [] s { s with clients := (broadcastMasterBytes W s.clients bytes tsMs).1 } := by
  refine broadcastWith_deals s fun ch _ item payload hsel => ?_
  cases hsub : ch.subscription with
  | raw =>
    simp only [hsub, Option.map_eq_some_iff, Prod.mk.injEq] at hsel
    obtain ⟨frame, hframe, rfl, rfl⟩ := hsel
    exact ⟨hframe, fitting_of_none rfl ch⟩
  | tailFollow strip =>
    simp only [hsub, Option.map_eq_some_iff, Prod.mk.injEq] at hsel
    obtain ⟨frame, hframe, rfl, rfl⟩ := hsel
    refine ⟨hframe, fun cap hcap => .inr ⟨(Option.some.inj hcap).symm, ?_⟩, rfl⟩
    rw [hsub]
    exact fun h => nomatch h

theorem masterBytes_deals (inp : IterInput) (bytes : Bytes) : Deals W polls [] w.sess (w.masterBytes W inp bytes).1.sess := by
  have hread : Deals W polls [] w.sess { w.sess.takeOutput inp.readNow bytes with
      clients := (broadcastMasterBytes W w.sess.clients bytes inp.unixMs).1 } :=
    ((broadcastMasterBytes_deals w.sess bytes inp.unixMs).trans (.logs _ (.push (.bytesOut bytes)) rfl)).after rfl rfl rfl
  unfold Work.masterBytes
  dsimp only
  split
  · split
    · exact (hread.trans (.logs _ (.push (.lifecycle (.sessionTerminatedByCondition "until"))) rfl)).trans
        (.logs _ (.killPgrp sigTerm) rfl)
    · exact hread
  · exact hread

theorem master_deals (inp : IterInput) (ready : Bool) : Deals W polls [] w.sess (w.master W cfg inp ready).1.sess := by
  unfold Work.master
  split
  · split
    · exact masterEof_deals w inp
    · exact masterEof_deals w inp
    · exact masterEof_deals w inp
    · exact masterBytes_deals inp _
    · exact .refl _
    · exact .refl _
  · exact .refl _

end Child

/-! ## Clients that go -/

section Leaving

variable {W : World} {polls : List HandshakePoll} {s : Session} {d : DaemonState}

theorem elevateNextLeader_dealt (clients : List ClientHandle) :
    ∀ ch' ∈ (elevateNextLeader clients).1, ∃ ch ∈ clients, Dealt W ch ch' := by
  have hgo : ∀ clients : List ClientHandle, ∀ ch' ∈ (elevateNextLeader.go clients).1, ∃ ch ∈ clients, Dealt W ch ch' := by
    intro clients
    induction clients with
    | nil => exact fun _ h => nomatch h
    | cons c cs ih =>
      have htail : ∀ ch' : ClientHandle, (∃ ch ∈ cs, Dealt W ch ch') → ∃ ch ∈ c :: cs, Dealt W ch ch' :=
        fun ch' ⟨ch, hch, hd⟩ => ⟨ch, List.mem_cons_of_mem _ hch, hd⟩
      unfold elevateNextLeader.go
      split
      · intro ch' hch'
        rcases List.mem_cons.1 hch' with rfl | hch'
        · exact ⟨c, List.mem_cons_self, .single (.role (.inl rfl))⟩
        · exact htail ch' ⟨ch', hch', .refl⟩
      · intro ch' hch'
        rcases List.mem_cons.1 hch' with rfl | hch'
        · exact ⟨ch', List.mem_cons_self, .refl⟩
        · exact htail ch' (ih ch' hch')
  unfold elevateNextLeader
  split
  · exact fun ch' hch' => ⟨ch', hch', .refl⟩
  · exact hgo clients

theorem announceNextLeader_deals (s : Session) : Deals W polls [] s (s.announceNextLeader W).1 :=
  (Deals.of_clients (elevateNextLeader_dealt s.clients)).trans (broadcastControl_deals _ rfl)

theorem removeClient_deals (s : Session) (idx : Nat) (ch : ClientHandle) (now : Instant) :
    Deals W polls [] s (s.removeClient idx ch now) :=
  Deals.after ((Deals.of_clients fun c (hc : c ∈ s.clients.eraseIdx idx) => ⟨c, List.mem_of_mem_eraseIdx hc, .refl⟩).trans
    (.logs _ (.push (.lifecycle (.clientDetached ch.id))) rfl)) rfl rfl rfl

theorem detachClients_deals (now : Instant) (idxs : List Nat) (s : Session) (d : DaemonState) :
    Deals W polls [] s (detachClients now idxs s d).1 ∧ EffectsFree (detachClients now idxs s d).2.2.1 := by
  induction idxs generalizing s d with
  | nil => exact ⟨.refl s, fun _ he => nomatch he⟩
  | cons idx idxs ih =>
    unfold detachClients
    split
    · exact ih s d
    · rename_i ch _
      obtain ⟨hm, he⟩ := ih (s.removeClient idx ch now) (d.handle (.client (.detached ch.id))).1
      exact ⟨(removeClient_deals s idx ch now).trans hm, (handle_free _ _).append he⟩

theorem dropSilently_deals (now : Instant) (idxs : List Nat) (s : Session) : Deals W polls [] s (dropSilently now idxs s) := by
  induction idxs generalizing s with
  | nil => exact .refl s
  | cons idx idxs ih =>
    unfold dropSilently
    split
    · exact ih s
    · exact (removeClient_deals s idx _ now).trans (ih _)

theorem detachOthers_deals (newId : ClientId) (now : Instant) (s : Session) (d : DaemonState) (ov : List ClientId) :
    Deals W polls [] s (detachOthers W newId now s d ov).1 := by
  unfold detachOthers
  dsimp only
  obtain ⟨hdetach, hfree⟩ : Deals W polls [] s (detachClients now _ s d).1 ∧ EffectsFree (detachClients now _ s d).2.2.1 :=
    detachClients_deals now ((List.range s.clients.length).reverse.filter fun k => (s.clients[k]?).any (·.id ≠ newId)) s d
  refine Deals.trans ?_ (executeWithFeedback_deals _ _ _ hfree)
  split
  · exact hdetach.trans (announceNextLeader_deals _)
  · exact hdetach

end Leaving

/-! ## Clients that come -/

section Joining

variable {W : World} {cfg : Config} {polls : List HandshakePoll} {s : Session} {d : DaemonState} {ch : ClientHandle}

theorem finalizeAcceptedClient_dealt {req : HandshakeRequest} {intersect : List Cap} {setNonblocking : Bool}
    {clientId : ClientId} {clients : List ClientHandle} {otherPending : Nat} {childStopped : Bool} {now : Instant}
    {unixMs : Nat} {accepted : AcceptedClient} (h : finalizeAcceptedClient W cfg req intersect setNonblocking clientId
      clients otherPending childStopped now unixMs = .ok accepted)
    (hready : .ready req intersect setNonblocking ∈ polls) :
    ∃ ch, Newcomer polls ch ∧ ch.id = clientId ∧ Dealt W ch accepted.handle := by
  unfold finalizeAcceptedClient at h
  dsimp only at h
  split at h
  · cases h
  · rename_i hnb
    rw [Bool.not_eq_true, Bool.not_eq_false'] at hnb
    split at h
    · cases h
    · split at h
      · cases h
      · split at h
        · rename_i handle hsend
          cases h
          obtain rfl : _ = handle := congrArg Prod.fst hsend
          exact ⟨_, ⟨⟨req, hnb ▸ hready, rfl⟩, rfl, rfl, rfl, rfl⟩, rfl, sendControl_dealt (fitting_of_none rfl _)⟩
        · cases h

theorem noticeLocked_dealt (lock : LockState) (missed : List ClientId) (ch : ClientHandle) :
    Dealt W ch (noticeLocked W lock missed ch).1 := by
  unfold noticeLocked
  split
  · exact .refl
  · exact sendControl_dealt (fitting_of_none rfl ch)

theorem sendInitialAttachRedraw_dealt (ch : ClientHandle) (screen : Screen) :
    Dealt W ch (sendInitialAttachRedraw W ch screen) := by
  unfold sendInitialAttachRedraw
  split
  · rename_i payload hframe
    have hredraw : (Outgoing.redraw screen).payload W = some payload := hframe
    exact .single (.enqueueIgnoringLimit hredraw (fitting_of_none rfl ch))
  · exact .refl

theorem attachClient_deals (d : DaemonState) (ov : List ClientId) {accepted : AcceptedClient} (hnew : Newcomer polls ch)
    (hid : ch.id = s.nextClientId) (hd : Dealt W ch accepted.handle) : Deals W polls [] s (attachClient W s d ov accepted).1 := by
  have hnotice := hd.trans (noticeLocked_dealt d.lock s.missed accepted.handle)
  unfold attachClient
  generalize noticeLocked W d.lock s.missed accepted.handle = r at hnotice ⊢
  obtain ⟨handle, missed⟩ := r
  dsimp only at hnotice ⊢
  have hshown : Dealt W ch (if W.syncInProgress s.screen then handle else sendInitialAttachRedraw W handle s.screen) := by
    split
    · exact hnotice
    · exact hnotice.trans (sendInitialAttachRedraw_dealt handle s.screen)
  have hjoin : ∀ s' : Session, s'.clients = s.clients ++
        [if W.syncInProgress s.screen then handle else sendInitialAttachRedraw W handle s.screen] →
      s'.nextClientId = s.nextClientId + 1 → (∃ id mode, s'.log = s.log ++ [.push (.lifecycle (.clientAttached id mode))]) →
      Deals W polls [] s s' := by
    rintro s' hc hn ⟨id, mode, hlog⟩
    refine ⟨fun ch' hch' => ?_, hn ▸ Nat.le_succ _, ?_⟩
    swap
    · rw [Session.typing, hlog, List.filter_append]
      rfl
    rw [hc] at hch'
    rcases List.mem_append.1 hch' with hch' | hch'
    · exact .inl ⟨ch', hch', .refl⟩
    · refine .inr ⟨ch, hnew, Nat.le_of_eq hid.symm, ?_, List.mem_singleton.1 hch' ▸ hshown⟩
      rw [hid, hn]
      exact Nat.lt_succ_self _
  split
  · refine Deals.trans ?_ (broadcastControl_deals _ rfl)
    exact hjoin _ rfl rfl ⟨_, _, rfl⟩
  · exact hjoin _ rfl rfl ⟨_, _, rfl⟩

theorem processPendingHandshakes_deals (cfg : Config) (now : Instant) (unixMs : Nat) (kept rest : List PendingHandshake)
    {found : List HandshakePoll} (hfound : ∀ poll ∈ found, poll ∈ polls) (s : Session) (d : DaemonState) (ov : List ClientId) :
    Deals W polls [] s (processPendingHandshakes W cfg now unixMs s d kept rest found ov).1 := by
  induction rest generalizing kept found s d ov with
  | nil => exact .refl s
  | cons entry rest ih =>
    have htail : ∀ poll ∈ found.tail, poll ∈ polls := fun poll hp => hfound poll (List.mem_of_mem_tail hp)
    unfold processPendingHandshakes
    split
    · rename_i req intersect setNonblocking hready
      split
      · rename_i accepted hfinal
        have hpoll : .ready req intersect setNonblocking ∈ polls := by
          cases found with
          | nil => cases hready
          | cons poll found =>
            rw [List.headD_cons] at hready
            exact hready ▸ hfound poll List.mem_cons_self
        obtain ⟨ch, hnew, hid, hd⟩ := finalizeAcceptedClient_dealt hfinal hpoll
        have hattach := attachClient_deals d ov hnew hid hd
        dsimp only
        split
        · exact hattach.trans (detachOthers_deals accepted.handle.id now (attachClient W s d ov accepted).1 d _)
        · exact hattach.trans (ih kept htail _ _ _)
      · dsimp only
        split
        · rename_i c _
          have hrefused : Deals W polls [] s { s with closing := admitClosing s.closing c } := .same rfl rfl rfl
          exact hrefused.trans (ih kept htail _ d ov)
        · exact ih _ htail _ _ _
    · exact ih _ htail _ _ _
    · exact ih _ htail _ _ _
    · exact ih _ htail _ _ _

theorem redrawClient_deals (screen : Screen) (s : Session) (id : ClientId) :
    Deals W polls [] s { s with clients := redrawClient W screen s.clients id } := by
  unfold redrawClient
  split
  · exact .modify fun ch _ => sendInitialAttachRedraw_dealt ch screen
  · exact .refl s

theorem redrawClients_deals (screen : Screen) (ids : List ClientId) (s : Session) :
    Deals W polls [] s { s with clients := ids.foldl (redrawClient W screen) s.clients } := by
  induction ids generalizing s with
  | nil => exact .refl s
  | cons id ids ih => exact (redrawClient_deals screen s id).trans (ih _)

theorem flushPendingRedraws_deals (s : Session) : Deals W polls [] s (flushPendingRedraws W s) := by
  unfold flushPendingRedraws
  split
  · exact .refl s
  · exact (redrawClients_deals s.screen s.pendingRedraws s).after rfl rfl rfl

theorem handshakes_deals (cfg : Config) (inp : IterInput) (w : Work) :
    Deals W inp.handshakes [] w.sess (w.handshakes W cfg inp).sess := by
  have hdone : Deals W inp.handshakes [] w.sess (processPendingHandshakes W cfg inp.handshakeNow inp.unixMs w.sess
      w.loc.daemonState [] w.loc.pendingHandshakes inp.handshakes w.overflow).1 :=
    processPendingHandshakes_deals cfg inp.handshakeNow inp.unixMs [] _ (fun _ hp => hp) _ _ _
  exact hdone.trans (flushPendingRedraws_deals _)

end Joining

/-! ## A turn -/

section Turn

variable {W : World} {cfg : Config} {polls : List HandshakePoll} {inp : IterInput} {st : State} {w : Work}

/-- What the log tells of the frames of a turn that are raw input. -/
def FrameRun.stepTyping (inp : IterInput) (r : FrameRun) (idx : Nat) (fre : FrameOrError) : Log :=
  match r.shouldReturn, fre with
  | none, .frame frame =>
    frameTyping (inp.frameEnv ((r.sess.clients[idx]?).elim 0 (·.id))) r.sess r.daemonState idx frame
  | _, _ => []

def FrameRun.typing (W : World) (cfg : Config) (inp : IterInput) (r : FrameRun) : List (Nat × FrameOrError) → Log
  | [] => []
  | f :: frames => r.stepTyping inp f.1 f.2 ++ (r.step W cfg inp f.1 f.2).typing W cfg inp frames

theorem FrameRun.step_deals (r : FrameRun) (hidle : r.daemonState.clients.Idle) (idx : Nat) (fre : FrameOrError) :
    Deals W polls (r.stepTyping inp idx fre) r.sess (r.step W cfg inp idx fre).sess := by
  unfold FrameRun.step FrameRun.stepTyping
  cases r.shouldReturn with
  | some o => exact .refl _
  | none =>
    cases fre with
    | error => exact .refl _
    | frame frame =>
      dsimp only [Option.isSome_none, Bool.false_eq_true, if_false]
      have hframe : Deals W polls (frameTyping (inp.frameEnv ((r.sess.clients[idx]?).elim 0 (·.id))) r.sess r.daemonState idx frame)
          r.sess (handleClientFrame W cfg (inp.frameEnv ((r.sess.clients[idx]?).elim 0 (·.id))) r.sess r.daemonState idx frame).1 :=
        handleClientFrame_deals _ hidle frame
      generalize handleClientFrame W cfg _ r.sess r.daemonState idx frame = res at hframe ⊢
      obtain ⟨s, d, outcome⟩ := res
      cases outcome <;> exact hframe

theorem FrameRun.run_deals {r : FrameRun} (h : r.Mid) (frames : List (Nat × FrameOrError)) :
    Deals W polls (r.typing W cfg inp frames) r.sess (r.run W cfg inp frames).sess := by
  induction frames generalizing r with
  | nil => exact .refl _
  | cons f frames ih =>
    exact (FrameRun.step_deals r h.idle f.1 f.2).append (ih (FrameRun.step_chatted (W := W) cfg inp h f.1 f.2).mid)

theorem dropClients_deals (inp : IterInput) (r : FrameRun) : Deals W polls [] r.sess (dropClients W inp r).1 := by
  obtain ⟨hdetach, hfree⟩ : Deals W polls [] r.sess (detachClients inp.dropNow _ r.sess r.daemonState).1 ∧
      EffectsFree (detachClients inp.dropNow _ r.sess r.daemonState).2.2.1 :=
    detachClients_deals inp.dropNow (descending r.sess.clients.length r.indicesToDrop) r.sess r.daemonState
  unfold dropClients
  dsimp only
  refine Deals.trans ?_ (executeIgnoringOverflow_deals _ _ hfree)
  split
  · exact (hdetach.trans (announceNextLeader_deals _)).ignore _
  · exact hdetach

/-- What the log tells of the raw input a turn handles. -/
def Work.typing (W : World) (cfg : Config) (inp : IterInput) (w : Work) (revents : List (ClientId × Bool)) : Log :=
  (w.frameRun W inp revents).1.typing W cfg inp (w.frameRun W inp revents).2

/-- From where its sockets are read to its end. -/
theorem frames_deals (hmid : w.Mid) (revents : List (ClientId × Bool)) :
    Deals W polls (w.typing W cfg inp revents) (w.frameRun W inp revents).1.sess (w.frames W cfg inp revents).1.sess := by
  obtain ⟨hmid₁, -⟩ := Work.frameRun_mid (W := W) inp hmid revents
  unfold Work.frames Work.typing
  generalize w.frameRun W inp revents = r at hmid₁ ⊢
  obtain ⟨r, frames⟩ := r
  have hrun : Deals W polls (r.typing W cfg inp frames) r.sess (r.run W cfg inp frames).sess := FrameRun.run_deals hmid₁ frames
  have hall := hrun.append (dropClients_deals inp _)
  rwa [List.append_nil] at hall

theorem leave_deals {s : Session} (h : Deals W polls [] s w.sess) (o : Option RelayOutcome) :
    Deals W polls [] s (Stage.done (w.leave o)).sess := h.ignore w.overflow

theorem afterHandshakes_deals (w : Work) (listener master sigchld : Bool) (revents : List (ClientId × Bool)) :
    Deals W polls [] w.sess (w.afterHandshakes W cfg inp listener master sigchld revents).sess := by
  unfold Work.afterHandshakes
  have hsig : Deals W polls [] w.sess (w.sigchld W cfg inp sigchld).1.sess := sigchld_deals w inp sigchld
  generalize w.sigchld W cfg inp sigchld = r₁ at hsig ⊢
  obtain ⟨w₁, flow₁⟩ := r₁
  cases flow₁ with
  | ret o => exact leave_deals hsig _
  | again => exact leave_deals hsig _
  | go =>
    have hlisten := listen_sess w₁ inp listener
    dsimp only at hsig ⊢
    generalize w₁.listen inp listener = r₂ at hlisten ⊢
    obtain ⟨w₂, flow₂⟩ := r₂
    dsimp only at hlisten
    rw [← hlisten] at hsig
    cases flow₂ with
    | ret o => exact leave_deals hsig _
    | again => exact leave_deals hsig _
    | go =>
      have hmaster : Deals W polls [] w₂.sess (w₂.master W cfg inp master).1.sess := master_deals inp master
      dsimp only at hmaster ⊢
      generalize w₂.master W cfg inp master = r₃ at hmaster ⊢
      obtain ⟨w₃, flow₃⟩ := r₃
      have hall := hsig.trans hmaster
      cases flow₃ with
      | ret o => exact leave_deals hall _
      | again => exact leave_deals hall _
      | go => exact hall

theorem afterPoll_deals (cfg : Config) (inp : IterInput) (w : Work) :
    Deals W inp.handshakes [] w.sess (w.afterPoll W cfg inp).sess := by
  unfold Work.afterPoll
  cases inp.poll with
  | error => exact leave_deals (.refl _) _
  | interrupted => exact interrupted_deals w inp
  | timeout =>
    have hobs : Deals W inp.handshakes [] w.sess (w.timeoutObserve W cfg inp).sess := timeoutObserve_deals w inp
    have hshake := hobs.trans (handshakes_deals cfg inp (w.timeoutObserve W cfg inp))
    dsimp only
    split
    · exact hshake.trans (afterHandshakes_deals _ _ _ _ _)
    · exact hshake
  | ready listener master readable sigchld =>
    exact (handshakes_deals cfg inp w).trans (afterHandshakes_deals _ _ _ _ _)

/-- The session after the pass of writes that opens a turn. -/
def State.flushed (inp : IterInput) (st : State) : Session :=
  { st.sess with clients := flushClients st.sess.clients inp.flush }

theorem beforePoll_deals (cfg : Config) (inp : IterInput) (st : State) :
    Deals W polls [] (st.flushed inp) (sessAtPoll (beforePoll cfg inp st)) := by
  unfold beforePoll
  dsimp only
  split
  · unfold awaitUpgradeFlush
    dsimp only
    split <;> exact .same rfl rfl rfl
  · split
    · exact .same rfl rfl rfl
    · split
      · rename_i reason _
        have hended : Deals W polls [] (st.flushed inp)
            (((st.flushed inp).pushLifecycle (.sessionTerminatedByCondition reason)).logs (.killPgrp sigTerm)) :=
          (Deals.logs _ (.push (.lifecycle (.sessionTerminatedByCondition reason))) rfl).trans (.logs _ (.killPgrp sigTerm) rfl)
        exact hended.after rfl rfl rfl
      · exact .same rfl rfl rfl

theorem beforeFrames_deals (cfg : Config) (inp : IterInput) (st : State) :
    Deals W inp.handshakes [] (st.flushed inp) (beforeFrames W cfg inp st).sess := by
  have hbefore : Deals W inp.handshakes [] (st.flushed inp) (sessAtPoll (beforePoll cfg inp st)) := beforePoll_deals cfg inp st
  unfold beforeFrames
  cases hpoll : beforePoll cfg inp st with
  | error turn =>
    rw [hpoll] at hbefore
    exact hbefore
  | ok w =>
    rw [hpoll] at hbefore
    exact hbefore.trans (afterPoll_deals cfg inp w)

/-- After its pass of writes a turn deals with the clients; where it comes to their frames it reads their sockets, and
deals with them further. -/
theorem iterate_deals (cfg : Config) (inp : IterInput) {st : State} (hok : st.Ok) :
    match beforeFrames W cfg inp st with
    | .frames w revents => Deals W inp.handshakes [] (st.flushed inp) w.sess ∧
        Deals W inp.handshakes (w.typing W cfg inp revents) (w.frameRun W inp revents).1.sess (iterate W cfg inp st).1.sess
    | .done _ | .tick _ => Deals W inp.handshakes [] (st.flushed inp) (iterate W cfg inp st).1.sess := by
  have hbefore := beforeFrames_deals (W := W) cfg inp st
  have hspec := beforeFrames_spec (W := W) cfg inp hok
  unfold iterate
  generalize beforeFrames W cfg inp st = stage at hbefore hspec ⊢
  cases stage with
  | done turn => exact hbefore
  | tick w => exact hbefore.trans (dropSilently_deals inp.dropNow _ w.sess)
  | frames w revents => exact ⟨hbefore, frames_deals hspec.mid revents⟩

theorem enterServeLoop_deals (cfg : Config) (e : EntryInput) (s : Session) : Deals W polls [] s (enterServeLoop W cfg e s).sess :=
  observeChildTransition_deals { sess := s, loc := Locals.initial cfg e, overflow := [] } e.childEvents e.now

theorem resumeServe_deals (failure : UpgradeFailure) (e : EntryInput) (s : Session) :
    Deals W polls [] s (resumeServe W cfg failure e s).sess := by
  have hfailed : Deals W polls [] s
      ({ s with upgradeTarget := none }.pushLifecycle (.sessionTerminatedByCondition failure.reason)).clearUpgradePending :=
    (Deals.logs s (.push (.lifecycle (.sessionTerminatedByCondition failure.reason))) rfl).after rfl rfl rfl
  exact hfailed.trans (enterServeLoop_deals cfg e _)

end Turn

/-! ## A move of the loop -/

/-- One thing that happens to an attached client in a turn: it is dealt with, or its socket is read. -/
inductive Happening (W : World) (ch : ClientHandle) : ClientHandle → Prop
  | dealing {ch' : ClientHandle} (h : Dealing W ch ch') : Happening W ch ch'
  | receive (decoder : FrameDecoder) : Happening W ch { ch with decoder }

abbrev Happened (W : World) : ClientHandle → ClientHandle → Prop := Relation.ReflTransGen (Happening W)

/-- Every client was there, or is one of the handshakes, and then this happened. -/
structure Happens (W : World) (polls : List HandshakePoll) (s s' : Session) : Prop where
  clients : ∀ ch' ∈ s'.clients, (∃ ch ∈ s.clients, Happened W ch ch') ∨
    ∃ ch, Newcomer polls ch ∧ s.nextClientId ≤ ch.id ∧ ch.id < s'.nextClientId ∧ Happened W ch ch'
  nextId : s.nextClientId ≤ s'.nextClientId

section Happens

variable {W : World} {cfg : Config} {polls : List HandshakePoll} {s s' s'' : Session} {st st' : State} {ch ch' : ClientHandle}

theorem Dealt.happened (h : Dealt W ch ch') : Happened W ch ch' :=
  Relation.ReflTransGen.mono (fun _ _ hd => Happening.dealing hd) _ _ h

theorem Happened.same (h : Happened W ch ch') : ch'.negotiatedCaps = ch.negotiatedCaps ∧ ch'.id = ch.id := by
  induction h with
  | refl => exact ⟨rfl, rfl⟩
  | tail _ hstep ih =>
    cases hstep with
    | dealing hdeal => cases hdeal <;> exact ih
    | receive _ => exact ih

theorem Deals.happens {typed : Log} (h : Deals W polls typed s s') : Happens W polls s s' where
  clients ch' hch' := (h.clients ch' hch').imp (fun ⟨ch, hch, hd⟩ => ⟨ch, hch, hd.happened⟩)
    fun ⟨ch, hnew, hle, hlt, hd⟩ => ⟨ch, hnew, hle, hlt, hd.happened⟩
  nextId := h.nextId

theorem Happens.trans (h : Happens W polls s s') (h' : Happens W polls s' s'') : Happens W polls s s'' where
  clients ch'' hch'' := by
    rcases h'.clients ch'' hch'' with ⟨ch', hch', hd'⟩ | ⟨ch', hnew, hle, hlt, hd'⟩
    · rcases h.clients ch' hch' with ⟨ch, hch, hd⟩ | ⟨ch, hnew, hle, hlt, hd⟩
      · exact .inl ⟨ch, hch, hd.trans hd'⟩
      · exact .inr ⟨ch, hnew, hle, lt_of_lt_of_le hlt h'.nextId, hd.trans hd'⟩
    · exact .inr ⟨ch', hnew, le_trans h.nextId hle, hlt, hd'⟩
  nextId := le_trans h.nextId h'.nextId

theorem frameRun_happens (inp : IterInput) (w : Work) (revents : List (ClientId × Bool)) :
    Happens W polls w.sess (w.frameRun W inp revents).1.sess where
  clients ch' hch' := by
    obtain ⟨ch, hch, decoder, rfl⟩ := forall₂_mem_right (collectFrames_same (W := W) inp.recv 0 w.sess.clients revents) hch'
    exact .inl ⟨ch, hch, .single (.receive decoder)⟩
  nextId := Nat.le_refl _

theorem iterate_happens (cfg : Config) (inp : IterInput) (hok : st.Ok) :
    Happens W inp.handshakes (st.flushed inp) (iterate W cfg inp st).1.sess := by
  have hdeals := iterate_deals (W := W) cfg inp hok
  cases hstage : beforeFrames W cfg inp st with
  | done turn =>
    rw [hstage] at hdeals
    exact hdeals.happens
  | tick w =>
    rw [hstage] at hdeals
    exact hdeals.happens
  | frames w revents =>
    rw [hstage] at hdeals
    exact (hdeals.1.happens.trans (frameRun_happens inp w revents)).trans hdeals.2.happens

/-- What a move of the loop does to the clients. -/
theorem loop_happens {mv : Move} (hok : st.Ok) (h : (loop W cfg).step st mv = some st') :
    Happens W mv.input.handshakes (st.flushed mv.input) st'.sess := by
  cases mv with
  | turn inp =>
    have hit := iterate_happens (W := W) cfg inp hok
    rwa [loop_turn h] at hit
  | retry inp failure e =>
    obtain ⟨st₁, hit, rfl⟩ := loop_retry h
    have hturn := iterate_happens (W := W) cfg inp hok
    rw [hit] at hturn
    exact hturn.trans (resumeServe_deals failure e st₁.sess).happens

end Happens

end Hyoui.Daemon
