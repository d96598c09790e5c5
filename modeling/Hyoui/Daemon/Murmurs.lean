import Hyoui.Daemon.Loop
import Hyoui.Lib.Feed
/-!
# Frames that show no output

Most of what the daemon does leaves the screen and the scrollback alone, and shows the clients nothing
of them but perhaps the screen as it is: `Murmurs`. The lemmas go up from one enqueue to the reducer's
effects and to the handlers of the clients' frames.
-/

namespace Hyoui.Daemon

open Hyoui.Protocol Hyoui.Lib

/-! ## What a client is shown -/

/-- What a screen operation puts out. -/
def ScreenOp.output : ScreenOp → Option Bytes
  | .process bytes => some bytes
  | .resize .. => none

/-- The chunks that were read from the PTY. -/
def chunks (screen : Screen) : List Bytes := screen.filterMap (·.output)

/-- The part of a frame in the client's terminal stream: a redraw, or output. -/
def Outgoing.seen : Outgoing → Option (Seen ScreenOp Bytes)
  | .redraw screen => some (.state screen)
  | .output bytes => some (.entry bytes)
  | .control _ | .rawAck _ => none

def Outgoing.tailBytes : Outgoing → Option Bytes
  | .control (.tailData bytes _) => some bytes
  | _ => none

/-- A frame that shows nothing of the output. -/
def Outgoing.aside (item : Outgoing) : Bool := item.seen.isNone && item.tailBytes.isNone

theorem aside_seen {item : Outgoing} (h : item.aside = true) : item.seen = none := by
  simpa using (Bool.and_eq_true_iff.1 h).1

theorem aside_tailBytes {item : Outgoing} (h : item.aside = true) : item.tailBytes = none := by
  simpa using (Bool.and_eq_true_iff.1 h).2

/-- Frames that show nothing but perhaps the screen as it is. -/
def Murmur (screen : Screen) (items : List Outgoing) : Prop := ∀ item ∈ items, item.aside = true ∨ item = .redraw screen

theorem Murmur.nil (screen : Screen) : Murmur screen [] := fun _ h => nomatch h

theorem Murmur.single {screen : Screen} {item : Outgoing} (h : item.aside = true) : Murmur screen [item] :=
  fun _ hi => .inl (List.mem_singleton.1 hi ▸ h)

/-- `ch'` is `ch` after more offers; unless it overflowed, `C` holds of what it was offered. -/
structure Got (C : List Outgoing → Prop) (ch ch' : ClientHandle) : Prop where
  id : ch'.id = ch.id
  subscription : ch'.subscription = ch.subscription
  tail : ch'.tail = ch.tail
  offers : ∃ more, ch'.offers = ch.offers ++ more ∧ (ch'.overflowed = false → C (more.map (·.item)))

section Got

variable {C C' C'' : List Outgoing → Prop} {ch ch' ch'' : ClientHandle} {screen : Screen}

theorem Got.same (hid : ch'.id = ch.id) (hsub : ch'.subscription = ch.subscription) (htail : ch'.tail = ch.tail)
    (hoffers : ch'.offers = ch.offers) (hC : C []) : Got C ch ch' :=
  ⟨hid, hsub, htail, [], by rw [hoffers, List.append_nil], fun _ => hC⟩

theorem Got.refl (ch : ClientHandle) : Got (Murmur screen) ch ch := .same rfl rfl rfl rfl (.nil screen)

/-- A client that overflowed has overflowed ever since. -/
theorem Got.before (h : Got C ch ch') (ho : ch'.overflowed = false) : ch.overflowed = false := by
  obtain ⟨more, hm, -⟩ := h.offers
  rw [ClientHandle.overflowed, hm, List.any_append, Bool.or_eq_false_iff] at ho
  exact ho.1

theorem Got.trans (h : Got C ch ch') (h' : Got C' ch' ch'') (hC : ∀ l l', C l → C' l' → C'' (l ++ l')) : Got C'' ch ch'' := by
  obtain ⟨more, hm, hc⟩ := h.offers
  obtain ⟨more', hm', hc'⟩ := h'.offers
  refine ⟨h'.id.trans h.id, h'.subscription.trans h.subscription, h'.tail.trans h.tail, more ++ more', ?_, fun ho => ?_⟩
  · rw [hm', hm, List.append_assoc]
  · rw [List.map_append]
    exact hC _ _ (hc (h'.before ho)) (hc' ho)

theorem Got.mono (h : Got C ch ch') (hC : ∀ l, C l → C' l) : Got C' ch ch' :=
  ⟨h.id, h.subscription, h.tail, h.offers.imp fun _ ⟨hm, hc⟩ => ⟨hm, fun ho => hC _ (hc ho)⟩⟩

theorem Murmur.append {l l' : List Outgoing} (h : Murmur screen l) (h' : Murmur screen l') : Murmur screen (l ++ l') := by
  intro item hi
  rcases List.mem_append.1 hi with hi | hi
  · exact h item hi
  · exact h' item hi

theorem Got.murmur (h : Got (Murmur screen) ch ch') (h' : Got (Murmur screen) ch' ch'') : Got (Murmur screen) ch ch'' :=
  h.trans h' fun _ _ => .append

end Got

/-! ### One enqueue -/

section Enqueue

variable {W : World} {ch : ClientHandle} {screen : Screen}

theorem offer_got (ch : ClientHandle) {item : Outgoing} (payload : Option Bytes) (h : Murmur screen [item]) :
    Got (Murmur screen) ch (ch.offer item payload).1 := by
  cases payload with
  | none => exact .refl ch
  | some payload => exact ⟨rfl, rfl, rfl, [⟨item, _⟩], rfl, fun _ => h⟩

theorem sendControl_got (ch : ClientHandle) {msg : ControlMessage} (h : (Outgoing.control msg).aside = true) :
    Got (Murmur screen) ch (sendControl W ch msg).1 := offer_got ch _ (.single h)

theorem handleEnqueueOutcome_same (r : ClientHandle × EnqueueOutcome) :
    (handleEnqueueOutcome W r).1.subscription = r.1.subscription ∧ (handleEnqueueOutcome W r).1.tail = r.1.tail := by
  unfold handleEnqueueOutcome
  split
  · exact ⟨rfl, rfl⟩
  · unfold sendBackpressureError
    split
    · exact ⟨rfl, rfl⟩
    · dsimp only
      split <;> exact ⟨rfl, rfl⟩
  · exact ⟨rfl, rfl⟩

/-- One enqueue of a broadcast shows the client the item, or the client overflows. -/
theorem handleEnqueueOutcome_got (ch : ClientHandle) (item : Outgoing) (payload : Bytes) :
    Got (· = [item]) ch (handleEnqueueOutcome W (ch.enqueueForClient item payload)).1 := by
  have hspoke : Spoke _ [ch.id] ch (handleEnqueueOutcome W (ch.enqueueForClient item payload)).1 :=
    handleEnqueueOutcome_spoke ch item payload fun id hid => List.mem_singleton.2 (handleEnqueueOutcome_reported hid).1
  obtain ⟨hsub, htail⟩ := handleEnqueueOutcome_same (W := W) (ch.enqueueForClient item payload)
  obtain ⟨more, hm, -⟩ := hspoke.offers
  refine ⟨hspoke.id, hsub, htail, more, hm, fun ho => ?_⟩
  obtain ⟨o, hoffers⟩ := handleEnqueueOutcome_heard (W := W) ch item payload ho
  rw [List.append_cancel_left (hm.symm.trans hoffers)]
  rfl

end Enqueue

/-! ## A session -/

/-- The screen and the scrollback stay as they are, and the clients that stay are shown nothing new. -/
structure Murmurs (s s' : Session) : Prop where
  clients : ∀ ch' ∈ s'.clients, ∃ ch ∈ s.clients, Got (Murmur s.screen) ch ch'
  screen : s'.screen = s.screen
  scrollback : s'.scrollback = s.scrollback
  pendingRedraws : s'.pendingRedraws = s.pendingRedraws

section Murmurs

variable {W : World} {s s' s'' : Session} {idx : Nat}

theorem Murmurs.trans (h : Murmurs s s') (h' : Murmurs s' s'') : Murmurs s s'' where
  clients ch'' hch'' := by
    obtain ⟨ch', hch', hg'⟩ := h'.clients ch'' hch''
    obtain ⟨ch, hch, hg⟩ := h.clients ch' hch'
    exact ⟨ch, hch, hg.murmur (h.screen ▸ hg')⟩
  screen := h'.screen.trans h.screen
  scrollback := h'.scrollback.trans h.scrollback
  pendingRedraws := h'.pendingRedraws.trans h.pendingRedraws

/-- The rest of the session does not matter. -/
theorem Murmurs.after (h : Murmurs s s') (hc : s''.clients = s'.clients) (hs : s''.screen = s'.screen)
    (hb : s''.scrollback = s'.scrollback) (hp : s''.pendingRedraws = s'.pendingRedraws) : Murmurs s s'' :=
  ⟨hc ▸ h.clients, hs.trans h.screen, hb.trans h.scrollback, hp.trans h.pendingRedraws⟩

/-- The clients are replaced by what became of them. -/
theorem Murmurs.of_clients {clients : List ClientHandle} (h : ∀ ch' ∈ clients, ∃ ch ∈ s.clients, Got (Murmur s.screen) ch ch') :
    Murmurs s { s with clients } := ⟨h, rfl, rfl, rfl⟩

theorem Murmurs.refl (s : Session) : Murmurs s s := .of_clients fun ch hch => ⟨ch, hch, .refl ch⟩

theorem Murmurs.same (hc : s'.clients = s.clients) (hs : s'.screen = s.screen) (hb : s'.scrollback = s.scrollback)
    (hp : s'.pendingRedraws = s.pendingRedraws) : Murmurs s s' := (Murmurs.refl s).after hc hs hb hp

theorem Murmurs.map {f : ClientHandle → ClientHandle} (h : ∀ ch ∈ s.clients, Got (Murmur s.screen) ch (f ch)) :
    Murmurs s { s with clients := s.clients.map f } := by
  refine .of_clients fun ch' hch' => ?_
  obtain ⟨ch, hch, rfl⟩ := List.mem_map.1 hch'
  exact ⟨ch, hch, h ch hch⟩

theorem Murmurs.set {ch ch' : ClientHandle} (hch : s.clients[idx]? = some ch) (h : Got (Murmur s.screen) ch ch') :
    Murmurs s { s with clients := s.clients.set idx ch' } := by
  refine .of_clients fun c hc => ?_
  rcases List.mem_or_eq_of_mem_set hc with hc | rfl
  · exact ⟨c, hc, .refl c⟩
  · exact ⟨ch, List.mem_of_getElem? hch, h⟩

theorem Murmurs.logs (s : Session) (e : LogEntry) : Murmurs s (s.logs e) := .same rfl rfl rfl rfl

theorem Murmurs.ignore (h : Murmurs s s') (ids : List ClientId) : Murmurs s (s'.ignore ids) := h.after rfl rfl rfl rfl

theorem offerAt_murmurs (s : Session) (idx : Nat) {item : Outgoing} (payload : Option Bytes) (h : Murmur s.screen [item]) :
    Murmurs s (s.offerAt idx item payload).1 := by
  cases hch : s.clients[idx]? with
  | none =>
    rw [Session.offerAt, hch]
    exact .refl s
  | some ch =>
    rw [offerAt_eq hch]
    exact .set hch (offer_got ch payload h)

theorem sendIgnoring_murmurs (s : Session) (idx : Nat) {item : Outgoing} (payload : Option Bytes)
    (h : item.aside = true) : Murmurs s (s.sendIgnoring idx (·.offer item payload)).1 := by
  unfold Session.sendIgnoring
  split
  · exact .refl s
  · rename_i ch hch
    have hoffer := offerAt_murmurs s idx payload (.single h)
    rw [offerAt_eq hch] at hoffer
    dsimp only
    split
    · exact hoffer.ignore _
    · exact hoffer

theorem reply_murmurs (W : World) (s : Session) (idx : Nat) {msg : ControlMessage}
    (h : (Outgoing.control msg).aside = true) : Murmurs s (s.reply W idx msg) := sendIgnoring_murmurs s idx _ h

theorem refuse_murmurs (s : Session) (idx : Nat) (code : ErrorCode) (message : String) :
    Murmurs s (refuse W s idx code message) := reply_murmurs W s idx rfl

theorem mem_broadcastWith {clients : List ClientHandle} {select : ClientHandle → Option (Outgoing × Bytes)}
    {ch' : ClientHandle} (h : ch' ∈ (broadcastWith W clients select).1) :
    ∃ ch ∈ clients, (select ch = none ∧ ch' = ch) ∨ ∃ item payload, select ch = some (item, payload) ∧
      ch' = (handleEnqueueOutcome W (ch.enqueueForClient item payload)).1 := by
  simp only [broadcastWith, List.map_map, List.mem_map, Function.comp_apply] at h
  obtain ⟨ch, hch, rfl⟩ := h
  refine ⟨ch, hch, ?_⟩
  cases hsel : select ch with
  | none => exact .inl ⟨rfl, rfl⟩
  | some sel => exact .inr ⟨sel.1, sel.2, rfl, rfl⟩

theorem broadcastWith_murmurs (s : Session) {select : ClientHandle → Option (Outgoing × Bytes)}
    (h : ∀ ch item payload, select ch = some (item, payload) → item.aside = true) :
    Murmurs s { s with clients := (broadcastWith W s.clients select).1 } := by
  refine .of_clients fun ch' hch' => ?_
  obtain ⟨ch, hch, ⟨-, rfl⟩ | ⟨item, payload, hsel, rfl⟩⟩ := mem_broadcastWith hch'
  · exact ⟨ch', hch, .refl ch'⟩
  · exact ⟨ch, hch, (handleEnqueueOutcome_got ch item payload).mono fun _ hl => hl ▸ .single (h ch item payload hsel)⟩

theorem broadcastControl_murmurs (s : Session) {msg : ControlMessage} (h : (Outgoing.control msg).aside = true) :
    Murmurs s (s.broadcastControl W msg).1 := by
  refine broadcastWith_murmurs s fun ch item payload hsel => ?_
  simp only [Option.map_eq_some_iff, Prod.mk.injEq] at hsel
  obtain ⟨_, -, rfl, -⟩ := hsel
  exact h

end Murmurs

/-! ## The reducer's effects -/

def EffectKind.aside : EffectKind → Bool
  | .clientReply _ message | .clientBroadcast message => (Outgoing.control message).aside
  | .ttyWrite _ | .clientRawAck .. | .clientDisconnect _ | .record _ => true

/-- None of the effects shows anything of the output. -/
def EffectsAside (effects : List Effect) : Prop := ∀ e ∈ effects, e.kind.aside = true

section Effects

variable {W : World} {d : DaemonState} {effects : List Effect}

theorem EffectsAside.append {es es' : List Effect} (h : EffectsAside es) (h' : EffectsAside es') : EffectsAside (es ++ es') := by
  intro e he
  rcases List.mem_append.1 he with he | he
  · exact h e he
  · exact h' e he

theorem reduceMsg_aside (lock : LockState) (msg : LockMsg) : EffectsAside (lock.reduceMsg msg).2.1 := by
  have hevent : ∀ (lock : LockState) ev, EffectsAside (lock.eventEffects ev).2 := by
    intro lock ev e he
    cases ev with
    | acquired id token newly =>
      cases newly <;> simp only [LockState.eventEffects, LockState.emit] at he
      · simp_all [EffectKind.aside, Outgoing.aside, Outgoing.seen, Outgoing.tailBytes]
      · rcases List.mem_cons.1 he with rfl | he
        · rfl
        · rw [List.mem_singleton.1 he]
          rfl
    | tokenRequired id => exact nomatch he
    | released id reason =>
      rw [List.mem_singleton.1 he]
      rfl
    | denied id reason =>
      rw [List.mem_singleton.1 he]
      cases reason <;> rfl
  have hevents : ∀ (evs : List LockEvent) (lock : LockState), EffectsAside (lock.eventsEffects evs).2 := by
    intro evs
    induction evs with
    | nil => exact fun _ _ he => nomatch he
    | cons ev evs ih => exact fun lock => (hevent lock ev).append (ih _)
  exact hevents _ _

theorem emitAll_aside (s : ClientRegistry) {ks : List EffectKind} (h : ∀ k ∈ ks, k.aside = true) :
    EffectsAside (s.emitAll ks).2 := fun _ he => h _ (emitAll_mem he)

theorem reduceRawData_aside (s : ClientRegistry) (lock : LockState) (id : ClientId) (mode : Mode) (bytes : Bytes) :
    EffectsAside (s.reduceRawData lock id mode bytes).2.effects := by
  have hreject : ∀ lockHolder reason ack, EffectsAside (s.rejectInput id mode lockHolder reason bytes ack).2.effects := by
    intro lockHolder reason ack e he
    simp only [ClientRegistry.rejectInput, ClientRegistry.emit, List.mem_cons, List.not_mem_nil, or_false] at he
    rcases he with rfl | rfl <;> rfl
  unfold ClientRegistry.reduceRawData
  split
  · exact hreject _ _ _
  · split
    · exact hreject _ _ _
    · intro e he
      rw [List.mem_singleton.1 he]
      rfl

theorem writeRecords_aside (pw : PendingWrite) (written requested : Nat) (error : Option TtyWriteErrorKind) :
    ∀ k ∈ ClientRegistry.writeRecords pw written requested error, k.aside = true := by
  intro k hk
  obtain ⟨entry, rfl⟩ := writeRecords_isRecord pw written requested error hk
  rfl

theorem reduceEffectResult_aside (s : ClientRegistry) (seq : Nat) (outcome : EffectOutcome) :
    EffectsAside (s.reduceEffectResult seq outcome).2.effects := by
  have hone : ∀ {e : Effect}, e.kind.aside = true → EffectsAside [e] := fun he e' he' => List.mem_singleton.1 he' ▸ he
  unfold ClientRegistry.reduceEffectResult
  split
  · rename_i pw _
    unfold ClientRegistry.finishWrite
    split
    · rename_i written requested error
      have hrecords : ∀ s : ClientRegistry, EffectsAside (s.emitAll (ClientRegistry.writeRecords pw written requested error)).2 :=
        fun s => emitAll_aside s (writeRecords_aside pw written requested error)
      dsimp only
      split
      · exact (hrecords _).append (hone rfl)
      · refine (hrecords _).append (emitAll_aside _ fun k hk => ?_)
        simp only [List.mem_append, List.mem_singleton] at hk
        rcases hk with (rfl | hk) | rfl
        · rfl
        · split at hk
          · rw [List.mem_singleton.1 hk]
            rfl
          · exact nomatch hk
        · rfl
    · exact hone rfl
    · exact hone rfl
  · split
    · dsimp only
      split
      · exact fun _ he => nomatch he
      · exact hone rfl
    · exact fun _ he => nomatch he

theorem dispatch_aside (d : DaemonState) (msg : DaemonMsg) : EffectsAside (d.dispatch msg).2.effects := by
  rcases msg with (⟨id, mode, bytes⟩ | id) | msg | ⟨⟨domain, seq⟩, outcome⟩
  · exact reduceRawData_aside _ _ _ _ _
  · exact fun _ he => nomatch he
  · exact reduceMsg_aside _ _
  · cases domain with
    | client => exact reduceEffectResult_aside _ _ _
    | lock => exact fun _ he => nomatch he

theorem drive_aside (fuel : Nat) (d : DaemonState) (queue : List DaemonMsg) : EffectsAside (d.drive fuel queue).2 := by
  induction fuel generalizing d queue with
  | zero => exact fun _ he => nomatch he
  | succ fuel ih =>
    cases queue with
    | nil => exact fun _ he => nomatch he
    | cons msg queue =>
      unfold DaemonState.drive
      dsimp only
      split
      · exact dispatch_aside d msg
      · exact (dispatch_aside d msg).append (ih _ _)

theorem handle_aside (d : DaemonState) (msg : DaemonMsg) : EffectsAside (d.handle msg).2 := drive_aside _ _ _

theorem handleAll_aside (d : DaemonState) (msgs : List DaemonMsg) : EffectsAside (d.handleAll msgs).2 := by
  induction msgs generalizing d with
  | nil => exact fun _ he => nomatch he
  | cons msg msgs ih => exact (handle_aside d msg).append (ih _)

theorem sendTo_murmurs (ctx : ExecuteCtx) (id : ClientId) {item : Outgoing} (payload : Option Bytes)
    (h : item.aside = true) : Murmurs ctx.session (ctx.sendTo id (·.offer item payload)).1.session := by
  unfold ExecuteCtx.sendTo
  split
  · exact .refl _
  · exact sendIgnoring_murmurs _ _ _ h

theorem executeOne_murmurs (ctx : ExecuteCtx) {kind : EffectKind} (h : kind.aside = true) :
    Murmurs ctx.session (ctx.executeOne W kind).1.session := by
  cases kind with
  | clientReply id message => exact sendTo_murmurs ctx id _ h
  | clientBroadcast message => exact broadcastControl_murmurs ctx.session h
  | ttyWrite bytes =>
    unfold ExecuteCtx.executeOne
    dsimp only
    split
    · exact .refl _
    · exact .logs _ _
  | clientRawAck id ack => exact sendTo_murmurs ctx id _ rfl
  | clientDisconnect id => exact .refl _
  | record entry =>
    unfold ExecuteCtx.executeOne
    dsimp only
    split
    · exact .logs _ _
    · exact .refl _

theorem execute_murmurs (ctx : ExecuteCtx) (h : EffectsAside effects) :
    Murmurs ctx.session (ctx.execute W effects).1.session := by
  induction effects generalizing ctx with
  | nil => exact .refl _
  | cons e es ih =>
    exact (executeOne_murmurs ctx (h e List.mem_cons_self)).trans (ih _ fun e' he' => h e' (List.mem_cons_of_mem _ he'))

theorem feedbackRounds_murmurs (rounds : Nat) (d : DaemonState) (ctx : ExecuteCtx) (h : EffectsAside effects) :
    Murmurs ctx.session (feedbackRounds W rounds d effects ctx).2.session := by
  induction rounds generalizing d effects ctx with
  | zero => exact .refl _
  | succ rounds ih =>
    cases effects with
    | nil => exact .refl _
    | cons e es => exact (execute_murmurs ctx h).trans (ih _ _ (handleAll_aside _ _))

theorem executeWithFeedback_murmurs (d : DaemonState) (s : Session) (ids : List ClientId) (h : EffectsAside effects) :
    Murmurs s (executeWithFeedback W d effects s ids).2.1 :=
  feedbackRounds_murmurs (W := W) maxFeedbackRounds d { session := s, overflowIds := ids } h

theorem executeIgnoringOverflow_murmurs (d : DaemonState) (s : Session) (h : EffectsAside effects) :
    Murmurs s (executeIgnoringOverflow W d effects s).1 := (executeWithFeedback_murmurs d s [] h).ignore _

end Effects

/-! ## The handlers -/

section Handlers

variable {W : World} {cfg : Config} {s : Session} {d : DaemonState} {idx : Nat}

/-- What holds of the session with its refusal, and of what comes behind the check, holds of the handling. -/
theorem guarded_keeps {R : Session → Prop} {ok : ClientHandle → Bool} {code : ErrorCode} {message : String}
    {k : ClientHandle → Handled} (hs : R s) (hrefuse : R (refuse W s idx code message))
    (h : ∀ ch, s.clients[idx]? = some ch → R (k ch).1) : R (guarded W s idx ok code message k).1 := by
  unfold guarded
  split
  · exact hs
  · rename_i ch hch
    split
    · exact h ch hch
    · exact hrefuse

theorem guarded_murmurs {ok : ClientHandle → Bool} {code : ErrorCode} {message : String} {k : ClientHandle → Handled}
    (h : ∀ ch, s.clients[idx]? = some ch → Murmurs s (k ch).1) : Murmurs s (guarded W s idx ok code message k).1 :=
  guarded_keeps (.refl s) (refuse_murmurs s idx code message) h

theorem handleDetachTarget_murmurs (target : DetachTarget) : Murmurs s (handleDetachTarget W s idx target).1 := by
  cases target with
  | myself => exact .refl s
  | others => exact guarded_murmurs fun _ _ => reply_murmurs W s idx rfl
  | all => exact guarded_murmurs fun _ _ => reply_murmurs W s idx rfl

theorem handleKill_murmurs (signal : Option String) (wait : Bool) : Murmurs s (handleKill W s idx signal wait).1 := by
  refine guarded_murmurs fun ch _ => ?_
  dsimp only
  split
  · exact refuse_murmurs s idx _ _
  · rename_i sig _
    have hcont : Murmurs s (if signalShouldContFirst sig = true then s.logs (.kill sigCont) else s) := by
      split
      · exact .logs s _
      · exact .refl s
    have hkill := hcont.trans (.logs _ (.kill sig))
    split
    · exact hkill
    · exact hkill.trans (reply_murmurs W _ idx rfl)

theorem handleSignal_murmurs (signal : String) : Murmurs s (handleSignal W s idx signal).1 := by
  refine guarded_murmurs fun ch _ => ?_
  split
  · exact refuse_murmurs s idx _ _
  · exact .logs s _

theorem takeLeader_got {ch : ClientHandle} (hch : s.clients[idx]? = some ch) :
    ∀ ch' ∈ (takeLeader s.clients idx ch).1, ∃ c ∈ s.clients, Got (Murmur s.screen) c ch' := by
  unfold takeLeader
  split
  · exact fun ch' hch' => ⟨ch', hch', .refl ch'⟩
  · intro ch' hch'
    obtain ⟨c, hc, rfl⟩ := List.mem_map.1 hch'
    split at hc
    · rcases List.mem_or_eq_of_mem_set hc with hc | rfl
      · exact ⟨c, hc, .same rfl rfl rfl rfl (.nil _)⟩
      · exact ⟨ch, List.mem_of_getElem? hch, .same rfl rfl rfl rfl (.nil _)⟩
    · exact ⟨c, hc, .same rfl rfl rfl rfl (.nil _)⟩

theorem handleLeaderRequest_murmurs (lock : LockState) : Murmurs s (handleLeaderRequest W s lock idx).1 := by
  refine guarded_murmurs fun _ _ => guarded_murmurs fun ch hch => ?_
  have htake := takeLeader_got hch
  generalize takeLeader s.clients idx ch = r at htake
  obtain ⟨clients, takeover⟩ := r
  cases takeover with
  | alreadyLeader id => exact reply_murmurs W s idx rfl
  | taken id modeChanged =>
    refine (Murmurs.of_clients htake).trans ?_
    dsimp only
    split
    · exact (reply_murmurs W _ idx rfl).trans ((broadcastControl_murmurs _ rfl).ignore _)
    · exact (broadcastControl_murmurs _ rfl).ignore _

theorem handleLockAcquire_murmurs (env : FrameEnv) : Murmurs s (handleLockAcquire W env s d idx).1 := by
  unfold handleLockAcquire
  split
  · exact .refl s
  · rename_i ch _
    split
    · exact refuse_murmurs s idx _ _
    · split
      · exact refuse_murmurs s idx _ _
      · dsimp only
        split
        · split
          · exact (reply_murmurs W s idx rfl).trans (refuse_murmurs _ idx _ _)
          · rename_i token _
            refine Murmurs.trans ?_ (executeIgnoringOverflow_murmurs _ _
              (reduceMsg_aside (d.lock.reduceMsg (.acquire ch.id none)).1 (.acquire ch.id (some token))))
            split
            · exact .logs s _
            · exact .refl s
        · exact executeIgnoringOverflow_murmurs _ _ (reduceMsg_aside d.lock (.acquire ch.id none))

theorem handleLockRelease_murmurs (token : String) : Murmurs s (handleLockRelease W s d idx token).1 := by
  unfold handleLockRelease
  split
  · exact .refl s
  · rename_i ch _
    refine Murmurs.trans ?_ (executeIgnoringOverflow_murmurs _ _ (reduceMsg_aside d.lock (.release ch.id token)))
    split
    · exact .logs s _
    · exact .refl s

theorem handleRecordStartRequest_murmurs (req : RecordStartRequest) :
    Murmurs s (handleRecordStartRequest W cfg s idx req).1 := by
  refine guarded_murmurs fun ch _ => ?_
  dsimp only
  split
  · exact (Murmurs.logs s _).trans (reply_murmurs W _ idx rfl)
  · exact (Murmurs.logs s _).trans (refuse_murmurs _ idx _ _)

theorem handleRecordStopRequest_murmurs (recordId : Nat) : Murmurs s (handleRecordStopRequest W s idx recordId).1 := by
  refine guarded_murmurs fun ch _ => ?_
  dsimp only
  split
  · exact (Murmurs.logs s _).trans (reply_murmurs W _ idx rfl)
  · exact (Murmurs.logs s _).trans (refuse_murmurs _ idx _ _)

theorem handleRecordStopAllRequest_murmurs : Murmurs s (handleRecordStopAllRequest W s idx).1 :=
  guarded_murmurs fun _ _ => (Murmurs.logs s _).trans (reply_murmurs W _ idx rfl)

theorem handleRecordListRequest_murmurs : Murmurs s (handleRecordListRequest W s idx).1 :=
  guarded_murmurs fun _ _ => reply_murmurs W s idx rfl

theorem handleScreenDumpRequest_murmurs (format : ScreenDumpFormat) (layer : ScreenDumpLayer) (serial : Option Nat) :
    Murmurs s (handleScreenDumpRequest W s idx format layer serial).1 := by
  refine guarded_murmurs fun ch _ => ?_
  split
  · exact reply_murmurs W s idx rfl
  · exact refuse_murmurs s idx _ _
  · exact refuse_murmurs s idx _ _

theorem handleStateSnapshotRequest_murmurs (components : List SnapshotComponent) (serial : Option Nat) :
    Murmurs s (handleStateSnapshotRequest W s idx components serial).1 := by
  refine guarded_murmurs fun ch _ => ?_
  split
  · exact refuse_murmurs s idx _ _
  · split
    · exact refuse_murmurs s idx _ _
    · split
      · exact refuse_murmurs s idx _ _
      · exact reply_murmurs W s idx rfl

/-- The client is shown the screen as it is. -/
theorem handleSessionChildResumeRequest_murmurs : Murmurs s (handleSessionChildResumeRequest W cfg s idx).1 := by
  refine guarded_murmurs fun ch _ => ?_
  dsimp only
  have hlog : Murmurs s (s.pushLifecycle (.resumeRequestReceived ch.id)) := .logs s _
  generalize s.pushLifecycle (.resumeRequestReceived ch.id) = s₁ at hlog ⊢
  have hoffer : Murmurs s₁ (s₁.offerAt idx (.redraw s₁.screen) (attachRedrawFrame W s₁.screen)).1 :=
    offerAt_murmurs s₁ idx _ fun item hi => .inr (List.mem_singleton.1 hi)
  split
  · exact hlog.trans hoffer
  · exact (hlog.trans hoffer).after rfl rfl rfl rfl

theorem handleSetRequest_murmurs (key value : String) : Murmurs s (handleSetRequest W s idx key value).1 := by
  refine guarded_murmurs fun _ _ => guarded_murmurs fun ch _ => ?_
  split
  · split
    · exact refuse_murmurs s idx _ _
    · rename_i policy _
      have hset : Murmurs s ({ s with childSuspendPolicy := policy }.pushLifecycle
          (.policyChanged "on-child-suspend" policy.asStr ch.id)) := .same rfl rfl rfl rfl
      exact hset.trans (reply_murmurs W _ idx rfl)
  · exact refuse_murmurs s idx _ _

theorem handleUpgradeRequest_murmurs (env : FrameEnv) (binaryPath : Option String) :
    Murmurs s (handleUpgradeRequest W env s idx binaryPath).1 := by
  refine guarded_murmurs fun _ _ => guarded_murmurs fun ch _ => ?_
  split
  · exact refuse_murmurs s idx _ _
  · have hack : Murmurs s { s with clients := (broadcastControlWithCap W s.clients .upgradeAck .upgradeV1).1 } := by
      refine broadcastWith_murmurs s fun ch item payload hsel => ?_
      split at hsel
      · simp only [Option.map_eq_some_iff, Prod.mk.injEq] at hsel
        obtain ⟨_, -, rfl, -⟩ := hsel
        rfl
      · cases hsel
    exact hack.after rfl rfl rfl rfl

theorem handleRawData_murmurs (env : FrameEnv) (body : Bytes) : Murmurs s (handleRawData W env s d idx body).1 := by
  unfold handleRawData
  split
  · exact .refl s
  · split
    · exact refuse_murmurs s idx _ _
    · exact (feedbackRounds_murmurs (W := W) maxFeedbackRounds _ { session := s, tty := some env.tty }
        (handle_aside _ _)).ignore _

/-- Every request but those to resize and to tail. -/
theorem handleControlMessage_murmurs (env : FrameEnv) {msg : ControlMessage} (hresize : ∀ cols rows, msg ≠ .resize cols rows)
    (htail : ∀ req, msg ≠ .tailRequest req) : Murmurs s (handleControlMessage W cfg env s d idx msg).1 := by
  cases msg with
  | resize cols rows => exact absurd rfl (hresize cols rows)
  | tailRequest req => exact absurd rfl (htail req)
  | detach target => exact handleDetachTarget_murmurs target
  | kill signal wait => exact handleKill_murmurs signal wait
  | signal signal => exact handleSignal_murmurs signal
  | leaderRequest => exact handleLeaderRequest_murmurs d.lock
  | lockAcquire => exact handleLockAcquire_murmurs env
  | lockRelease token => exact handleLockRelease_murmurs token
  | statusQuery => exact reply_murmurs W s idx rfl
  | screenDumpRequest format layer serial => exact handleScreenDumpRequest_murmurs format layer serial
  | stateSnapshotRequest components serial => exact handleStateSnapshotRequest_murmurs components serial
  | sessionChildResumeRequest => exact handleSessionChildResumeRequest_murmurs
  | recordStartRequest req => exact handleRecordStartRequest_murmurs req
  | recordStopRequest recordId => exact handleRecordStopRequest_murmurs recordId
  | recordStopAllRequest => exact handleRecordStopAllRequest_murmurs
  | recordListRequest => exact handleRecordListRequest_murmurs
  | setRequest key value => exact handleSetRequest_murmurs key value
  | upgradeRequest binaryPath => exact handleUpgradeRequest_murmurs env binaryPath
  | _ => exact refuse_murmurs s idx _ _

end Handlers

end Hyoui.Daemon
