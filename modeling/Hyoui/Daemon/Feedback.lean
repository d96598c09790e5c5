import Hyoui.Daemon.Talk
import Hyoui.Daemon.Control
/-!
# What comes of the reducer's effects

The lock's effects are replies and at most one `mode.change`; their outcomes come back to a
domain that answers nothing, so one round settles them. Raw input takes up to three rounds: the
write to the PTY, the ack, and the disconnection where the ack could not be sent.
-/

namespace Hyoui.Daemon

open Hyoui.Protocol Hyoui.Lib

/-! ## Dispatch -/

namespace DaemonState

theorem drive_nil (fuel : Nat) (d : DaemonState) : drive fuel d [] = (d, []) := by
  cases fuel <;> rfl

theorem rawData_cross (s : ClientRegistry) (lock : LockState) (id : ClientId) (mode : Mode) (bytes : Bytes) :
    (s.reduceRawData lock id mode bytes).2.cross = [] := by
  unfold ClientRegistry.reduceRawData
  split
  · rfl
  · split <;> rfl

theorem effectResult_cross (s : ClientRegistry) (seq : Nat) (outcome : EffectOutcome) :
    (s.reduceEffectResult seq outcome).2.cross = [] := by
  unfold ClientRegistry.reduceEffectResult
  split
  · unfold ClientRegistry.finishWrite
    split
    · dsimp only
      split <;> rfl
    · rfl
    · rfl
  · split
    · dsimp only
      split <;> rfl
    · rfl

theorem dispatch_cross (d : DaemonState) (msg : DaemonMsg) :
    (d.dispatch msg).2.cross = [] ∨ ∃ id, msg = .client (.detached id) := by
  rcases msg with (⟨id, mode, bytes⟩ | id) | msg | ⟨⟨domain, seq⟩, outcome⟩
  · exact .inl (rawData_cross _ _ _ _ _)
  · exact .inr ⟨id, rfl⟩
  · exact .inl rfl
  · cases domain with
    | client => exact .inl (effectResult_cross _ _ _)
    | lock => exact .inl rfl

theorem handle_detached (d : DaemonState) (id : ClientId) :
    d.handle (.client (.detached id)) =
      ({ d with lock := (d.lock.reduceMsg (.clientDisconnected id)).1 },
        (d.lock.reduceMsg (.clientDisconnected id)).2.1) := by
  simp [handle, drive, dispatch, ClientRegistry.reduce, maxCrossDomainDepth]

/-- More fuel than two changes nothing: every message is settled after two. -/
theorem drive_settles (fuel : Nat) (d : DaemonState) (msg : DaemonMsg) :
    drive (fuel + 2) d [msg] = d.handle msg := by
  rcases dispatch_cross d msg with h | ⟨id, rfl⟩
  · simp [handle, drive, h]
  · rw [handle_detached]
    simp [drive, dispatch, ClientRegistry.reduce, drive_nil, maxCrossDomainDepth]

theorem handle_of_cross {d : DaemonState} {msg : DaemonMsg} (h : (d.dispatch msg).2.cross = []) :
    d.handle msg = ((d.dispatch msg).1, (d.dispatch msg).2.effects) := by
  simp [handle, drive, h]

theorem handle_lockResult (d : DaemonState) {id : EffectId} (h : id.domain = .lock) (outcome : EffectOutcome) :
    d.handle (.effectResult id outcome) = (d, []) := by
  simp [handle, drive, dispatch, h]

theorem handle_clientResult (d : DaemonState) (seq : Nat) (outcome : EffectOutcome) :
    d.handle (.effectResult { domain := .client, seq } outcome) =
      ({ d with clients := (d.clients.reduceEffectResult seq outcome).1 },
        (d.clients.reduceEffectResult seq outcome).2.effects) :=
  handle_of_cross (effectResult_cross _ _ _)

theorem handle_rawData (d : DaemonState) (id : ClientId) (mode : Mode) (bytes : Bytes) :
    d.handle (.client (.rawDataReceived id mode bytes)) =
      ({ d with clients := (d.clients.reduceRawData d.lock id mode bytes).1 },
        (d.clients.reduceRawData d.lock id mode bytes).2.effects) :=
  handle_of_cross (rawData_cross _ _ _ _ _)

theorem handleAll_lockResults (d : DaemonState) {msgs : List DaemonMsg}
    (h : ∀ msg ∈ msgs, ∃ id outcome, msg = .effectResult id outcome ∧ id.domain = .lock) :
    d.handleAll msgs = (d, []) := by
  induction msgs with
  | nil => rfl
  | cons msg msgs ih =>
    obtain ⟨id, outcome, rfl, hid⟩ := h msg List.mem_cons_self
    simp only [handleAll, handle_lockResult d hid, ih fun m hm => h m (List.mem_cons_of_mem _ hm), List.append_nil]

end DaemonState

/-! ## The lock's transitions -/

/-- A held lock has a token and goes when its holder's connection goes. -/
structure LockState.Ok (lock : LockState) : Prop where
  bound : lock.holder.isSome = true → lock.processBound = true
  token : lock.token.isSome = lock.holder.isSome

theorem lock_ok_initial : ({} : LockState).Ok := ⟨(fun h => nomatch h), rfl⟩

/-- An effect of the lock after which its holder is `holder`: a reply, or the notice of that. -/
def LockEffect (holder : Option ClientId) (e : Effect) : Prop :=
  e.id.domain = .lock ∧
    ((∃ id msg, e.kind = .clientReply id msg ∧ (Outgoing.control msg).plain = true) ∨
      ∃ m, e.kind = .clientBroadcast (.modeChange m) ∧ (m.sessionMode, m.lockHolder) = lockNotice holder)

def Effect.isBroadcast (e : Effect) : Bool := match e.kind with | .clientBroadcast _ => true | _ => false

/-- What a lock transition does: who may become holder, and that the effects announce it. -/
structure LockState.Moved (lock : LockState) (msg : LockMsg) (lock' : LockState) (effects : List Effect) : Prop where
  ok : lock.Ok → lock'.Ok
  free : lock'.holder = lock.holder ∨ lock.holder = none ∨ lock'.holder = none
  holder : ∀ id, lock'.holder = some id → lock.holder = some id ∨ ∃ token, msg = .acquire id (some token)
  effect : ∀ e ∈ effects, LockEffect lock'.holder e
  announced : lock'.holder ≠ lock.holder → ∃ e ∈ effects, e.isBroadcast = true

section Moved

variable {lock : LockState} {msg : LockMsg} {id : ClientId}

theorem moved_same (lock : LockState) (msg : LockMsg) : lock.Moved msg lock [] :=
  ⟨fun h => h, .inl rfl, fun _ h => .inl h, by simp, fun h => absurd rfl h⟩

theorem moved_reply {message : ControlMessage} (hplain : (Outgoing.control message).plain = true) (seq n : Nat) :
    lock.Moved msg { lock with nextEffectSeq := n }
      [{ id := { domain := .lock, seq }, kind := .clientReply id message }] where
  ok h := ⟨h.bound, h.token⟩
  free := .inl rfl
  holder _ h := .inl h
  effect e he := by
    obtain rfl := List.mem_singleton.1 he
    exact ⟨rfl, .inl ⟨id, message, rfl, hplain⟩⟩
  announced h := absurd rfl h

theorem moved_acquired {token : String} {message : ControlMessage} (hfree : lock.holder = none)
    (hplain : (Outgoing.control message).plain = true) (seq seq' n : Nat) :
    lock.Moved (.acquire id (some token))
      { holder := some id, token := some token, processBound := true, nextEffectSeq := n }
      [{ id := { domain := .lock, seq }, kind := .clientReply id message },
        { id := { domain := .lock, seq := seq' },
          kind := .clientBroadcast (.modeChange { sessionMode := .locked, lockHolder := some id, clientMode := none }) }] where
  ok _ := ⟨fun _ => rfl, rfl⟩
  free := .inr (.inl hfree)
  holder _ h := .inr ⟨token, by rw [Option.some.inj h]⟩
  effect e he := by
    simp only [List.mem_cons, List.not_mem_nil, or_false] at he
    rcases he with rfl | rfl
    · exact ⟨rfl, .inl ⟨id, message, rfl, hplain⟩⟩
    · exact ⟨rfl, .inr ⟨_, rfl, rfl⟩⟩
  announced _ := ⟨_, List.mem_cons_of_mem _ List.mem_cons_self, rfl⟩

theorem moved_released (seq n : Nat) :
    lock.Moved msg { holder := none, token := none, processBound := false, nextEffectSeq := n }
      [{ id := { domain := .lock, seq },
         kind := .clientBroadcast (.modeChange { sessionMode := .rw, lockHolder := none, clientMode := none }) }] where
  ok _ := ⟨(fun h => by cases h), rfl⟩
  free := .inr (.inr rfl)
  holder _ h := nomatch h
  effect e he := by
    obtain rfl := List.mem_singleton.1 he
    exact ⟨rfl, .inr ⟨_, rfl, rfl⟩⟩
  announced _ := ⟨_, List.mem_cons_self, rfl⟩

theorem reduceMsg_moved (lock : LockState) (msg : LockMsg) :
    lock.Moved msg (lock.reduceMsg msg).1 (lock.reduceMsg msg).2.1 := by
  cases msg with
  | acquire id token =>
    by_cases hself : lock.holder = some id
    · simp only [LockState.reduceMsg, LockState.reduce, hself, if_true]
      exact moved_reply rfl _ _
    · by_cases hheld : lock.holder.isSome = true
      · simp only [LockState.reduceMsg, LockState.reduce, hself, hheld, if_true, if_false]
        exact moved_reply rfl _ _
      · have hfree : lock.holder = none := by simpa using hheld
        cases token with
        | none =>
          simp only [LockState.reduceMsg, LockState.reduce, hself, hheld, if_false]
          exact moved_same _ _
        | some token =>
          simp only [LockState.reduceMsg, LockState.reduce, hself, hheld, if_false]
          exact moved_acquired hfree rfl _ _ _
  | release id token =>
    simp only [LockState.reduceMsg, LockState.reduce]
    split
    · exact moved_released _ _
    · exact moved_reply rfl _ _
  | clientDisconnected id =>
    simp only [LockState.reduceMsg, LockState.reduce]
    split
    · exact moved_released _ _
    · exact moved_same _ _

/-- Without a token the lock is not taken: where it is free, one is asked for. -/
theorem reduceMsg_acquire_none (lock : LockState) (id : ClientId) :
    lock.reduceMsg (.acquire id none) = (lock, [], [.tokenRequired id]) ∨
      ∃ ev, (lock.reduceMsg (.acquire id none)).2.2 = [ev] ∧ ∀ c, ev ≠ .tokenRequired c := by
  by_cases hself : lock.holder = some id
  · exact .inr ⟨.acquired id lock.token false, by simp only [LockState.reduceMsg, LockState.reduce, hself, if_true],
      by simp⟩
  · by_cases hheld : lock.holder.isSome = true
    · exact .inr ⟨.denied id .heldByOther,
        by simp only [LockState.reduceMsg, LockState.reduce, hself, hheld, if_true, if_false], by simp⟩
    · left
      simp only [LockState.reduceMsg, LockState.reduce, hself, hheld, if_false]
      rfl

/-- A client that goes takes its lock along, and nobody else's. -/
theorem reduceMsg_disconnected (h : lock.Ok) (id : ClientId) :
    ((lock.reduceMsg (.clientDisconnected id)).1.holder = if lock.holder = some id then none else lock.holder) ∧
      (lock.holder ≠ some id → (lock.reduceMsg (.clientDisconnected id)) = (lock, [], [])) := by
  by_cases hid : lock.holder = some id
  · have hb : lock.processBound = true := h.bound (by rw [hid]; rfl)
    simp only [LockState.reduceMsg, LockState.reduce, hid, hb, and_self, if_true]
    exact ⟨rfl, fun hn => absurd rfl hn⟩
  · simp only [LockState.reduceMsg, LockState.reduce, hid, and_false, if_false]
    exact ⟨rfl, fun _ => rfl⟩

end Moved

/-! ## Executing the lock's effects -/

section Execute

variable {W : World} {holder : Option ClientId} {L : Option ClientId → Prop} {effects : List Effect}

theorem sendTo_talks (ctx : ExecuteCtx) (id : ClientId) (item : Outgoing) (payload : Option Bytes) :
    Talks (· = item) [] ctx.session (ctx.sendTo id (·.offer item payload)).1.session := by
  unfold ExecuteCtx.sendTo
  split
  · exact .refl _
  · exact sendIgnoring_talks _ _ _ _

theorem sendTo_overflowIds (ctx : ExecuteCtx) (id : ClientId)
    (send : ClientHandle → ClientHandle × Option EnqueueOutcome) :
    (ctx.sendTo id send).1.overflowIds = ctx.overflowIds := by
  unfold ExecuteCtx.sendTo
  split <;> rfl

theorem executeOne_lock (ctx : ExecuteCtx) {e : Effect} (h : LockEffect holder e) :
    ∃ ov, (ctx.executeOne W e.kind).1.overflowIds = ctx.overflowIds ++ ov ∧
      Notifies W L (· = lockNotice holder) False (e.isBroadcast = true) ov ctx.session
        (ctx.executeOne W e.kind).1.session := by
  rcases h with ⟨-, ⟨id, msg, hkind, hplain⟩ | ⟨m, hkind, hm⟩⟩
  · have htalk := sendTo_talks ctx id (.control msg) (W.controlFrame msg)
    refine ⟨[], ?_, ?_⟩
    · rw [hkind, List.append_nil]
      exact sendTo_overflowIds ctx id _
    · have hb : e.isBroadcast = false := by rw [Effect.isBroadcast, hkind]
      rw [hkind]
      exact (htalk.mono (by rintro _ rfl; exact hplain) fun _ hid => hid).notifies.weaken
        (fun _ hx => hx) (fun _ hx => hx) (fun hx => hx) (by rw [hb]; simp)
  · refine ⟨(ctx.session.broadcastControl W (.modeChange m)).2, by rw [hkind]; rfl, ?_⟩
    rw [hkind, ← hm]
    exact (modeChange_notifies ctx.session m).weaken (fun _ hx => hx) (fun _ hx => hx) (fun hx => hx) fun _ => trivial

theorem execute_lock (ctx : ExecuteCtx) (h : ∀ e ∈ effects, LockEffect holder e) :
    ∃ ov, (ctx.execute W effects).1.overflowIds = ctx.overflowIds ++ ov ∧
      Notifies W L (· = lockNotice holder) False (∃ e ∈ effects, e.isBroadcast = true) ov ctx.session
        (ctx.execute W effects).1.session := by
  induction effects generalizing ctx with
  | nil => exact ⟨[], (List.append_nil _).symm, (Notifies.refl _).weaken (fun _ hx => hx) (fun _ hx => hx) (fun hx => hx) (by simp)⟩
  | cons e es ih =>
    obtain ⟨ov, ho, hn⟩ := executeOne_lock (W := W) (L := L) ctx (h e List.mem_cons_self)
    obtain ⟨ov', ho', hn'⟩ := ih (ctx.executeOne W e.kind).1 fun e' he' => h e' (List.mem_cons_of_mem _ he')
    refine ⟨ov ++ ov', ?_, ?_⟩
    · rw [← List.append_assoc, ← ho]
      exact ho'
    · refine (hn.trans hn').weaken (fun _ hx => hx) (fun _ hx => hx) False.elim ?_
      rintro ⟨e', he', hb⟩
      rcases List.mem_cons.1 he' with rfl | he'
      · exact .inl hb
      · exact .inr ⟨e', he', hb⟩

/-- Results come back under the effects' own ids. -/
theorem execute_results (ctx : ExecuteCtx) {msg : DaemonMsg} (h : msg ∈ (ctx.execute W effects).2) :
    ∃ e ∈ effects, ∃ outcome, msg = .effectResult e.id outcome := by
  induction effects generalizing ctx with
  | nil => simp [ExecuteCtx.execute] at h
  | cons e es ih =>
    simp only [ExecuteCtx.execute] at h
    split at h
    · rename_i outcome _
      rcases List.mem_cons.1 h with rfl | h
      · exact ⟨e, List.mem_cons_self, outcome, rfl⟩
      · obtain ⟨e', he', hrest⟩ := ih _ h
        exact ⟨e', List.mem_cons_of_mem _ he', hrest⟩
    · obtain ⟨e', he', hrest⟩ := ih _ h
      exact ⟨e', List.mem_cons_of_mem _ he', hrest⟩

theorem feedbackRounds_nil (rounds : Nat) (d : DaemonState) (ctx : ExecuteCtx) :
    feedbackRounds W rounds d [] ctx = (d, ctx) := by
  cases rounds <;> rfl

/-- The lock's effects are settled in one round. -/
theorem feedback_lock (d : DaemonState) (ctx : ExecuteCtx) (h : ∀ e ∈ effects, LockEffect holder e) :
    executeWithFeedbackCtx W d effects ctx = (d, (ctx.execute W effects).1) := by
  cases effects with
  | nil => rfl
  | cons e es =>
    have hall : d.handleAll (ctx.execute W (e :: es)).2 = (d, []) := by
      refine DaemonState.handleAll_lockResults d fun msg hmsg => ?_
      obtain ⟨e', he', outcome, rfl⟩ := execute_results ctx hmsg
      exact ⟨e'.id, outcome, rfl, (h e' he').1⟩
    simp only [executeWithFeedbackCtx, maxFeedbackRounds, feedbackRounds, hall]

theorem executeWithFeedback_lock (d : DaemonState) (s : Session) (ids : List ClientId)
    (h : ∀ e ∈ effects, LockEffect holder e) :
    (executeWithFeedback W d effects s ids).1 = d ∧
      ∃ ov, (executeWithFeedback W d effects s ids).2.2 = ids ++ ov ∧
        Notifies W L (· = lockNotice holder) False (∃ e ∈ effects, e.isBroadcast = true) ov s
          (executeWithFeedback W d effects s ids).2.1 := by
  simp only [executeWithFeedback, feedback_lock d _ h]
  exact ⟨trivial, execute_lock _ h⟩

theorem executeIgnoringOverflow_lock (d : DaemonState) (s : Session) (h : ∀ e ∈ effects, LockEffect holder e) :
    (executeIgnoringOverflow W d effects s).2 = d ∧
      Notifies W L (· = lockNotice holder) False (∃ e ∈ effects, e.isBroadcast = true) [] s
        (executeIgnoringOverflow W d effects s).1 := by
  obtain ⟨hd, ov, ho, hn⟩ := executeWithFeedback_lock (W := W) (L := L) d s [] h
  refine ⟨hd, ?_⟩
  simp only [executeIgnoringOverflow, ho]
  exact hn.ignore

end Execute

/-! ## Raw input -/

/-- The client reducer waits for no outcome. -/
structure ClientRegistry.Idle (r : ClientRegistry) : Prop where
  write : r.pendingWrite = none
  ack : r.pendingAck = none

theorem idle_initial : ({} : ClientRegistry).Idle := ⟨rfl, rfl⟩

def LogEntry.isPtyWrite : LogEntry → Bool
  | .ptyWrite _ => true
  | _ => false

/-- The writes to the PTY so far. -/
def Session.ptyWrites (s : Session) : Log := s.log.filter (·.isPtyWrite)

def Effect.isRecord (e : Effect) : Bool := match e.kind with | .record _ => true | _ => false

section RawInput

variable {W : World} {d : DaemonState} {ctx : ExecuteCtx} {id : ClientId} {records : List Effect}

theorem feedbackRounds_step {effects : List Effect} (rounds : Nat) (d : DaemonState) (ctx : ExecuteCtx)
    (h : effects ≠ []) :
    feedbackRounds W (rounds + 1) d effects ctx =
      feedbackRounds W rounds (d.handleAll (ctx.execute W effects).2).1 (d.handleAll (ctx.execute W effects).2).2
        (ctx.execute W effects).1 := by
  cases effects with
  | nil => exact absurd rfl h
  | cons e es => rfl

theorem execute_append (ctx : ExecuteCtx) (es es' : List Effect) :
    ctx.execute W (es ++ es') =
      (((ctx.execute W es).1.execute W es').1, (ctx.execute W es).2 ++ ((ctx.execute W es).1.execute W es').2) := by
  induction es generalizing ctx with
  | nil => rfl
  | cons e es ih =>
    simp only [List.cons_append, ExecuteCtx.execute, ih]
    split <;> rfl

/-- Records only reach the log. -/
theorem execute_records (ctx : ExecuteCtx) (h : ∀ e ∈ records, e.isRecord = true) :
    (ctx.execute W records).2 = [] ∧ (ctx.execute W records).1.overflowIds = ctx.overflowIds ∧
      (ctx.execute W records).1.session.ptyWrites = ctx.session.ptyWrites ∧
      ∃ log, (ctx.execute W records).1.session = { ctx.session with log } := by
  induction records generalizing ctx with
  | nil => exact ⟨rfl, rfl, rfl, ctx.session.log, rfl⟩
  | cons e es ih =>
    obtain ⟨eid, kind⟩ := e
    have he := h _ List.mem_cons_self
    cases kind <;> simp only [Effect.isRecord, Bool.false_eq_true] at he
    rename_i entry
    obtain ⟨hfb, hov, hpty, log, hlog⟩ :=
      ih (ctx.executeOne W (.record entry)).1 fun e' he' => h e' (List.mem_cons_of_mem _ he')
    have hout : (ctx.executeOne W (.record entry)).2 = none := by
      simp only [ExecuteCtx.executeOne]
      split <;> rfl
    simp only [ExecuteCtx.execute, hout]
    refine ⟨hfb, hov.trans ?_, hpty.trans ?_, log, hlog.trans ?_⟩ <;>
      simp only [ExecuteCtx.executeOne] <;> split <;>
      simp [Session.logs, Session.ptyWrites, LogEntry.isPtyWrite]

/-- The last rounds: an ack goes out, and its client goes where it could not be sent. -/
theorem ack_settles (ctx : ExecuteCtx) (rounds seq : Nat) (ack : RawAck) (hw : d.clients.pendingWrite = none)
    (ha : d.clients.pendingAck = some { seq, clientId := id }) (hrec : ∀ e ∈ records, e.isRecord = true) :
    ∃ clients, clients.Idle ∧ ∃ ctx',
      feedbackRounds W (rounds + 2) d
        (records ++ [{ id := { domain := .client, seq }, kind := .clientRawAck id ack }]) ctx =
          ({ d with clients }, ctx') ∧
      ctx'.session = ((ctx.execute W records).1.sendTo id (sendRawAck W · ack)).1.session ∧
      ctx'.overflowIds = ctx.overflowIds ++
        if ((ctx.execute W records).1.sendTo id (sendRawAck W · ack)).2 = .ok then [] else [id] := by
  obtain ⟨hfb, hov, -, -⟩ := execute_records (W := W) ctx hrec
  rw [feedbackRounds_step _ _ _ (by simp), execute_append, hfb]
  simp only [ExecuteCtx.execute, ExecuteCtx.executeOne, List.nil_append, DaemonState.handleAll,
    DaemonState.handle_clientResult, List.append_nil]
  generalize hsend : (ctx.execute W records).1.sendTo id (sendRawAck W · ack) = r
  have hr : r.1.overflowIds = ctx.overflowIds := by
    rw [← hsend, sendTo_overflowIds, hov]
  simp only [ClientRegistry.reduceEffectResult, hw, ha, Option.filter_none, Option.filter_some, decide_true, if_true]
  by_cases hok : r.2 = .ok
  · simp only [hok, if_true]
    exact ⟨{ nextEffectSeq := d.clients.nextEffectSeq }, ⟨rfl, rfl⟩, r.1, feedbackRounds_nil _ _ _, rfl,
      by rw [hr, List.append_nil]⟩
  · simp only [hok, if_false]
    rw [feedbackRounds_step _ _ _ (by simp [ClientRegistry.emit])]
    simp only [ExecuteCtx.execute, ExecuteCtx.executeOne, ClientRegistry.emit, DaemonState.handleAll,
      feedbackRounds_nil]
    exact ⟨{ nextEffectSeq := d.clients.nextEffectSeq + 1 }, ⟨rfl, rfl⟩, _, rfl, rfl, by rw [hr]⟩

theorem handleAll_idle (hidle : d.clients.Idle) {msgs : List DaemonMsg}
    (h : ∀ msg ∈ msgs, ∃ id outcome, msg = .effectResult id outcome) : d.handleAll msgs = (d, []) := by
  induction msgs with
  | nil => rfl
  | cons msg msgs ih =>
    obtain ⟨⟨domain, seq⟩, outcome, rfl⟩ := h msg List.mem_cons_self
    have hone : d.handle (.effectResult { domain, seq } outcome) = (d, []) := by
      cases domain with
      | lock => exact DaemonState.handle_lockResult d rfl outcome
      | client =>
        rw [DaemonState.handle_clientResult]
        simp only [ClientRegistry.reduceEffectResult, hidle.write, hidle.ack, Option.filter_none]
    simp only [DaemonState.handleAll, hone, ih fun m hm => h m (List.mem_cons_of_mem _ hm), List.append_nil]

/-- An effect that answers the client `id`. -/
def Answers (id : ClientId) (e : Effect) : Prop :=
  (∃ ack, e.kind = .clientRawAck id ack) ∨ ∃ msg, e.kind = .clientReply id msg ∧ (Outgoing.control msg).plain = true

theorem sendIgnoring_ptyWrites (s : Session) (idx : Nat)
    (send : ClientHandle → ClientHandle × Option EnqueueOutcome) :
    (s.sendIgnoring idx send).1.ptyWrites = s.ptyWrites := by
  unfold Session.sendIgnoring
  split
  · rfl
  · dsimp only
    split <;> rfl

theorem sendTo_ptyWrites (ctx : ExecuteCtx) (id : ClientId)
    (send : ClientHandle → ClientHandle × Option EnqueueOutcome) :
    (ctx.sendTo id send).1.session.ptyWrites = ctx.session.ptyWrites := by
  unfold ExecuteCtx.sendTo
  split
  · rfl
  · exact sendIgnoring_ptyWrites _ _ _

/-- Who is missed after a send to `id` was missed before, or is `id`. -/
theorem sendTo_missed (ctx : ExecuteCtx) (id : ClientId)
    (send : ClientHandle → ClientHandle × Option EnqueueOutcome) :
    ∀ x ∈ (ctx.sendTo id send).1.session.missed, x ∈ ctx.session.missed ∨ x = id := by
  unfold ExecuteCtx.sendTo
  cases hfind : ctx.session.clients.findIdx? (·.id = id) with
  | none => exact fun _ hx => .inl hx
  | some idx =>
    obtain ⟨hlt, hp, -⟩ := List.findIdx?_eq_some_iff_getElem.1 hfind
    intro x hx
    simp only [Session.sendIgnoring, List.getElem?_eq_getElem hlt] at hx
    split at hx
    · rcases List.mem_append.1 hx with hx | hx
      · exact .inl hx
      · rw [List.mem_singleton.1 (List.mem_filter.1 hx).1]
        exact .inr (of_decide_eq_true hp)
    · exact .inl hx

theorem execute_answers (ctx : ExecuteCtx) {es : List Effect} (h : ∀ e ∈ es, Answers id e) :
    (ctx.execute W es).1.overflowIds = ctx.overflowIds ∧
      (ctx.execute W es).1.session.ptyWrites = ctx.session.ptyWrites ∧
      (∀ x ∈ (ctx.execute W es).1.session.missed, x ∈ ctx.session.missed ∨ x = id) ∧
      Talks Outgoing.Quiet [] ctx.session (ctx.execute W es).1.session := by
  induction es generalizing ctx with
  | nil => exact ⟨rfl, rfl, fun _ hx => .inl hx, .refl _⟩
  | cons e es ih =>
    obtain ⟨hov, hpty, hmiss, htalk⟩ := ih (ctx.executeOne W e.kind).1 fun e' he' => h e' (List.mem_cons_of_mem _ he')
    have hone : (ctx.executeOne W e.kind).1.overflowIds = ctx.overflowIds ∧
        (ctx.executeOne W e.kind).1.session.ptyWrites = ctx.session.ptyWrites ∧
        (∀ x ∈ (ctx.executeOne W e.kind).1.session.missed, x ∈ ctx.session.missed ∨ x = id) ∧
        Talks Outgoing.Quiet [] ctx.session (ctx.executeOne W e.kind).1.session := by
      rcases h e List.mem_cons_self with ⟨ack, hk⟩ | ⟨msg, hk, hplain⟩ <;> rw [hk]
      · exact ⟨sendTo_overflowIds _ _ _, sendTo_ptyWrites _ _ _, sendTo_missed _ _ _,
          (sendTo_talks ctx id _ _).mono (by rintro _ rfl; exact ⟨rfl, rfl⟩) fun _ hid => hid⟩
      · exact ⟨sendTo_overflowIds _ _ _, sendTo_ptyWrites _ _ _, sendTo_missed _ _ _,
          (sendTo_talks ctx id _ _).mono (by rintro _ rfl; exact ⟨plain_leaderNotice hplain, plain_lockNotice hplain⟩)
            fun _ hid => hid⟩
    refine ⟨hov.trans hone.1, hpty.trans hone.2.1, fun x hx => ?_, hone.2.2.2.then htalk⟩
    exact (hmiss x hx).elim (hone.2.2.1 x) .inr

theorem sendTo_sent (ctx : ExecuteCtx) {idx : Nat} {ch : ClientHandle} (hn : (ctx.session.clients.map (·.id)).Nodup)
    (hch : ctx.session.clients[idx]? = some ch) {item : Outgoing} {payload : Option Bytes}
    (h : (ctx.sendTo ch.id (·.offer item payload)).2 = .ok) :
    ∃ ch', (ctx.sendTo ch.id (·.offer item payload)).1.session.clients = ctx.session.clients.set idx ch' ∧
      ch'.offers = ch.offers ++ [⟨item, .sent⟩] := by
  have hfind : ctx.session.clients.findIdx? (·.id = ch.id) = some idx := findIdx?_key hn hch
  unfold ExecuteCtx.sendTo Session.sendIgnoring at h ⊢
  rw [hfind] at h ⊢
  dsimp only at h ⊢
  rw [hch] at h ⊢
  dsimp only at h ⊢
  cases payload with
  | none => simp [ClientHandle.offer, replyOutcome] at h
  | some payload =>
    have hsent : (ch.offer item (some payload)).2 = some .sent := by
      unfold replyOutcome at h
      split at h
      · assumption
      · cases h
    refine ⟨(ch.offer item (some payload)).1, ?_, ?_⟩
    · split <;> rfl
    · have houtcome : (ch.enqueueForClient item payload).2 = .sent := Option.some.inj hsent
      simp only [ClientHandle.offer, ClientHandle.enqueueForClient] at houtcome ⊢
      rw [houtcome]

theorem emitAll_spec (s : ClientRegistry) (ks : List EffectKind) :
    (∃ n, (s.emitAll ks).1 = { s with nextEffectSeq := n }) ∧ (s.emitAll ks).2.map (·.kind) = ks := by
  induction ks generalizing s with
  | nil => exact ⟨⟨s.nextEffectSeq, rfl⟩, rfl⟩
  | cons k ks ih =>
    obtain ⟨⟨n, hn⟩, hk⟩ := ih (s.emit k).1
    exact ⟨⟨n, hn⟩, congrArg (k :: ·) hk⟩

theorem emitAll_mem {s : ClientRegistry} {ks : List EffectKind} {e : Effect} (h : e ∈ (s.emitAll ks).2) :
    e.kind ∈ ks := by
  rw [← (emitAll_spec s ks).2]
  exact List.mem_map_of_mem h

theorem emitAll_append (s : ClientRegistry) (ks ks' : List EffectKind) :
    s.emitAll (ks ++ ks') =
      (((s.emitAll ks).1.emitAll ks').1, (s.emitAll ks).2 ++ ((s.emitAll ks).1.emitAll ks').2) := by
  induction ks generalizing s with
  | nil => rfl
  | cons k ks ih => simp only [List.cons_append, ClientRegistry.emitAll, ih]

/-- What has become of the raw input of the client at `idx`: one ack, or the client is to go. -/
structure RawHandled (idx : Nat) (ch : ClientHandle) (s s' : Session) (dropped : List ClientId) : Prop where
  talks : Talks Outgoing.Quiet [] s s'
  only : ∀ id ∈ dropped, id = ch.id
  missed : ∀ id ∈ s'.missed, id ∈ s.missed ∨ id = ch.id
  answered : ch.id ∈ dropped ∨
    ∃ ack ch', s'.clients = s.clients.set idx ch' ∧ ch'.offers = ch.offers ++ [⟨.rawAck ack, .sent⟩]

variable {idx : Nat} {ch : ClientHandle}

theorem RawHandled.of_log {s s' : Session} {dropped : List ClientId} (log : Log)
    (h : RawHandled idx ch { s with log } s' dropped) : RawHandled idx ch s s' dropped :=
  have hlog : Talks Outgoing.Quiet [] s { s with log } := .same rfl rfl rfl rfl
  ⟨hlog.then h.talks, h.only, h.missed, h.answered⟩

/-- Input that was refused, or written whole: the ack is all that is left to do. -/
theorem ack_handled (ctx : ExecuteCtx) (rounds seq : Nat) (ack : RawAck) (hov : ctx.overflowIds = [])
    (hn : (ctx.session.clients.map (·.id)).Nodup) (hch : ctx.session.clients[idx]? = some ch)
    (hw : d.clients.pendingWrite = none) (ha : d.clients.pendingAck = some { seq, clientId := ch.id })
    (hrec : ∀ e ∈ records, e.isRecord = true) :
    ∃ clients, clients.Idle ∧ ∃ ctx',
      feedbackRounds W (rounds + 2) d
        (records ++ [{ id := { domain := .client, seq }, kind := .clientRawAck ch.id ack }]) ctx =
          ({ d with clients }, ctx') ∧
      RawHandled idx ch ctx.session ctx'.session ctx'.overflowIds ∧
      ctx'.session.ptyWrites = ctx.session.ptyWrites := by
  obtain ⟨clients, hidle, ctx', heq, hsess, hids⟩ :=
    ack_settles (W := W) ctx rounds seq ack hw ha hrec
  obtain ⟨-, -, hpty, log, hlog⟩ := execute_records (W := W) ctx hrec
  refine ⟨clients, hidle, ctx', heq, .of_log log ⟨?_, ?_, ?_, ?_⟩, ?_⟩
  · rw [hsess, ← hlog]
    exact (sendTo_talks _ _ _ _).mono (by rintro _ rfl; exact ⟨rfl, rfl⟩) fun _ hid => hid
  · intro id hid
    rw [hids, hov] at hid
    split at hid
    · cases hid
    · exact List.mem_singleton.1 hid
  · rw [hsess, ← hlog]
    exact sendTo_missed _ _ _
  · by_cases hok : ((ctx.execute W records).1.sendTo ch.id (sendRawAck W · ack)).2 = .ok
    · right
      obtain ⟨ch', hset, hoffers⟩ :=
        sendTo_sent (ctx.execute W records).1 (by rw [hlog]; exact hn) (by rw [hlog]; exact hch) hok
      rw [hlog] at hset
      exact ⟨ack, ch', (congrArg (·.clients) hsess).trans hset, hoffers⟩
    · left
      rw [hids, if_neg hok]
      simp
  · rw [hsess, sendTo_ptyWrites, hpty]

/-- Input that was not written whole: an ack, perhaps an error, and the client goes. -/
theorem failed_handled (rounds : Nat) {answers : List Effect} {eid : EffectId} (hidle : d.clients.Idle)
    (hov : ctx.overflowIds = []) (hrec : ∀ e ∈ records, e.isRecord = true) (hans : ∀ e ∈ answers, Answers ch.id e) :
    ∃ ctx', feedbackRounds W (rounds + 1) d
        (records ++ (answers ++ [{ id := eid, kind := .clientDisconnect ch.id }])) ctx = (d, ctx') ∧
      RawHandled idx ch ctx.session ctx'.session ctx'.overflowIds ∧
      ctx'.session.ptyWrites = ctx.session.ptyWrites := by
  obtain ⟨-, hov₁, hpty₁, log, hlog⟩ := execute_records (W := W) ctx hrec
  obtain ⟨hov₂, hpty₂, hmiss, htalk⟩ := execute_answers (W := W) (ctx.execute W records).1 hans
  rw [feedbackRounds_step _ _ _ (by simp), handleAll_idle hidle, feedbackRounds_nil]
  · refine ⟨_, rfl, .of_log log ⟨?_, ?_, ?_, ?_⟩, ?_⟩
    · rw [execute_append, execute_append, ← hlog]
      exact htalk
    · intro id hid
      rw [execute_append, execute_append] at hid
      simp only [ExecuteCtx.execute, ExecuteCtx.executeOne, hov₂, hov₁, hov, List.nil_append,
        List.mem_singleton] at hid
      exact hid
    · rw [execute_append, execute_append, ← hlog]
      exact hmiss
    · left
      rw [execute_append, execute_append]
      simp [ExecuteCtx.execute, ExecuteCtx.executeOne]
    · rw [execute_append, execute_append]
      exact hpty₂.trans hpty₁
  · intro msg hmsg
    obtain ⟨e, -, outcome, rfl⟩ := execute_results ctx hmsg
    exact ⟨e.id, outcome, rfl⟩

theorem writeRecords_isRecord (pw : PendingWrite) (written requested : Nat) (error : Option TtyWriteErrorKind)
    {k : EffectKind} (h : k ∈ ClientRegistry.writeRecords pw written requested error) : ∃ entry, k = .record entry := by
  unfold ClientRegistry.writeRecords at h
  rcases List.mem_append.1 h with h | h
  · split at h
    · exact ⟨_, List.mem_singleton.1 h⟩
    · cases h
  · split at h
    · exact ⟨_, List.mem_singleton.1 h⟩
    · cases h

/-- The input may reach the PTY. -/
def MayWrite (lock : LockState) (ch : ClientHandle) : Prop :=
  ch.mode ≠ .ro ∧ (lock.holder = none ∨ lock.holder = some ch.id)

/-- The outcome of the write comes back. -/
theorem written_handled (ctx : ExecuteCtx) (rounds seq : Nat) (body : Bytes) (written : Nat) (error : Option TtyWriteErrorKind)
    (hov : ctx.overflowIds = []) (hn : (ctx.session.clients.map (·.id)).Nodup)
    (hch : ctx.session.clients[idx]? = some ch)
    (hw : d.clients.pendingWrite = some { seq, clientId := ch.id, bytes := body }) (ha : d.clients.pendingAck = none) :
    ∃ clients, clients.Idle ∧ ∃ ctx',
      feedbackRounds W (rounds + 2)
        (d.handle (.effectResult { domain := .client, seq } (.ttyWrite written body.length error))).1
        (d.handle (.effectResult { domain := .client, seq } (.ttyWrite written body.length error))).2 ctx =
          ({ d with clients }, ctx') ∧
      RawHandled idx ch ctx.session ctx'.session ctx'.overflowIds ∧
      ctx'.session.ptyWrites = ctx.session.ptyWrites := by
  rw [DaemonState.handle_clientResult]
  simp only [ClientRegistry.reduceEffectResult, hw, Option.filter_some, decide_true, if_true, ClientRegistry.finishWrite]
  generalize hpw : ({ seq, clientId := ch.id, bytes := body } : PendingWrite) = pw
  generalize hs : ({ d.clients with pendingWrite := none } : ClientRegistry) = r
  have hr : r.Idle := by rw [← hs]; exact ⟨rfl, ha⟩
  obtain ⟨⟨n, hemit⟩, -⟩ := emitAll_spec r (ClientRegistry.writeRecords pw written body.length error)
  have hrec : ∀ e ∈ (r.emitAll (ClientRegistry.writeRecords pw written body.length error)).2, e.isRecord = true := by
    intro e he
    obtain ⟨entry, hk⟩ := writeRecords_isRecord pw written body.length error (emitAll_mem he)
    rw [Effect.isRecord, hk]
  by_cases hok : error.isNone = true ∧ written = body.length
  · rw [if_pos hok]
    exact ack_handled ctx rounds _ .ok hov hn hch (by rw [hemit]; exact hr.write) rfl hrec
  · rw [if_neg hok]
    -- an ack, the notice of a timeout where it is one, and the disconnection
    rw [emitAll_append]
    obtain ⟨⟨m, hemit'⟩, -⟩ := emitAll_spec (r.emitAll (ClientRegistry.writeRecords pw written body.length error)).1
      ([.clientRawAck ch.id (ClientRegistry.failedWriteAck written body.length error)] ++
        if error = some .idleTimeout then
          [.clientReply ch.id (.error { code := .masterWriteTimeout,
                                        message := ClientRegistry.timeoutText written body.length })]
        else [])
    refine ⟨_, ⟨?_, ?_⟩, failed_handled (rounds + 1) ⟨?_, ?_⟩ hov hrec ?_⟩
    · rw [hemit']
      exact (congrArg (·.pendingWrite) hemit).trans hr.write
    · rw [hemit']
      exact (congrArg (·.pendingAck) hemit).trans hr.ack
    · rw [hemit']
      exact (congrArg (·.pendingWrite) hemit).trans hr.write
    · rw [hemit']
      exact (congrArg (·.pendingAck) hemit).trans hr.ack
    · intro e he
      have hk := emitAll_mem he
      simp only [List.singleton_append, List.mem_cons] at hk
      rcases hk with hk | hk
      · exact .inl ⟨_, hk⟩
      · split at hk
        · exact .inr ⟨_, List.mem_singleton.1 hk, rfl⟩
        · cases hk

/-- Refused input is recorded and acked. -/
theorem rejected_handled (ctx : ExecuteCtx) (rounds : Nat) (hidle : d.clients.Idle) (hov : ctx.overflowIds = [])
    (hn : (ctx.session.clients.map (·.id)).Nodup) (hch : ctx.session.clients[idx]? = some ch)
    (lockHolder : Option ClientId) (reason : InRejectedReason) (body : Bytes) (ack : RawAck) :
    ∃ clients, clients.Idle ∧ ∃ ctx',
      feedbackRounds W (rounds + 2)
        { d with clients := (d.clients.rejectInput ch.id ch.mode lockHolder reason body ack).1 }
        (d.clients.rejectInput ch.id ch.mode lockHolder reason body ack).2.effects ctx = ({ d with clients }, ctx') ∧
      RawHandled idx ch ctx.session ctx'.session ctx'.overflowIds ∧
      ctx'.session.ptyWrites = ctx.session.ptyWrites :=
  have hrec : ∀ e ∈ [(d.clients.emit (.record (.inRejected ch.id ch.mode lockHolder reason body))).2],
      e.isRecord = true := fun e he => by rw [List.mem_singleton.1 he]; rfl
  ack_handled (d := { d with clients := (d.clients.rejectInput ch.id ch.mode lockHolder reason body ack).1 })
    ctx rounds _ ack hov hn hch hidle.write rfl hrec

/-- Raw input is answered by one ack, or its sender goes; and it reaches the PTY only where the
sender may write and nobody else holds the lock. -/
theorem rawInput_handled {s : Session} (hidle : d.clients.Idle) (hn : (s.clients.map (·.id)).Nodup)
    (hch : s.clients[idx]? = some ch) (body : Bytes) (steps : List TtyStep) :
    ∃ clients, clients.Idle ∧ ∃ ctx',
      executeWithFeedbackCtx W (d.handle (.client (.rawDataReceived ch.id ch.mode body))).1
        (d.handle (.client (.rawDataReceived ch.id ch.mode body))).2 { session := s, tty := some steps } =
          ({ d with clients }, ctx') ∧
      RawHandled idx ch s ctx'.session ctx'.overflowIds ∧
      (ctx'.session.ptyWrites = s.ptyWrites ∨ MayWrite d.lock ch) := by
  rw [DaemonState.handle_rawData]
  unfold executeWithFeedbackCtx ClientRegistry.reduceRawData
  split
  · obtain ⟨clients, hi, ctx', heq, hraw, hpty⟩ :=
      rejected_handled (W := W) { session := s, tty := some steps } 6 hidle rfl hn hch _ _ body _
    exact ⟨clients, hi, ctx', heq, hraw, .inl hpty⟩
  · split
    · obtain ⟨clients, hi, ctx', heq, hraw, hpty⟩ :=
        rejected_handled (W := W) { session := s, tty := some steps } 6 hidle rfl hn hch _ _ body _
      exact ⟨clients, hi, ctx', heq, hraw, .inl hpty⟩
    · rename_i hro hlock
      have hmay : MayWrite d.lock ch := by
        refine ⟨hro, ?_⟩
        cases hh : d.lock.holder with
        | none => exact .inl rfl
        | some h =>
          right
          by_contra hne
          exact hlock ⟨by rw [hh]; rfl, by rw [hh]; exact hne⟩
      generalize hw : writeAllWithIdleTimeout body steps = w
      obtain ⟨clients, hi, ctx', heq, hraw, -⟩ := written_handled (W := W)
        (d := { d with clients := { d.clients with
          pendingWrite := some { seq := d.clients.nextEffectSeq, clientId := ch.id, bytes := body }
          nextEffectSeq := d.clients.nextEffectSeq + 1 } })
        { session := s.logs (.ptyWrite (body.take w.1)), tty := some steps } 5 _ body w.1 w.2 rfl hn hch rfl hidle.ack
      refine ⟨clients, hi, ctx', ?_, hraw.of_log _, .inr hmay⟩
      rw [← heq]
      simp only [maxFeedbackRounds, ClientRegistry.emit, feedbackRounds, ExecuteCtx.execute, ExecuteCtx.executeOne, hw,
        DaemonState.handleAll, List.append_nil]

end RawInput

end Hyoui.Daemon
