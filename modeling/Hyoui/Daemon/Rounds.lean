import Hyoui.Daemon.Feedback
import Hyoui.Daemon.Pristine
/-!
# The rounds of the feedback loop

Effects are executed, what they report comes back to the reducer, and that may cause more
effects. Here an effect may report anything it can: a frame sent or not, a write to the PTY that
took some of the bytes, or failed. `Awaiting` bounds the rounds that are left by what the client
reducer still waits for; every round lowers the bound.
-/

namespace Hyoui.Daemon

open Hyoui.Protocol Hyoui.Lib

/-! ## What effects report -/

/-- The outcomes `execute` can report for an effect. -/
def EffectKind.MayReport : EffectKind → Option EffectOutcome → Prop
  | .ttyWrite bytes, some o =>
    (∃ written error, written ≤ bytes.length ∧ o = .ttyWrite written bytes.length error) ∨ o = .failed
  | .clientReply _ _, some o => o = .ok ∨ o = .failed
  | .clientBroadcast _, some o => o = .ok
  | .clientRawAck _ _, some o => o = .ok ∨ o = .failed
  | .clientDisconnect _, none => True
  | .record _, none => True
  | _, _ => False

/-- The feedback of a list of effects, in order. -/
inductive Reports : List Effect → List DaemonMsg → Prop
  | nil : Reports [] []
  | silent {e es msgs} : e.kind.MayReport none → Reports es msgs → Reports (e :: es) msgs
  | told {e es msgs o} : e.kind.MayReport (some o) → Reports es msgs →
      Reports (e :: es) (.effectResult e.id o :: msgs)

/-- `n` rounds of the loop of `execute_with_feedback_ctx`, whatever the effects report. -/
inductive Rounds : DaemonState → List Effect → Nat → DaemonState → List Effect → Prop
  | done (d es) : Rounds d es 0 d es
  | round {d es msgs n d' es'} : es ≠ [] → Reports es msgs →
      Rounds (d.handleAll msgs).1 (d.handleAll msgs).2 n d' es' → Rounds d es (n + 1) d' es'

/-- What arrives together: raw input alone, or messages that are no raw input. No outcome of an
effect comes from outside. -/
inductive Incoming : List DaemonMsg → Prop
  | raw (id : ClientId) (mode : Mode) (bytes : Bytes) : Incoming [.client (.rawDataReceived id mode bytes)]
  | other {msgs : List DaemonMsg} :
      (∀ msg ∈ msgs, (∃ id, msg = .client (.detached id)) ∨ ∃ m, msg = .lock m) → Incoming msgs

/-- The states of the reducer between two inputs: the loop ran until no effect was left. -/
inductive Reached : DaemonState → Prop
  | init : Reached {}
  | step {d msgs n d'} : Reached d → Incoming msgs →
      Rounds (d.handleAll msgs).1 (d.handleAll msgs).2 n d' [] → Reached d'

/-! ## The queue -/

/-- The lengths of the cross-domain queue after each message that `drive` dispatches. -/
def DaemonState.queueLengths : Nat → DaemonState → List DaemonMsg → List Nat
  | 0, _, _ | _, _, [] => []
  | fuel + 1, d, msg :: queue =>
    let queue := queue ++ (d.dispatch msg).2.cross
    queue.length :: queueLengths fuel (d.dispatch msg).1 queue

theorem DaemonState.queueLengths_nil (fuel : Nat) (d : DaemonState) : d.queueLengths fuel [] = [] := by
  cases fuel <;> rfl

/-- At most the one follow-up of a `detached` is ever queued. -/
theorem DaemonState.queueLengths_le (fuel : Nat) (d : DaemonState) (msg : DaemonMsg) {n : Nat}
    (h : n ∈ d.queueLengths fuel [msg]) : n ≤ 1 := by
  have hstop : ∀ fuel (d : DaemonState) msg, (d.dispatch msg).2.cross = [] → ∀ n ∈ d.queueLengths fuel [msg], n = 0 := by
    intro fuel d msg hcross n hn
    cases fuel with
    | zero => cases hn
    | succ fuel =>
      simp only [queueLengths, hcross, List.append_nil, queueLengths_nil, List.length_nil, List.mem_singleton] at hn
      exact hn
  rcases d.dispatch_cross msg with hcross | ⟨id, rfl⟩
  · rw [hstop fuel d msg hcross n h]
    exact Nat.zero_le 1
  · cases fuel with
    | zero => cases h
    | succ fuel =>
      simp only [queueLengths, dispatch, ClientRegistry.reduce, List.nil_append, List.mem_cons] at h
      rcases h with rfl | h
      · exact le_refl 1
      · rw [hstop fuel _ _ rfl n h]
        exact Nat.zero_le 1

/-! ## What the reducer waits for -/

/-- A bound on the rounds left, by what the client reducer waits for. -/
inductive Awaiting : DaemonState → List Effect → Nat → Prop
  | settled {d} : d.clients.Idle → Awaiting d [] 0
  | closing {d es} : d.clients.Idle → Awaiting d es 1
  | acking {d records seq id ack} : d.clients.pendingWrite = none →
      d.clients.pendingAck = some { seq, clientId := id } → (∀ e ∈ records, e.isRecord = true) →
      Awaiting d (records ++ [{ id := { domain := .client, seq }, kind := .clientRawAck id ack }]) 2
  | writing {d seq id bytes} : d.clients.pendingWrite = some { seq, clientId := id, bytes } →
      d.clients.pendingAck = none →
      Awaiting d [{ id := { domain := .client, seq }, kind := .ttyWrite bytes }] 3

section Rounds

variable {d d' : DaemonState} {es es' : List Effect} {msgs : List DaemonMsg} {n bound : Nat}

theorem Reports.results (h : Reports es msgs) : ∀ msg ∈ msgs, ∃ id outcome, msg = .effectResult id outcome := by
  induction h with
  | nil => exact fun _ hmsg => absurd hmsg List.not_mem_nil
  | silent _ _ ih => exact ih
  | told _ _ ih =>
    intro msg hmsg
    rcases List.mem_cons.1 hmsg with rfl | hmsg
    · exact ⟨_, _, rfl⟩
    · exact ih msg hmsg

/-- Records report nothing, so only the effect after them does. -/
theorem Reports.after_records {records : List Effect} {e : Effect} (hrec : ∀ e ∈ records, e.isRecord = true)
    (hloud : ¬ e.kind.MayReport none) (h : Reports (records ++ [e]) msgs) :
    ∃ o, e.kind.MayReport (some o) ∧ msgs = [.effectResult e.id o] := by
  induction records with
  | nil =>
    cases h with
    | silent hsilent _ => exact absurd hsilent hloud
    | told htold hrest =>
      cases hrest
      exact ⟨_, htold, rfl⟩
  | cons r records ih =>
    have hr := hrec r List.mem_cons_self
    cases h with
    | silent _ hrest => exact ih (fun e he => hrec e (List.mem_cons_of_mem r he)) hrest
    | told htold _ =>
      obtain ⟨rid, kind⟩ := r
      cases kind <;> simp only [Effect.isRecord, Bool.false_eq_true] at hr
      exact absurd htold id

/-- The outcome of the write: an ack to send, or a client to drop. -/
theorem finishWrite_awaiting (pw : PendingWrite) (outcome : EffectOutcome) (clients : ClientRegistry)
    (hidle : clients.Idle) (lock : LockState) :
    ∃ m < 3, Awaiting { clients := (clients.finishWrite pw outcome).1, lock }
      (clients.finishWrite pw outcome).2.effects m := by
  cases outcome with
  | ok => exact ⟨1, by decide, .closing ⟨hidle.write, hidle.ack⟩⟩
  | failed => exact ⟨1, by decide, .closing ⟨hidle.write, hidle.ack⟩⟩
  | ttyWrite written requested error =>
    simp only [ClientRegistry.finishWrite]
    obtain ⟨⟨k, hemit⟩, -⟩ := emitAll_spec clients (ClientRegistry.writeRecords pw written requested error)
    have hrec : ∀ e ∈ (clients.emitAll (ClientRegistry.writeRecords pw written requested error)).2, e.isRecord = true := by
      intro e he
      obtain ⟨entry, hk⟩ := writeRecords_isRecord pw written requested error (emitAll_mem he)
      rw [Effect.isRecord, hk]
    split
    · refine ⟨2, by decide, .acking ?_ rfl hrec⟩
      rw [hemit]
      exact hidle.write
    · refine ⟨1, by decide, .closing ?_⟩
      generalize ([.clientRawAck pw.clientId (ClientRegistry.failedWriteAck written requested error)] ++
        (if error = some .idleTimeout then _ else []) ++ [.clientDisconnect pw.clientId] : List EffectKind) = rest
      obtain ⟨⟨k', hemit'⟩, -⟩ := emitAll_spec
        (clients.emitAll (ClientRegistry.writeRecords pw written requested error)).1 rest
      rw [hemit', hemit]
      exact ⟨hidle.write, hidle.ack⟩

/-- Every round lowers the bound. -/
theorem Awaiting.round (h : Awaiting d es bound) (hes : es ≠ []) (hr : Reports es msgs) :
    ∃ m < bound, Awaiting (d.handleAll msgs).1 (d.handleAll msgs).2 m := by
  cases h with
  | settled => exact absurd rfl hes
  | closing hidle =>
    rw [handleAll_idle hidle hr.results]
    exact ⟨0, by decide, .settled hidle⟩
  | acking hwrite hack hrec =>
    obtain ⟨o, -, rfl⟩ := hr.after_records hrec id
    simp only [DaemonState.handleAll, DaemonState.handle_clientResult, List.append_nil,
      ClientRegistry.reduceEffectResult, hwrite, hack, Option.filter_none, Option.filter_some, decide_true, if_true]
    split
    · exact ⟨0, by decide, .settled ⟨rfl, rfl⟩⟩
    · exact ⟨1, by decide, .closing ⟨rfl, rfl⟩⟩
  | writing hwrite hack =>
    have hnone : ∀ e ∈ ([] : List Effect), e.isRecord = true := fun e he => absurd he List.not_mem_nil
    obtain ⟨o, -, rfl⟩ := Reports.after_records hnone id hr
    simp only [DaemonState.handleAll, DaemonState.handle_clientResult, List.append_nil,
      ClientRegistry.reduceEffectResult, hwrite, Option.filter_some, decide_true, if_true]
    exact finishWrite_awaiting _ o { d.clients with pendingWrite := none } ⟨rfl, hack⟩ d.lock

theorem Awaiting.rounds (hrun : Rounds d es n d' es') (h : Awaiting d es bound) :
    ∃ m, m + n ≤ bound ∧ Awaiting d' es' m := by
  induction hrun generalizing bound with
  | done => exact ⟨bound, le_refl bound, h⟩
  | round hes hr _ ih =>
    obtain ⟨m, hm, hnext⟩ := h.round hes hr
    obtain ⟨m', hm', hlast⟩ := ih hnext
    exact ⟨m', by omega, hlast⟩

/-- Where no effect is left, nothing is waited for. -/
theorem Awaiting.idle (h : Awaiting d [] bound) : d.clients.Idle := by
  generalize hes : ([] : List Effect) = es at h
  cases h with
  | settled hidle => exact hidle
  | closing hidle => exact hidle
  | acking => exact absurd hes.symm (List.append_ne_nil_of_right_ne_nil _ (List.cons_ne_nil _ _))
  | writing => cases hes

end Rounds

/-! ## From one input to the next -/

section Settles

variable {d : DaemonState} {msgs : List DaemonMsg}

theorem handleAll_clients (h : ∀ msg ∈ msgs, (∃ id, msg = .client (.detached id)) ∨ ∃ m, msg = .lock m) :
    (d.handleAll msgs).1.clients = d.clients := by
  induction msgs generalizing d with
  | nil => rfl
  | cons msg msgs ih =>
    have hrest := fun m hm => h m (List.mem_cons_of_mem msg hm)
    have hone : (d.handle msg).1.clients = d.clients := by
      rcases h msg List.mem_cons_self with ⟨id, rfl⟩ | ⟨m, rfl⟩
      · rw [DaemonState.handle_detached]
      · rw [DaemonState.handle_of_cross rfl]
        rfl
    exact (ih hrest).trans hone

theorem rawData_awaiting (hidle : d.clients.Idle) (id : ClientId) (mode : Mode) (bytes : Bytes) :
    ∃ m ≤ 3, Awaiting (d.handle (.client (.rawDataReceived id mode bytes))).1
      (d.handle (.client (.rawDataReceived id mode bytes))).2 m := by
  have hreject : ∀ reason ack, ∃ m ≤ 3, Awaiting
      { d with clients := (d.clients.rejectInput id mode d.lock.holder reason bytes ack).1 }
      (d.clients.rejectInput id mode d.lock.holder reason bytes ack).2.effects m := by
    intro reason ack
    have hrec : ∀ e ∈ [(d.clients.emit (.record (.inRejected id mode d.lock.holder reason bytes))).2],
        e.isRecord = true := by
      intro e he
      rw [List.mem_singleton.1 he]
      rfl
    have hwrite : ({ d with clients := (d.clients.rejectInput id mode d.lock.holder reason bytes ack).1 } :
        DaemonState).clients.pendingWrite = none := hidle.write
    exact ⟨2, by decide, .acking hwrite rfl hrec⟩
  rw [DaemonState.handle_rawData]
  unfold ClientRegistry.reduceRawData
  split
  · exact hreject _ _
  · split
    · exact hreject _ _
    · exact ⟨3, le_refl 3, .writing rfl hidle.ack⟩

theorem incoming_awaiting (hidle : d.clients.Idle) (hm : Incoming msgs) :
    ∃ m ≤ 3, Awaiting (d.handleAll msgs).1 (d.handleAll msgs).2 m := by
  cases hm with
  | raw id mode bytes =>
    simp only [DaemonState.handleAll, List.append_nil]
    exact rawData_awaiting hidle id mode bytes
  | other hother =>
    refine ⟨1, by decide, .closing ?_⟩
    rw [handleAll_clients hother]
    exact hidle

theorem Reached.idle (h : Reached d) : d.clients.Idle := by
  induction h with
  | init => exact idle_initial
  | step _ hm hrun ih =>
    obtain ⟨bound, -, hawait⟩ := incoming_awaiting ih hm
    obtain ⟨m, -, hlast⟩ := hawait.rounds hrun
    exact hlast.idle

/-! ## The loop of the model -/

theorem writeAll_le (data : Bytes) (steps : List TtyStep) : (writeAllWithIdleTimeout data steps).1 ≤ data.length := by
  induction steps generalizing data with
  | nil => exact le_refl _
  | cons step steps ih =>
    unfold writeAllWithIdleTimeout
    split
    · exact Nat.zero_le _
    · cases step with
      | wrote k =>
        cases k with
        | zero => exact Nat.zero_le _
        | succ k =>
          have hrest := ih (data.drop (min (k + 1) data.length))
          rw [List.length_drop] at hrest
          dsimp only
          omega
      | interrupted => exact ih data
      | writable => exact ih data
      | idle => exact Nat.zero_le _
      | hangup => exact Nat.zero_le _
      | error errno => exact Nat.zero_le _

variable {W : World} {ctx : ExecuteCtx}

theorem sendTo_tty (id : ClientId) (send : ClientHandle → ClientHandle × Option EnqueueOutcome) :
    (ctx.sendTo id send).1.tty = ctx.tty ∧ ((ctx.sendTo id send).2 = .ok ∨ (ctx.sendTo id send).2 = .failed) := by
  unfold ExecuteCtx.sendTo
  split
  · exact ⟨rfl, .inr rfl⟩
  · refine ⟨rfl, ?_⟩
    dsimp only
    unfold replyOutcome
    split
    · exact .inl rfl
    · exact .inr rfl

/-- With a PTY at hand an effect reports what it may. -/
theorem executeOne_mayReport (htty : ctx.tty.isSome = true) (kind : EffectKind) :
    (ctx.executeOne W kind).1.tty = ctx.tty ∧ kind.MayReport (ctx.executeOne W kind).2 := by
  cases kind with
  | ttyWrite bytes =>
    obtain ⟨steps, hsteps⟩ := Option.isSome_iff_exists.1 htty
    simp only [ExecuteCtx.executeOne, hsteps]
    exact ⟨trivial, .inl ⟨_, _, writeAll_le bytes steps, rfl⟩⟩
  | clientReply id message => exact sendTo_tty id _
  | clientBroadcast message => exact ⟨rfl, rfl⟩
  | clientRawAck id ack => exact sendTo_tty id _
  | clientDisconnect id => exact ⟨rfl, trivial⟩
  | record entry =>
    simp only [ExecuteCtx.executeOne, if_pos htty]
    exact ⟨trivial, trivial⟩

theorem execute_reports (ctx : ExecuteCtx) (htty : ctx.tty.isSome = true) (es : List Effect) :
    (ctx.execute W es).1.tty = ctx.tty ∧ Reports es (ctx.execute W es).2 := by
  induction es generalizing ctx with
  | nil => exact ⟨rfl, .nil⟩
  | cons e es ih =>
    obtain ⟨hsame, hreport⟩ := executeOne_mayReport (W := W) htty e.kind
    obtain ⟨hsame', hrest⟩ := ih (ctx.executeOne W e.kind).1 (by rw [hsame]; exact htty)
    refine ⟨hsame'.trans hsame, ?_⟩
    simp only [ExecuteCtx.execute]
    split
    · rename_i o ho
      rw [ho] at hreport
      exact .told hreport hrest
    · rename_i ho
      rw [ho] at hreport
      exact .silent hreport hrest

/-- The loop does these rounds, and never runs out of them. -/
theorem feedbackRounds_rounds (ctx : ExecuteCtx) (htty : ctx.tty.isSome = true) {es : List Effect} {bound : Nat}
    (h : Awaiting d es bound) (k : Nat) (hk : bound ≤ k) : ∃ n ≤ bound, Rounds d es n (feedbackRounds W k d es ctx).1 [] := by
  induction k generalizing d es bound ctx with
  | zero =>
    cases h with
    | settled => exact ⟨0, le_refl 0, .done _ _⟩
    | closing => omega
    | acking => omega
    | writing => omega
  | succ k ih =>
    cases es with
    | nil => exact ⟨0, Nat.zero_le _, .done _ _⟩
    | cons e es =>
      obtain ⟨htty', hreports⟩ := execute_reports (W := W) ctx htty (e :: es)
      obtain ⟨m, hm, hnext⟩ := h.round (List.cons_ne_nil e es) hreports
      obtain ⟨n, hn, hrun⟩ := ih (ctx.execute W (e :: es)).1 (by rw [htty']; exact htty) hnext (by omega)
      exact ⟨n + 1, by omega, .round (List.cons_ne_nil e es) hreports hrun⟩

/-- In every reachable state every input settles, whatever its effects report: no write is pending
when raw input arrives, the rounds stay under their limit and the queue under its own, and where
no effect is left nothing is pending. -/
theorem feedback_settles (h : Reached d) (hm : Incoming msgs) :
    (∀ id mode bytes, .client (.rawDataReceived id mode bytes) ∈ msgs → d.clients.pendingWrite = none) ∧
      (∀ n d' es', Rounds (d.handleAll msgs).1 (d.handleAll msgs).2 n d' es' →
        n < maxFeedbackRounds ∧ (es' = [] → d'.clients.Idle)) ∧
      (∀ (W : World) (ctx : ExecuteCtx), ctx.tty.isSome = true → ∃ n < maxFeedbackRounds,
        Rounds (d.handleAll msgs).1 (d.handleAll msgs).2 n
          (executeWithFeedbackCtx W (d.handleAll msgs).1 (d.handleAll msgs).2 ctx).1 []) ∧
      ∀ (d : DaemonState) (msg : DaemonMsg) (fuel : Nat), ∀ n ∈ d.queueLengths fuel [msg], n ≤ maxCrossDomainDepth := by
  obtain ⟨bound, hbound, hawait⟩ := incoming_awaiting h.idle hm
  refine ⟨fun _ _ _ _ => h.idle.write, ?_, ?_, ?_⟩
  · intro n d' es' hrun
    obtain ⟨m, hle, hlast⟩ := hawait.rounds hrun
    constructor
    · rw [maxFeedbackRounds]
      omega
    · rintro rfl
      exact hlast.idle
  · intro W ctx htty
    have hfuel : bound ≤ maxFeedbackRounds := le_trans hbound (by decide)
    obtain ⟨n, hn, hrun⟩ := feedbackRounds_rounds (W := W) ctx htty hawait maxFeedbackRounds hfuel
    exact ⟨n, lt_of_le_of_lt (le_trans hn hbound) (by decide), hrun⟩
  · intro d msg fuel n hn
    exact le_trans (d.queueLengths_le fuel msg hn) (by decide)

/-- A byte that the PTY takes at once settles within the limit. -/
theorem feedback_settles_input :
    ∃ n < maxFeedbackRounds,
      Rounds (({} : DaemonState).handleAll [.client (.rawDataReceived 0 .rw [65])]).1
        (({} : DaemonState).handleAll [.client (.rawDataReceived 0 .rw [65])]).2 n
        (executeWithFeedbackCtx World.pristine (({} : DaemonState).handleAll [.client (.rawDataReceived 0 .rw [65])]).1
          (({} : DaemonState).handleAll [.client (.rawDataReceived 0 .rw [65])]).2
          { session := Session.initial {} 0 [] {}, tty := some [.wrote 1] }).1 [] :=
  (feedback_settles .init (.raw 0 .rw [65])).2.2.1 World.pristine
    { session := Session.initial {} 0 [] {}, tty := some [.wrote 1] } rfl

end Settles

end Hyoui.Daemon
