import Hyoui.Daemon.Rounds
import Hyoui.Daemon.Pristine
/-!
# What is recorded of raw input

The count of written bytes goes from the write loop through the outcome message to the reducer,
which cuts the request there. `ptyAccepts` are the bytes the PTY took, step by step; the records
and the ack of a request are compared with these.
-/

namespace Hyoui.Daemon

open Hyoui.Protocol Hyoui.Lib

/-! ## The bytes the PTY takes -/

/-- The bytes that reach the PTY while the write loop takes these steps. -/
def ptyAccepts (data : Bytes) : List TtyStep → Bytes
  | [] => data
  | step :: steps =>
    if data.isEmpty then []
    else match step with
      | .wrote 0 => []
      | .wrote (k + 1) =>
        let n := min (k + 1) data.length
        data.take n ++ ptyAccepts (data.drop n) steps
      | .interrupted => ptyAccepts data steps
      | .writable => ptyAccepts data steps
      | .idle => []
      | .hangup => []
      | .error _ => []

/-- The loop counts what the PTY took, and has no error exactly where that is all of it. -/
theorem writeAll_accepts (data : Bytes) (steps : List TtyStep) :
    ptyAccepts data steps = data.take (writeAllWithIdleTimeout data steps).1 ∧
      ((writeAllWithIdleTimeout data steps).2 = none ↔ (writeAllWithIdleTimeout data steps).1 = data.length) := by
  induction steps generalizing data with
  | nil => exact ⟨(List.take_length).symm, ⟨fun _ => rfl, fun _ => rfl⟩⟩
  | cons step steps ih =>
    unfold ptyAccepts writeAllWithIdleTimeout
    by_cases hempty : data.isEmpty = true
    · rw [if_pos hempty, if_pos hempty]
      rw [List.isEmpty_iff] at hempty
      rw [hempty]
      exact ⟨rfl, ⟨fun _ => rfl, fun _ => rfl⟩⟩
    · rw [if_neg hempty, if_neg hempty]
      -- a step that ends the loop leaves bytes unwritten
      have hstop : ∀ err : TtyWriteErrorKind, ([] : Bytes) = data.take 0 ∧ (some err = none ↔ 0 = data.length) := by
        intro err
        refine ⟨List.take_zero.symm, ⟨fun h => absurd h (Option.some_ne_none err), fun h => ?_⟩⟩
        exact absurd (List.isEmpty_iff_length_eq_zero.2 h.symm) hempty
      cases step with
      | wrote k =>
        cases k with
        | zero => exact hstop _
        | succ k =>
          obtain ⟨htake, herror⟩ := ih (data.drop (min (k + 1) data.length))
          have hle := writeAll_le (data.drop (min (k + 1) data.length)) steps
          rw [List.length_drop] at herror hle
          dsimp only
          constructor
          · rw [htake]
            exact List.take_add.symm
          · rw [herror]
            omega
      | interrupted => exact ih data
      | writable => exact ih data
      | idle => exact hstop _
      | hangup => exact hstop _
      | error errno => exact hstop _

/-! ## The effects of all rounds -/

section Executed

variable (W : World)

/-- The effects the feedback loop executes, round after round. -/
def executedEffects : Nat → DaemonState → List Effect → ExecuteCtx → List EffectKind
  | 0, _, _, _ => []
  | _, _, [], _ => []
  | rounds + 1, d, e :: es, ctx =>
    let (ctx, feedback) := ctx.execute W (e :: es)
    let (d, effects) := d.handleAll feedback
    (e :: es).map (·.kind) ++ executedEffects rounds d effects ctx

/-- What an executed effect puts on the log, the PTY taking `steps`. -/
def EffectKind.logged (steps : List TtyStep) : EffectKind → Log
  | .ttyWrite bytes => [.ptyWrite (ptyAccepts bytes steps)]
  | .record entry => [.push (recordEvent entry)]
  | _ => []

variable {W} {d : DaemonState} {ctx : ExecuteCtx} {steps : List TtyStep} {es : List Effect}

theorem sendIgnoring_log (s : Session) (idx : Nat) (send : ClientHandle → ClientHandle × Option EnqueueOutcome) :
    (s.sendIgnoring idx send).1.log = s.log := by
  unfold Session.sendIgnoring
  split
  · rfl
  · dsimp only
    split <;> rfl

theorem sendTo_log (ctx : ExecuteCtx) (id : ClientId) (send : ClientHandle → ClientHandle × Option EnqueueOutcome) :
    (ctx.sendTo id send).1.session.log = ctx.session.log := by
  unfold ExecuteCtx.sendTo
  split
  · rfl
  · exact sendIgnoring_log _ _ _

theorem executeOne_log (htty : ctx.tty = some steps) (kind : EffectKind) :
    (ctx.executeOne W kind).1.session.log = ctx.session.log ++ kind.logged steps := by
  cases kind with
  | ttyWrite bytes =>
    simp only [ExecuteCtx.executeOne, htty, EffectKind.logged, (writeAll_accepts bytes steps).1]
    rfl
  | clientReply id message => exact (sendTo_log ctx id _).trans (List.append_nil _).symm
  | clientBroadcast message => exact (List.append_nil _).symm
  | clientRawAck id ack => exact (sendTo_log ctx id _).trans (List.append_nil _).symm
  | clientDisconnect id => exact (List.append_nil _).symm
  | record entry =>
    have hsome : ctx.tty.isSome = true := by rw [htty]; rfl
    simp only [ExecuteCtx.executeOne, if_pos hsome, EffectKind.logged]
    rfl

theorem execute_log (ctx : ExecuteCtx) (htty : ctx.tty = some steps) (es : List Effect) :
    (ctx.execute W es).1.session.log = ctx.session.log ++ (es.map (·.kind)).flatMap (·.logged steps) := by
  induction es generalizing ctx with
  | nil => exact (List.append_nil _).symm
  | cons e es ih =>
    have hsome : ctx.tty.isSome = true := by rw [htty]; rfl
    have hsame := (executeOne_mayReport (W := W) hsome e.kind).1
    have hrest := ih (ctx.executeOne W e.kind).1 (hsame.trans htty)
    refine hrest.trans ?_
    rw [executeOne_log htty, List.map_cons, List.flatMap_cons, List.append_assoc]

/-- The log grows by what the executed effects put on it, and by nothing else. -/
theorem feedbackRounds_log (k : Nat) (d : DaemonState) (es : List Effect) (ctx : ExecuteCtx) (htty : ctx.tty = some steps) :
    (feedbackRounds W k d es ctx).2.session.log =
      ctx.session.log ++ (executedEffects W k d es ctx).flatMap (·.logged steps) := by
  induction k generalizing d es ctx with
  | zero => exact (List.append_nil _).symm
  | succ k ih =>
    cases es with
    | nil => exact (List.append_nil _).symm
    | cons e es =>
      have hsome : ctx.tty.isSome = true := by rw [htty]; rfl
      have hsame := (execute_reports (W := W) ctx hsome (e :: es)).1
      simp only [feedbackRounds, executedEffects, List.flatMap_append]
      rw [ih _ _ _ (hsame.trans htty), execute_log ctx htty, List.append_assoc]

end Executed

/-! ## One request -/

/-- The request that a `BytesIn` record is about, and its bytes. -/
def EffectKind.bytesIn : EffectKind → Option (ClientId × Bytes)
  | .record (.bytesIn id bytes) => some (id, bytes)
  | _ => none

/-- What an `InWriteError` record says was asked for, was written, and was not. -/
def EffectKind.inWriteError : EffectKind → Option (ClientId × Nat × Nat × Bytes)
  | .record (.inWriteError id requested written _ unwritten) => some (id, requested, written, unwritten)
  | _ => none

def EffectKind.rawAck : EffectKind → Option (ClientId × RawAckResult)
  | .clientRawAck id ack => some (id, ack.result)
  | _ => none

def EffectKind.ttyWrite? : EffectKind → Option Bytes
  | .ttyWrite bytes => some bytes
  | _ => none

/-- The records and the ack of a request of which the PTY took `accepted`. -/
structure InputRecorded (id : ClientId) (body accepted : Bytes) (kinds : List EffectKind) : Prop where
  once : kinds.filterMap (·.ttyWrite?) = [body]
  taken : accepted <+: body
  written : kinds.filterMap (·.bytesIn) = if accepted = [] then [] else [(id, accepted)]
  unwritten : kinds.filterMap (·.inWriteError) =
    if accepted = body then [] else [(id, body.length, accepted.length, body.drop accepted.length)]
  acked : kinds.filterMap (·.rawAck) = [(id, if accepted = body then .ok else .error)]

/-- A request that was refused reaches neither the PTY nor the records of what did. -/
structure InputRefused (id : ClientId) (kinds : List EffectKind) : Prop where
  unwritten : kinds.filterMap (·.ttyWrite?) = []
  unrecorded : kinds.filterMap (·.bytesIn) = [] ∧ kinds.filterMap (·.inWriteError) = []
  acked : kinds.filterMap (·.rawAck) = [(id, .error)]

section Request

variable {W : World} {d : DaemonState} {ctx : ExecuteCtx} {es : List Effect} {id : ClientId}

theorem executedEffects_step (k : Nat) (d : DaemonState) (ctx : ExecuteCtx) (h : es ≠ []) :
    executedEffects W (k + 1) d es ctx = es.map (·.kind) ++
      executedEffects W k (d.handleAll (ctx.execute W es).2).1 (d.handleAll (ctx.execute W es).2).2 (ctx.execute W es).1 := by
  cases es with
  | nil => exact absurd rfl h
  | cons e es => rfl

/-- Effects that nothing waits for are the last ones. -/
theorem executed_closing (k : Nat) (ctx : ExecuteCtx) (htty : ctx.tty.isSome = true) (hidle : d.clients.Idle) :
    executedEffects W (k + 1) d es ctx = es.map (·.kind) := by
  by_cases hes : es = []
  · rw [hes]
    rfl
  · have hreports := (execute_reports (W := W) ctx htty es).2
    rw [executedEffects_step _ _ _ hes, handleAll_idle hidle hreports.results]
    cases k with
    | zero => exact List.append_nil _
    | succ k => exact List.append_nil _

/-- After records and an ack at most the sender goes. -/
theorem executed_acking (k : Nat) (ctx : ExecuteCtx) (htty : ctx.tty.isSome = true) {records : List Effect} {seq : Nat}
    {ack : RawAck} (hw : d.clients.pendingWrite = none)
    (ha : d.clients.pendingAck = some { seq, clientId := id }) (hrec : ∀ e ∈ records, e.isRecord = true) :
    ∃ last, (last = [] ∨ last = [.clientDisconnect id]) ∧
      executedEffects W (k + 2) d (records ++ [{ id := { domain := .client, seq }, kind := .clientRawAck id ack }]) ctx =
        records.map (·.kind) ++ [.clientRawAck id ack] ++ last := by
  obtain ⟨htty', hreports⟩ := execute_reports (W := W) ctx htty
    (records ++ [{ id := { domain := .client, seq }, kind := .clientRawAck id ack }])
  have hloud : ¬ (EffectKind.clientRawAck id ack).MayReport none := fun h => h
  obtain ⟨o, -, hmsgs⟩ := Reports.after_records hrec hloud hreports
  rw [executedEffects_step _ _ _ (by simp), hmsgs, List.map_append, List.map_singleton]
  simp only [DaemonState.handleAll, DaemonState.handle_clientResult, List.append_nil, ClientRegistry.reduceEffectResult,
    hw, ha, Option.filter_none, Option.filter_some, decide_true, if_true]
  split
  · exact ⟨[], .inl rfl, rfl⟩
  · refine ⟨[.clientDisconnect id], .inr rfl, ?_⟩
    rw [executed_closing k _ (by rw [htty']; exact htty) ⟨rfl, rfl⟩]
    rfl

/-- What the reducer makes of the outcome of a write. -/
theorem finishWrite_kinds (s : ClientRegistry) (pw : PendingWrite) (written requested : Nat)
    (error : Option TtyWriteErrorKind) :
    (s.finishWrite pw (.ttyWrite written requested error)).2.effects.map (·.kind) =
      ClientRegistry.writeRecords pw written requested error ++
        if error.isNone ∧ written = requested then [.clientRawAck pw.clientId .ok]
        else [.clientRawAck pw.clientId (ClientRegistry.failedWriteAck written requested error)] ++
          (if error = some .idleTimeout then
            [.clientReply pw.clientId (.error { code := .masterWriteTimeout,
                                                message := ClientRegistry.timeoutText written requested })]
          else []) ++ [.clientDisconnect pw.clientId] := by
  simp only [ClientRegistry.finishWrite]
  split
  · rw [List.map_append, (emitAll_spec _ _).2]
    rfl
  · rw [List.map_append, (emitAll_spec _ _).2, (emitAll_spec _ _).2]

/-- The rounds after the write: the reducer's effects, and at most the sender goes. -/
theorem executed_finish (k : Nat) (ctx : ExecuteCtx) (htty : ctx.tty.isSome = true) (s : ClientRegistry) (hidle : s.Idle)
    (lock : LockState) (pw : PendingWrite) (written requested : Nat) (error : Option TtyWriteErrorKind) :
    ∃ last, (last = [] ∨ last = [.clientDisconnect pw.clientId]) ∧
      executedEffects W (k + 2) { clients := (s.finishWrite pw (.ttyWrite written requested error)).1, lock }
          (s.finishWrite pw (.ttyWrite written requested error)).2.effects ctx =
        (s.finishWrite pw (.ttyWrite written requested error)).2.effects.map (·.kind) ++ last := by
  simp only [ClientRegistry.finishWrite]
  obtain ⟨⟨n, hemit⟩, -⟩ := emitAll_spec s (ClientRegistry.writeRecords pw written requested error)
  have hrec : ∀ e ∈ (s.emitAll (ClientRegistry.writeRecords pw written requested error)).2, e.isRecord = true := by
    intro e he
    obtain ⟨entry, hk⟩ := writeRecords_isRecord pw written requested error (emitAll_mem he)
    rw [Effect.isRecord, hk]
  split
  · have hw : (s.emitAll (ClientRegistry.writeRecords pw written requested error)).1.pendingWrite = none := by
      rw [hemit]
      exact hidle.write
    rw [List.map_append]
    exact executed_acking k ctx htty hw rfl hrec
  · generalize ([.clientRawAck pw.clientId (ClientRegistry.failedWriteAck written requested error)] ++
      (if error = some .idleTimeout then _ else []) ++ [.clientDisconnect pw.clientId] : List EffectKind) = rest
    obtain ⟨⟨m, hemit'⟩, -⟩ := emitAll_spec
      (s.emitAll (ClientRegistry.writeRecords pw written requested error)).1 rest
    refine ⟨[], .inl rfl, ?_⟩
    rw [List.append_nil]
    apply executed_closing (k + 1) ctx htty
    rw [hemit', hemit]
    exact ⟨hidle.write, hidle.ack⟩

theorem filterMap_writeRecords (pw : PendingWrite) (written requested : Nat) (error : Option TtyWriteErrorKind) :
    (ClientRegistry.writeRecords pw written requested error).filterMap (·.ttyWrite?) = [] ∧
      (ClientRegistry.writeRecords pw written requested error).filterMap (·.bytesIn) =
        (if written > 0 then [(pw.clientId, pw.bytes.take written)] else []) ∧
      (ClientRegistry.writeRecords pw written requested error).filterMap (·.inWriteError) =
        (if error = none then [] else [(pw.clientId, requested, written, pw.bytes.drop written)]) ∧
      (ClientRegistry.writeRecords pw written requested error).filterMap (·.rawAck) = [] := by
  unfold ClientRegistry.writeRecords
  cases error with
  | none => split <;> exact ⟨rfl, rfl, rfl, rfl⟩
  | some err => split <;> exact ⟨rfl, rfl, rfl, rfl⟩

/-- What follows the records: one ack, of success or not. -/
theorem filterMap_answer (pw : PendingWrite) (written requested : Nat) (error : Option TtyWriteErrorKind) :
    ∀ answer : List EffectKind, answer = (if error.isNone ∧ written = requested then [.clientRawAck pw.clientId .ok]
        else [.clientRawAck pw.clientId (ClientRegistry.failedWriteAck written requested error)] ++
          (if error = some .idleTimeout then
            [.clientReply pw.clientId (.error { code := .masterWriteTimeout,
                                                message := ClientRegistry.timeoutText written requested })]
          else []) ++ [.clientDisconnect pw.clientId]) →
      answer.filterMap (·.ttyWrite?) = [] ∧ answer.filterMap (·.bytesIn) = [] ∧
        answer.filterMap (·.inWriteError) = [] ∧ answer.filterMap (·.rawAck) =
          [(pw.clientId, if error.isNone ∧ written = requested then .ok else .error)] := by
  rintro _ rfl
  have hfailed : (ClientRegistry.failedWriteAck written requested error).result = .error := by
    unfold ClientRegistry.failedWriteAck
    split <;> rfl
  split
  · exact ⟨rfl, rfl, rfl, rfl⟩
  · split <;> simp [EffectKind.ttyWrite?, EffectKind.bytesIn, EffectKind.inWriteError, EffectKind.rawAck, hfailed]

/-- What became of a request that may be written, as the PTY took it. -/
theorem written_recorded (pw : PendingWrite) (steps : List TtyStep) (last : List EffectKind)
    (hlast : last = [] ∨ last = [.clientDisconnect pw.clientId]) (s : ClientRegistry) :
    InputRecorded pw.clientId pw.bytes (ptyAccepts pw.bytes steps)
      ([.ttyWrite pw.bytes] ++ ((s.finishWrite pw (.ttyWrite (writeAllWithIdleTimeout pw.bytes steps).1 pw.bytes.length
        (writeAllWithIdleTimeout pw.bytes steps).2)).2.effects.map (·.kind) ++ last)) := by
  obtain ⟨htake, herror⟩ := writeAll_accepts pw.bytes steps
  have hle := writeAll_le pw.bytes steps
  rw [finishWrite_kinds]
  generalize writeAllWithIdleTimeout pw.bytes steps = w at htake herror hle
  obtain ⟨written, error⟩ := w
  dsimp only at htake herror hle ⊢
  obtain ⟨hwrite, hin, herr, hack⟩ := filterMap_writeRecords pw written pw.bytes.length error
  obtain ⟨hwrite', hin', herr', hack'⟩ := filterMap_answer pw written pw.bytes.length error _ rfl
  have hlen : (ptyAccepts pw.bytes steps).length = written := by
    rw [htake, List.length_take]
    omega
  -- the two ways to say that all of it was written
  have hall : ptyAccepts pw.bytes steps = pw.bytes ↔ written = pw.bytes.length := by
    constructor
    · intro h
      rw [← hlen, h]
    · rintro rfl
      rw [htake, List.take_length]
  have hnone : ptyAccepts pw.bytes steps = [] ↔ ¬ written > 0 := by
    rw [← List.length_eq_zero_iff, hlen]
    omega
  have hquiet : last.filterMap (·.ttyWrite?) = [] ∧ last.filterMap (·.bytesIn) = [] ∧
      last.filterMap (·.inWriteError) = [] ∧ last.filterMap (·.rawAck) = [] := by
    rcases hlast with rfl | rfl <;> exact ⟨rfl, rfl, rfl, rfl⟩
  constructor
  · rw [List.filterMap_append, List.filterMap_append, List.filterMap_append, hwrite, hwrite', hquiet.1]
    rfl
  · rw [htake]
    exact List.take_prefix _ _
  · rw [List.filterMap_append, List.filterMap_append, List.filterMap_append, hin, hin', hquiet.2.1, List.append_nil,
      List.append_nil, ← htake]
    by_cases hpos : written > 0
    · rw [if_pos hpos, if_neg (fun h => hnone.1 h hpos)]
      rfl
    · rw [if_neg hpos, if_pos (hnone.2 hpos)]
      rfl
  · rw [List.filterMap_append, List.filterMap_append, List.filterMap_append, herr, herr', hquiet.2.2.1, List.append_nil,
      List.append_nil, hlen]
    by_cases hwhole : written = pw.bytes.length
    · rw [if_pos (herror.2 hwhole), if_pos (hall.2 hwhole)]
      rfl
    · rw [if_neg (fun h => hwhole (herror.1 h)), if_neg (fun h => hwhole (hall.1 h))]
      rfl
  · rw [List.filterMap_append, List.filterMap_append, List.filterMap_append, hack, hack', hquiet.2.2.2, List.append_nil]
    by_cases hwhole : written = pw.bytes.length
    · rw [if_pos (hall.2 hwhole), if_pos ⟨Option.isNone_iff_eq_none.2 (herror.2 hwhole), hwhole⟩]
      rfl
    · rw [if_neg (fun h => hwhole (hall.1 h)), if_neg (fun h => hwhole h.2)]
      rfl

/-- A request that was refused. -/
theorem refused_recorded (s : ClientRegistry) (id : ClientId) (mode : Mode) (lockHolder : Option ClientId)
    (reason : InRejectedReason) (bytes : Bytes) (code message : String) (last : List EffectKind)
    (hlast : last = [] ∨ last = [.clientDisconnect id]) :
    InputRefused id ((s.rejectInput id mode lockHolder reason bytes (.err code message)).2.effects.map (·.kind) ++ last) := by
  rcases hlast with rfl | rfl <;> exact ⟨rfl, ⟨rfl, rfl⟩, rfl⟩

theorem executed_write (k : Nat) (ctx : ExecuteCtx) {steps : List TtyStep} (htty : ctx.tty = some steps)
    (s : ClientRegistry) (hidle : s.Idle) (lock : LockState) (seq : Nat) (body : Bytes) :
    ∃ last, (last = [] ∨ last = [.clientDisconnect id]) ∧
      executedEffects W (k + 3) { clients := { s with pendingWrite := some { seq, clientId := id, bytes := body } }, lock }
          [{ id := { domain := .client, seq }, kind := .ttyWrite body }] ctx =
        [.ttyWrite body] ++ ((s.finishWrite { seq, clientId := id, bytes := body }
          (.ttyWrite (writeAllWithIdleTimeout body steps).1 body.length
            (writeAllWithIdleTimeout body steps).2)).2.effects.map (·.kind) ++ last) := by
  have hfeedback : (ctx.execute W [{ id := { domain := .client, seq }, kind := .ttyWrite body }]).2 =
      [.effectResult { domain := .client, seq }
        (.ttyWrite (writeAllWithIdleTimeout body steps).1 body.length (writeAllWithIdleTimeout body steps).2)] := by
    simp only [ExecuteCtx.execute, ExecuteCtx.executeOne, htty]
  have hsome : ctx.tty.isSome = true := by rw [htty]; rfl
  have htty' := (execute_reports (W := W) ctx hsome [{ id := { domain := .client, seq }, kind := .ttyWrite body }]).1
  rw [executedEffects_step _ _ _ (List.cons_ne_nil _ _), hfeedback]
  simp only [DaemonState.handleAll, DaemonState.handle_clientResult, List.append_nil, ClientRegistry.reduceEffectResult,
    Option.filter_some, decide_true, if_true]
  have hs : ({ s with pendingWrite := none } : ClientRegistry) = s := by
    obtain ⟨hw, -⟩ := hidle
    cases s
    simp only at hw
    rw [hw]
  rw [hs]
  obtain ⟨last, hlast, heq⟩ := executed_finish (W := W) k
    (ctx.execute W [{ id := { domain := .client, seq }, kind := .ttyWrite body }]).1 (by rw [htty']; exact hsome) s hidle
    lock { seq, clientId := id, bytes := body } (writeAllWithIdleTimeout body steps).1 body.length
    (writeAllWithIdleTimeout body steps).2
  exact ⟨last, hlast, by rw [heq]; rfl⟩

/-- Raw input in any reachable state, whatever steps the write to the PTY takes: what is recorded is
what the PTY took and what it did not, and the ack says whether it took all. -/
theorem raw_input_recorded (h : Reached d) (id : ClientId) (mode : Mode) (body : Bytes) {steps : List TtyStep}
    (htty : ctx.tty = some steps) :
    let r := d.handle (.client (.rawDataReceived id mode body))
    let kinds := executedEffects W maxFeedbackRounds r.1 r.2 ctx
    (executeWithFeedbackCtx W r.1 r.2 ctx).2.session.log = ctx.session.log ++ kinds.flatMap (·.logged steps) ∧
      (writeAllWithIdleTimeout body steps).1 = (ptyAccepts body steps).length ∧
      if mode ≠ .ro ∧ (d.lock.holder = none ∨ d.lock.holder = some id)
      then InputRecorded id body (ptyAccepts body steps) kinds else InputRefused id kinds := by
  have hidle := h.idle
  have hsome : ctx.tty.isSome = true := by rw [htty]; rfl
  refine ⟨feedbackRounds_log _ _ _ ctx htty, ?_, ?_⟩
  · rw [(writeAll_accepts body steps).1, List.length_take]
    have hle := writeAll_le body steps
    omega
  rw [DaemonState.handle_rawData]
  -- a refusal is recorded and acked
  have hrefused : ∀ reason code message, InputRefused id (executedEffects W maxFeedbackRounds
      { d with clients := (d.clients.rejectInput id mode d.lock.holder reason body (.err code message)).1 }
      (d.clients.rejectInput id mode d.lock.holder reason body (.err code message)).2.effects ctx) := by
    intro reason code message
    have hrec : ∀ e ∈ [(d.clients.emit (.record (.inRejected id mode d.lock.holder reason body))).2],
        e.isRecord = true := by
      intro e he
      rw [List.mem_singleton.1 he]
      rfl
    have hw : ({ d with clients := (d.clients.rejectInput id mode d.lock.holder reason body (.err code message)).1 } :
        DaemonState).clients.pendingWrite = none := hidle.write
    obtain ⟨last, hlast, hrun⟩ : ∃ last, (last = [] ∨ last = [.clientDisconnect id]) ∧
        executedEffects W maxFeedbackRounds
            { d with clients := (d.clients.rejectInput id mode d.lock.holder reason body (.err code message)).1 }
            (d.clients.rejectInput id mode d.lock.holder reason body (.err code message)).2.effects ctx =
          (d.clients.rejectInput id mode d.lock.holder reason body (.err code message)).2.effects.map (·.kind) ++ last :=
      executed_acking (W := W) 6 ctx hsome hw rfl hrec
    rw [hrun]
    exact refused_recorded d.clients id mode d.lock.holder reason body code message last hlast
  by_cases hro : mode = .ro
  · have hreduce : d.clients.reduceRawData d.lock id mode body = d.clients.rejectInput id mode d.lock.holder .roClient body
        (.err codeClientRoRejected "client is read-only; input rejected by daemon") := if_pos hro
    rw [hreduce, if_neg fun hmay => hmay.1 hro]
    exact hrefused _ _ _
  · by_cases hlock : d.lock.holder.isSome ∧ d.lock.holder ≠ some id
    · have hreduce : d.clients.reduceRawData d.lock id mode body =
          d.clients.rejectInput id mode d.lock.holder .lockNotHeld body
            (.err codeClientLockNotHeld "lock is held by another client; input rejected") :=
        (if_neg hro).trans (if_pos hlock)
      rw [hreduce, if_neg]
      · exact hrefused _ _ _
      · rintro ⟨-, hnone | hself⟩
        · rw [hnone] at hlock
          exact Bool.false_ne_true hlock.1
        · exact hlock.2 hself
    · have hmay : mode ≠ .ro ∧ (d.lock.holder = none ∨ d.lock.holder = some id) := by
        refine ⟨hro, ?_⟩
        cases hholder : d.lock.holder with
        | none => exact .inl rfl
        | some other =>
          right
          by_contra hne
          exact hlock ⟨by rw [hholder]; rfl, by rw [hholder]; exact hne⟩
      have hreduce : d.clients.reduceRawData d.lock id mode body =
          ({ d.clients with
              pendingWrite := some { seq := d.clients.nextEffectSeq, clientId := id, bytes := body }
              nextEffectSeq := d.clients.nextEffectSeq + 1 },
            { effects := [{ id := { domain := .client, seq := d.clients.nextEffectSeq }, kind := .ttyWrite body }] }) :=
        (if_neg hro).trans (if_neg hlock)
      rw [hreduce, if_pos hmay]
      have hidle' : ({ d.clients with nextEffectSeq := d.clients.nextEffectSeq + 1 } : ClientRegistry).Idle :=
        ⟨hidle.write, hidle.ack⟩
      obtain ⟨last, hlast, hrun⟩ := executed_write (W := W) 5 ctx htty _ hidle' d.lock d.clients.nextEffectSeq body
      have hrecorded := written_recorded { seq := d.clients.nextEffectSeq, clientId := id, bytes := body } steps last
        hlast { d.clients with nextEffectSeq := d.clients.nextEffectSeq + 1 }
      rw [← hrun] at hrecorded
      exact hrecorded

/-- A PTY that takes one of the two bytes and then hangs up. -/
def hangupCtx : ExecuteCtx := { session := { scrollback := .new 16 }, tty := some [.wrote 1, .hangup] }

theorem raw_input_recorded_hangup :
    let r := ({} : DaemonState).handle (.client (.rawDataReceived 0 .rw [65, 66]))
    InputRecorded 0 [65, 66] [65] (executedEffects World.pristine maxFeedbackRounds r.1 r.2 hangupCtx) :=
  (raw_input_recorded (W := World.pristine) .init 0 .rw [65, 66] (rfl : hangupCtx.tty = some [.wrote 1, .hangup])).2.2

end Request

end Hyoui.Daemon
