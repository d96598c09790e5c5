import Hyoui.Daemon.Journal
import Hyoui.Daemon.Murmurs
/-!
# The handlers retold

What a handler logs tells a journal all that it did to the session. Frames to the clients are silent;
the entries about a client are read because the client is attached, and because of the checks the
handler made.
-/

namespace Hyoui.Daemon

open Hyoui.Protocol Hyoui.Lib

/-! ## Frames to the clients -/

/-- Nothing but the clients' connections is touched. -/
def Clientside (s s' : Session) : Prop := ∃ clients missed, s' = { s with clients, missed }

section Clientside

variable {s s' s'' : Session} {W : World} {P : Outgoing → Prop} {ov : List ClientId}

theorem Clientside.refl (s : Session) : Clientside s s := ⟨s.clients, s.missed, rfl⟩

theorem Clientside.trans (h : Clientside s s') (h' : Clientside s' s'') : Clientside s s'' := by
  obtain ⟨_, _, rfl⟩ := h
  obtain ⟨clients, missed, rfl⟩ := h'
  exact ⟨clients, missed, rfl⟩

theorem Talks.present (h : Talks P ov s s') : s'.present = s.present :=
  forall₂_map_eq (fun _ _ hs => by rw [hs.id, hs.mode]) h.clients

theorem Clientside.silent (h : Clientside s s') (ht : Talks P ov s s') : Silent s s' := by
  have hp := ht.present
  obtain ⟨clients, missed, rfl⟩ := h
  exact ⟨hp, rfl, rfl, rfl, rfl, rfl⟩

theorem ignore_clientside (s : Session) (ids : List ClientId) : Clientside s (s.ignore ids) := ⟨_, _, rfl⟩

theorem ignore_silent (s : Session) (ids : List ClientId) : Silent s (s.ignore ids) := ⟨rfl, rfl, rfl, rfl, rfl, rfl⟩

theorem sendIgnoring_clientside (s : Session) (idx : Nat)
    (send : ClientHandle → ClientHandle × Option EnqueueOutcome) : Clientside s (s.sendIgnoring idx send).1 := by
  unfold Session.sendIgnoring
  split
  · exact .refl s
  · dsimp only
    split
    · exact ⟨_, _, rfl⟩
    · exact ⟨_, _, rfl⟩

theorem reply_silent (W : World) (s : Session) (idx : Nat) (msg : ControlMessage) : Silent s (s.reply W idx msg) :=
  (sendIgnoring_clientside s idx _).silent (reply_talks W s idx msg)

theorem refuse_silent (s : Session) (idx : Nat) (code : ErrorCode) (message : String) :
    Silent s (refuse W s idx code message) := reply_silent W s idx _

theorem broadcastControl_silent (W : World) (s : Session) (msg : ControlMessage) :
    Silent s (s.broadcastControl W msg).1 := Clientside.silent ⟨_, _, rfl⟩ (broadcastControl_talks W s msg)

theorem broadcastControlIgnoring_silent (W : World) (s : Session) (msg : ControlMessage) :
    Silent s (s.broadcastControlIgnoring W msg) :=
  (broadcastControl_silent W s msg).trans (ignore_silent _ _)

/-! ## Effects without a PTY -/

theorem sendTo_clientside (ctx : ExecuteCtx) (id : ClientId)
    (send : ClientHandle → ClientHandle × Option EnqueueOutcome) :
    Clientside ctx.session (ctx.sendTo id send).1.session := by
  unfold ExecuteCtx.sendTo
  split
  · exact .refl _
  · exact sendIgnoring_clientside _ _ _

theorem executeOne_clientside (ctx : ExecuteCtx) (htty : ctx.tty = none) (kind : EffectKind) :
    Clientside ctx.session (ctx.executeOne W kind).1.session ∧ (ctx.executeOne W kind).1.tty = none := by
  cases kind with
  | ttyWrite bytes =>
    simp only [ExecuteCtx.executeOne, htty]
    exact ⟨.refl _, trivial⟩
  | clientReply id message => exact ⟨sendTo_clientside ctx id _, (sendTo_tty id _).1.trans htty⟩
  | clientBroadcast message => exact ⟨⟨_, _, rfl⟩, htty⟩
  | clientRawAck id ack => exact ⟨sendTo_clientside ctx id _, (sendTo_tty id _).1.trans htty⟩
  | clientDisconnect id => exact ⟨.refl _, htty⟩
  | record entry =>
    have hnone : ctx.tty.isSome = false := by rw [htty]; rfl
    simp only [ExecuteCtx.executeOne, hnone, Bool.false_eq_true, if_false]
    exact ⟨.refl _, htty⟩

theorem execute_clientside (ctx : ExecuteCtx) (htty : ctx.tty = none) (es : List Effect) :
    Clientside ctx.session (ctx.execute W es).1.session ∧ (ctx.execute W es).1.tty = none := by
  induction es generalizing ctx with
  | nil => exact ⟨.refl _, htty⟩
  | cons e es ih =>
    obtain ⟨hone, htty'⟩ := executeOne_clientside (W := W) ctx htty e.kind
    obtain ⟨hrest, htty''⟩ := ih (ctx.executeOne W e.kind).1 htty'
    exact ⟨hone.trans hrest, htty''⟩

/-- The lock's effects are frames to the clients. -/
theorem executeIgnoringOverflow_silent {holder : Option ClientId} {effects : List Effect} (d : DaemonState) (s : Session)
    (h : ∀ e ∈ effects, LockEffect holder e) :
    Silent s (executeIgnoringOverflow W d effects s).1 ∧ (executeIgnoringOverflow W d effects s).2 = d := by
  obtain ⟨hd, hn⟩ := executeIgnoringOverflow_lock (W := W) (L := fun _ => False) d s h
  refine ⟨Clientside.silent ?_ hn.talks, hd⟩
  simp only [executeIgnoringOverflow, executeWithFeedback, feedback_lock d _ h]
  exact ((execute_clientside _ rfl effects).1).trans (ignore_clientside _ _)

theorem executeWithFeedback_silent {holder : Option ClientId} {effects : List Effect} (d : DaemonState) (s : Session)
    (ids : List ClientId) (h : ∀ e ∈ effects, LockEffect holder e) :
    Silent s (executeWithFeedback W d effects s ids).2.1 ∧ (executeWithFeedback W d effects s ids).1 = d := by
  obtain ⟨hd, ov, -, hn⟩ := executeWithFeedback_lock (W := W) (L := fun _ => False) d s ids h
  refine ⟨Clientside.silent ?_ hn.talks, hd⟩
  simp only [executeWithFeedback, feedback_lock d _ h]
  exact (execute_clientside _ rfl effects).1

end Clientside

/-! ## Who is attached -/

section Tells

variable {j : Journal} {s : Session} {holder : Option ClientId} {ch : ClientHandle} {idx : Nat}

theorem Journal.Tells.attached (h : j.Tells s holder) (hch : ch ∈ s.clients) : j.attached ch.id = true := by
  rw [Journal.attached, h.present, List.any_eq_true]
  exact ⟨_, List.mem_map_of_mem hch, by simp⟩

theorem Journal.Tells.isWriter (h : j.Tells s holder) (hch : ch ∈ s.clients) (hro : ch.mode ≠ .ro) :
    j.isWriter ch.id = true := by
  rw [Journal.isWriter, h.present, decide_eq_true_eq]
  exact List.mem_map.2 ⟨ch, hch, by simp [hro]⟩

theorem Journal.someWriter_of {id : ClientId} (h : j.isWriter id = true) : j.someWriter = true := by
  rw [Journal.isWriter, decide_eq_true_eq] at h
  exact List.any_eq_true.2 ⟨_, h, rfl⟩

theorem Journal.Tells.someWriter (h : j.Tells s holder) (hch : ch ∈ s.clients) (hro : ch.mode ≠ .ro) :
    j.someWriter = true := Journal.someWriter_of (h.isWriter hch hro)

/-- Where nothing is unrecorded, every entry is looked at. -/
theorem Journal.entry_push (h : j.unrecorded = []) (e : RecordEvent) : j.entry (.push e) = j.event e := by
  simp [Journal.entry, h]

theorem Journal.entry_lifecycle (h : j.unrecorded = []) (e : LifecycleEvent) :
    j.entry (.push (.lifecycle e)) = j.lifecycle e := Journal.entry_push h _

end Tells

/-! ## Handlers that leave the lock alone -/

section Handlers

variable {W : World} {cfg : Config} {s : Session} {d : DaemonState} {idx : Nat} {ov : List ClientId}

theorem guarded_retold {ok : ClientHandle → Bool} {code : ErrorCode} {message : String} {k : ClientHandle → Handled}
    (h : ∀ ch, s.clients[idx]? = some ch → ok ch = true → Retold s d (k ch).1 d) :
    Retold s d (guarded W s idx ok code message k).1 d := by
  unfold guarded
  split
  · exact .refl s d
  · rename_i ch hch
    split <;> rename_i hok
    · exact h ch hch hok
    · exact (refuse_silent s idx code message).retold rfl

theorem guarded_silent {ok : ClientHandle → Bool} {code : ErrorCode} {message : String} {k : ClientHandle → Handled}
    (h : ∀ ch, Silent s (k ch).1) : Silent s (guarded W s idx ok code message k).1 :=
  guarded_keeps (.refl s) (refuse_silent s idx code message) fun ch _ => h ch

/-- An entry the journal has nothing to object to, and does not learn from. -/
theorem logs_retold {e : LogEntry} (d : DaemonState) (h : ∀ j : Journal, j.Tells s d.lock.holder → j.entry e = some j) :
    Retold s d (s.logs e) d := retold_plain rfl (.refl _) rfl h

theorem Retold.silent {s' s'' : Session} {d' : DaemonState} (h : Retold s d s' d') (hs : Silent s' s'') :
    Retold s d s'' d' := h.trans (hs.retold rfl)

theorem kill_retold {ch : ClientHandle} (hch : s.clients[idx]? = some ch) (hro : ch.mode ≠ .ro) (sig : Signal) :
    Retold s d (s.logs (.kill sig)) d :=
  logs_retold d fun j hj => by simp [Journal.entry, hj.recorded, hj.someWriter (List.mem_of_getElem? hch) hro]

theorem handleDetachTarget_silent (target : DetachTarget) : Silent s (handleDetachTarget W s idx target).1 := by
  cases target with
  | myself => exact .refl s
  | others => exact guarded_silent fun _ => reply_silent W s idx _
  | all => exact guarded_silent fun _ => reply_silent W s idx _

theorem handleKill_retold (signal : Option String) (wait : Bool) :
    Retold s d (handleKill W s idx signal wait).1 d := by
  refine guarded_retold fun ch hch hok => ?_
  have hro : ch.mode ≠ .ro := by
    rw [of_decide_eq_true hok]
    decide
  dsimp only
  split
  · exact (refuse_silent s idx _ _).retold rfl
  · rename_i sig _
    have hcont : Retold s d (if signalShouldContFirst sig = true then s.logs (.kill sigCont) else s) d ∧
        (if signalShouldContFirst sig = true then s.logs (.kill sigCont) else s).clients[idx]? = some ch := by
      split
      · exact ⟨kill_retold hch hro _, hch⟩
      · exact ⟨.refl s d, hch⟩
    have hkill := hcont.1.trans (kill_retold (d := d) hcont.2 hro sig)
    split
    · exact hkill
    · exact Retold.silent hkill (reply_silent W _ idx _)

theorem handleSignal_retold (signal : String) : Retold s d (handleSignal W s idx signal).1 d := by
  refine guarded_retold fun ch hch hok => ?_
  split
  · exact (refuse_silent s idx _ _).retold rfl
  · exact kill_retold hch (of_decide_eq_true hok) _

/-- Only a leader resizes, and it is no reader. -/
theorem handleResize_retold (h : Mid s d ov) (cols rows : Nat) : Retold s d (handleResize W s idx cols rows).1 d := by
  refine guarded_retold fun ch hch hok => ?_
  have hmem := List.mem_of_getElem? hch
  have hrw : ch.mode = .rw := h.sound.leaderRw ch.member (List.mem_map_of_mem hmem) hok
  refine retold_entry rfl fun j hj => ?_
  refine ⟨{ j with screen := j.screen ++ [.resize (normalizeSize cols rows).2 (normalizeSize cols rows).1] }, ?_, ?_⟩
  · simp [Journal.entry, hj.recorded, hj.someWriter hmem (by rw [hrw]; decide)]
  · exact ⟨hj.present, hj.nextId, hj.fresh, hj.lock, hj.gone, hj.stopped, hj.policy, congrArg (· ++ _) hj.screen, hj.recorded⟩

/-- Who takes the lead was no reader before. -/
theorem takeLeader_present {ch : ClientHandle} (hch : s.clients[idx]? = some ch) :
    ({ s with clients := (takeLeader s.clients idx ch).1 } : Session).present = s.present := by
  simp only [Session.present, takeLeader]
  split
  · rfl
  · simp only [List.map_map, decide_eq_true_eq]
    split <;> rename_i hm
    · refine List.ext_getElem? fun i => ?_
      simp only [List.getElem?_map, List.getElem?_set]
      split <;> rename_i hi
      · subst hi
        obtain ⟨hlt, hget⟩ := List.getElem?_eq_some_iff.1 hch
        simp [hlt, hget, hm]
      · cases s.clients[i]? <;> simp
    · exact List.map_congr_left fun c _ => rfl

theorem handleLeaderRequest_silent (lock : LockState) : Silent s (handleLeaderRequest W s lock idx).1 := by
  refine guarded_silent fun _ => guarded_keeps (.refl s) (refuse_silent s idx _ _) fun ch hch => ?_
  have hp := takeLeader_present hch
  split <;> rename_i heq
  · exact reply_silent W s idx _
  · rw [heq] at hp
    dsimp only at hp ⊢
    split
    · exact (Silent.trans ⟨hp, rfl, rfl, rfl, rfl, rfl⟩ (reply_silent W _ idx _)).trans
        (broadcastControlIgnoring_silent W _ _)
    · exact Silent.trans ⟨hp, rfl, rfl, rfl, rfl, rfl⟩ (broadcastControlIgnoring_silent W _ _)

theorem handleRecordStartRequest_retold (req : RecordStartRequest) :
    Retold s d (handleRecordStartRequest W cfg s idx req).1 d := by
  refine guarded_retold fun ch hch _ => ?_
  have hlog : Retold s d (s.logs (.recordStart req ch.id (sessionInfo cfg))) d :=
    logs_retold d fun j hj => by simp [Journal.entry, hj.recorded, hj.attached (List.mem_of_getElem? hch)]
  dsimp only
  split
  · exact hlog.silent (reply_silent W _ idx _)
  · exact hlog.silent (refuse_silent _ idx _ _)

theorem handleRecordStopRequest_retold (recordId : Nat) : Retold s d (handleRecordStopRequest W s idx recordId).1 d := by
  refine guarded_retold fun ch hch _ => ?_
  have hlog : Retold s d (s.logs (.recordStop recordId)) d :=
    logs_retold d fun j hj => by simp [Journal.entry, hj.recorded]
  dsimp only
  split
  · exact hlog.silent (reply_silent W _ idx _)
  · exact hlog.silent (refuse_silent _ idx _ _)

theorem handleRecordStopAllRequest_retold : Retold s d (handleRecordStopAllRequest W s idx).1 d := by
  refine guarded_retold fun ch hch _ => ?_
  have hlog : Retold s d (s.logs .recordStopAll) d :=
    logs_retold d fun j hj => by simp [Journal.entry, hj.recorded]
  exact hlog.silent (reply_silent W _ idx _)

theorem modify_silent (s : Session) (idx : Nat) {f : ClientHandle → ClientHandle}
    (hf : ∀ ch, (f ch).id = ch.id ∧ (f ch).mode = ch.mode) : Silent s { s with clients := s.clients.modify idx f } := by
  refine ⟨?_, rfl, rfl, rfl, rfl, rfl⟩
  simp only [Session.present]
  refine List.ext_getElem? fun i => ?_
  rw [List.getElem?_map, List.getElem?_map, List.getElem?_modify, Option.map_eq_map, Option.map_map]
  refine congrArg (Option.map · s.clients[i]?) (funext fun ch => ?_)
  simp only [Function.comp_apply]
  split
  · rw [(hf ch).1, (hf ch).2]
  · rfl

theorem handleTailRequest_silent (env : FrameEnv) (req : TailRequest) : Silent s (handleTailRequest W env s idx req) := by
  unfold handleTailRequest
  split
  · exact reply_silent W s idx _
  · rename_i bytes _
    have hstart : Silent s (s.startTail idx req.stripAnsi (tailCut req bytes)) := modify_silent s idx fun _ => ⟨rfl, rfl⟩
    dsimp only
    generalize s.startTail idx req.stripAnsi (tailCut req bytes) = s₁ at hstart ⊢
    have hdata : Silent s (if (tailSnapshot W req bytes).isEmpty then s₁
        else s₁.reply W idx (.tailData (tailSnapshot W req bytes) env.unixMs)) := by
      split
      · exact hstart
      · exact hstart.trans (reply_silent W s₁ idx _)
    split
    · exact hdata.trans (modify_silent _ idx fun _ => ⟨rfl, rfl⟩)
    · exact hdata.trans (reply_silent W _ idx _)

theorem handleScreenDumpRequest_silent (format : ScreenDumpFormat) (layer : ScreenDumpLayer) (serial : Option Nat) :
    Silent s (handleScreenDumpRequest W s idx format layer serial).1 := by
  refine guarded_silent fun _ => ?_
  split
  · exact reply_silent W s idx _
  · exact refuse_silent s idx _ _
  · exact refuse_silent s idx _ _

theorem handleStateSnapshotRequest_silent (components : List SnapshotComponent) (serial : Option Nat) :
    Silent s (handleStateSnapshotRequest W s idx components serial).1 := by
  refine guarded_silent fun _ => ?_
  split
  · exact refuse_silent s idx _ _
  · split
    · exact refuse_silent s idx _ _
    · split
      · exact refuse_silent s idx _ _
      · exact reply_silent W s idx _

theorem killPgrp_retold {sig : Signal} (hsig : sig = sigCont ∨ sig = sigTerm) (s : Session) (d : DaemonState) :
    Retold s d (s.logs (.killPgrp sig)) d :=
  logs_retold d fun j hj => by simp [Journal.entry, hj.recorded, hsig]

theorem sigcontSent_retold (pid : Nat) (s : Session) (d : DaemonState) :
    Retold s d (s.pushLifecycle (.sigcontSent pid)) d :=
  logs_retold d fun j hj => by rw [Journal.entry_lifecycle hj.recorded]; rfl

theorem handleSessionChildResumeRequest_retold : Retold s d (handleSessionChildResumeRequest W cfg s idx).1 d := by
  refine guarded_retold fun ch hch _ => ?_
  have hlog : Retold s d (s.pushLifecycle (.resumeRequestReceived ch.id)) d :=
    logs_retold d fun j hj => by
      rw [Journal.entry_lifecycle hj.recorded]
      simp [Journal.lifecycle, hj.attached (List.mem_of_getElem? hch)]
  dsimp only
  have hch₁ : (s.pushLifecycle (.resumeRequestReceived ch.id)).clients[idx]? = some ch := hch
  generalize s.pushLifecycle (.resumeRequestReceived ch.id) = s₁ at hlog hch₁ ⊢
  have hoffer : Silent s₁ (s₁.offerAt idx (.redraw s₁.screen) (attachRedrawFrame W s₁.screen)).1 := by
    refine Clientside.silent ?_ (offerAt_talks hch₁ _ _)
    rw [offerAt_eq hch₁]
    exact ⟨_, _, rfl⟩
  split
  · exact hlog.silent hoffer
  · exact ((hlog.silent hoffer).trans (killPgrp_retold (.inl rfl) _ d)).trans (sigcontSent_retold _ _ d)

theorem handleSetRequest_retold (key value : String) : Retold s d (handleSetRequest W s idx key value).1 d := by
  refine guarded_retold fun _ _ _ => guarded_retold fun ch hch hok => ?_
  split
  · split
    · exact (refuse_silent s idx _ _).retold rfl
    · rename_i policy _
      have hlog : Retold s d ({ s with childSuspendPolicy := policy }.pushLifecycle
          (.policyChanged "on-child-suspend" policy.asStr ch.id)) d := by
        refine retold_entry rfl fun j hj => ⟨{ j with policy }, ?_, ?_⟩
        · rw [Journal.entry_lifecycle hj.recorded]
          have hback : ChildSuspendPolicy.fromWire policy.asStr = some policy := by cases policy <;> rfl
          simp [Journal.lifecycle, hj.isWriter (List.mem_of_getElem? hch) (of_decide_eq_true hok), hback]
        · exact ⟨hj.present, hj.nextId, hj.fresh, hj.lock, hj.gone, hj.stopped, rfl, hj.screen, hj.recorded⟩
      exact hlog.silent (reply_silent W _ idx _)
  · exact (refuse_silent s idx _ _).retold rfl

/-- A reason that is not the failure of an upgrade tells nothing. -/
theorem terminated_retold {reason : String} (hreason : isUpgradeFailure reason = false) (s : Session) (d : DaemonState) :
    Retold s d (s.pushLifecycle (.sessionTerminatedByCondition reason)) d :=
  logs_retold d fun j hj => by
    rw [Journal.entry_lifecycle hj.recorded]
    simp [Journal.lifecycle, hreason]

theorem handleUpgradeRequest_retold (env : FrameEnv) (binaryPath : Option String) :
    Retold s d (handleUpgradeRequest W env s idx binaryPath).1 d := by
  refine guarded_retold fun _ _ _ => guarded_retold fun ch _ _ => ?_
  split
  · exact (refuse_silent s idx _ _).retold rfl
  · have hsame : Silent s { s with upgradeTarget := binaryPath, upgradePending := true } := ⟨rfl, rfl, rfl, rfl, rfl, rfl⟩
    have hack : Silent { s with upgradeTarget := binaryPath, upgradePending := true }
        ({ ({ s with upgradeTarget := binaryPath, upgradePending := true } : Session) with
          clients := (broadcastControlWithCap W s.clients .upgradeAck .upgradeV1).1 }.ignore
            (broadcastControlWithCap W s.clients .upgradeAck .upgradeV1).2) := by
      refine Silent.trans ?_ (ignore_silent _ _)
      refine Clientside.silent ⟨_, _, rfl⟩ (P := fun _ => True)
        (broadcastWith_talks (W := W) _ _ (fun _ _ _ _ => trivial) fun _ _ => trivial)
    exact ((hsame.trans hack).retold rfl).trans (terminated_retold (by decide) _ d)

end Handlers

/-! ## The lock -/

theorem eventsEffects_holder (lock : LockState) (evs : List LockEvent) :
    (lock.eventsEffects evs).1.holder = lock.holder := by
  induction evs generalizing lock with
  | nil => rfl
  | cons ev evs ih =>
    have hone : (lock.eventEffects ev).1.holder = lock.holder := by
      unfold LockState.eventEffects
      split
      · dsimp only
        split <;> rfl
      · rfl
      · rfl
      · rfl
    exact (ih _).trans hone

theorem reduceMsg_holder (lock : LockState) (msg : LockMsg) :
    (lock.reduceMsg msg).1.holder = (lock.reduce msg).1.holder :=
  eventsEffects_holder _ _

/-- Without a token nobody takes the lock. -/
theorem reduce_acquire_none (lock : LockState) (id : ClientId) : (lock.reduce (.acquire id none)).1 = lock := by
  simp only [LockState.reduce]
  split
  · rfl
  · split <;> rfl

def LockEvent.isNew : LockEvent → Bool
  | .acquired _ _ true => true
  | _ => false

def LockEvent.isRelease : LockEvent → Bool
  | .released _ _ => true
  | _ => false

/-- With a token the lock is taken where it is free, and that is the news. -/
theorem reduce_acquire_some (lock : LockState) (id : ClientId) (token : String) :
    (lock.holder = none ∧ (lock.reduce (.acquire id (some token))).2.any (·.isNew) = true ∧
      (lock.reduce (.acquire id (some token))).1.holder = some id) ∨
    ((lock.reduce (.acquire id (some token))).2.any (·.isNew) = false ∧
      (lock.reduce (.acquire id (some token))).1.holder = lock.holder) := by
  simp only [LockState.reduce]
  split
  · exact .inr ⟨rfl, rfl⟩
  · split <;> rename_i hheld
    · exact .inr ⟨rfl, rfl⟩
    · exact .inl ⟨by simpa using hheld, rfl, rfl⟩

theorem reduce_release (lock : LockState) (id : ClientId) (token : String) :
    (lock.holder = some id ∧ (lock.reduce (.release id token)).2.any (·.isRelease) = true ∧
      (lock.reduce (.release id token)).1.holder = none) ∨
    ((lock.reduce (.release id token)).2.any (·.isRelease) = false ∧
      (lock.reduce (.release id token)).1.holder = lock.holder) := by
  simp only [LockState.reduce]
  split <;> rename_i h
  · exact .inl ⟨h.1, rfl, rfl⟩
  · exact .inr ⟨rfl, rfl⟩

section Lock

variable {W : World} {s : Session} {d d' : DaemonState} {idx : Nat} {ch : ClientHandle}

/-- The effects of a transition of the lock are frames. -/
theorem reduceMsg_retold (msg : LockMsg) {s₀ : Session} (h : Retold s₀ d s { d with lock := (d.lock.reduceMsg msg).1 }) :
    Retold s₀ d (executeIgnoringOverflow W { d with lock := (d.lock.reduceMsg msg).1 } (d.lock.reduceMsg msg).2.1 s).1
      (executeIgnoringOverflow W { d with lock := (d.lock.reduceMsg msg).1 } (d.lock.reduceMsg msg).2.1 s).2 := by
  obtain ⟨hs, hd⟩ := executeIgnoringOverflow_silent (W := W) { d with lock := (d.lock.reduceMsg msg).1 } s
    (reduceMsg_moved d.lock msg).effect
  rw [hd]
  exact h.trans (hs.retold rfl)

theorem lockAcquired_retold (hch : ch ∈ s.clients) (hro : ch.mode ≠ .ro) (hfree : d.lock.holder = none)
    (hheld : d'.lock.holder = some ch.id) : Retold s d (s.pushLifecycle (.lockAcquired ch.id)) d' := by
  refine retold_entry rfl fun j hj => ⟨{ j with lock := .held ch.id }, ?_, ?_⟩
  · rw [Journal.entry_lifecycle hj.recorded]
    have hadmits := hj.lock
    rw [hfree] at hadmits
    simp [Journal.lifecycle, hj.isWriter hch hro, hadmits]
  · exact ⟨hj.present, hj.nextId, hj.fresh, by simp [hheld, LockTale.admits], by simp, hj.stopped, hj.policy, hj.screen,
      hj.recorded⟩

theorem lockReleased_retold (hch : ch ∈ s.clients) (hheld : d.lock.holder = some ch.id)
    (hfree : d'.lock.holder = none) : Retold s d (s.pushLifecycle (.lockReleased ch.id)) d' := by
  refine retold_entry rfl fun j hj => ⟨{ j with lock := .free }, ?_, ?_⟩
  · have hat := hj.attached hch
    have hlock : j.lock = .held ch.id := by
      have hadmits := hj.lock
      rw [hheld] at hadmits
      cases hl : j.lock with
      | free => simp [hl, LockTale.admits] at hadmits
      | held id => simpa [hl, LockTale.admits, eq_comm] using hadmits
      | abandoned id =>
        -- who holds the lock and asks for its release is there
        have hid : id = ch.id := by simpa [hl, LockTale.admits, eq_comm] using hadmits
        rw [hid] at hl
        rw [(hj.gone _ hl).1] at hat
        cases hat
    rw [Journal.entry_lifecycle hj.recorded]
    simp [Journal.lifecycle, hat, hlock]
  · exact ⟨hj.present, hj.nextId, hj.fresh, by simp [hfree, LockTale.admits], by simp, hj.stopped, hj.policy, hj.screen,
      hj.recorded⟩

theorem handleLockAcquire_retold (env : FrameEnv) :
    Retold s d (handleLockAcquire W env s d idx).1 (handleLockAcquire W env s d idx).2.1 := by
  unfold handleLockAcquire
  split
  · exact .refl s d
  · rename_i ch hch
    split
    · exact (refuse_silent s idx _ _).retold rfl
    · split
      · exact (refuse_silent s idx _ _).retold rfl
      · rename_i hro
        rcases reduceMsg_acquire_none d.lock ch.id with heq | ⟨ev, hev, hne⟩
        · rw [heq]
          simp only [List.any_cons, List.any_nil, Bool.or_false, if_true]
          split
          · exact ((reply_silent W s idx _).trans (refuse_silent _ idx _ _)).retold rfl
          · rename_i token _
            have hholder := reduceMsg_holder d.lock (.acquire ch.id (some token))
            have hspec := reduce_acquire_some d.lock ch.id token
            refine reduceMsg_retold (.acquire ch.id (some token)) ?_
            split <;> rename_i hany
            · rcases hspec with ⟨hfree, -, hheld⟩ | ⟨hold, -⟩
              · exact lockAcquired_retold (List.mem_of_getElem? hch) hro hfree (hholder.trans hheld)
              · exact absurd (hold.symm.trans hany) Bool.false_ne_true
            · rcases hspec with ⟨-, hnew, -⟩ | ⟨-, hsame⟩
              · exact absurd hnew hany
              · exact (Silent.refl s).retold (hholder.trans hsame)
        · dsimp only
          split <;> rename_i hany
          · rw [hev] at hany
            cases ev <;> simp_all
          · have hnone : (d.lock.reduceMsg (.acquire ch.id none)).1.holder = d.lock.holder := by
              rw [reduceMsg_holder, reduce_acquire_none]
            exact reduceMsg_retold _ ((Silent.refl s).retold hnone)

theorem handleLockRelease_retold (token : String) :
    Retold s d (handleLockRelease W s d idx token).1 (handleLockRelease W s d idx token).2.1 := by
  unfold handleLockRelease
  split
  · exact .refl s d
  · rename_i ch hch
    have hholder := reduceMsg_holder d.lock (.release ch.id token)
    have hspec := reduce_release d.lock ch.id token
    refine reduceMsg_retold (.release ch.id token) ?_
    split <;> rename_i hany
    · rcases hspec with ⟨hheld, -, hfree⟩ | ⟨hold, -⟩
      · exact lockReleased_retold (List.mem_of_getElem? hch) hheld (hholder.trans hfree)
      · exact absurd (hold.symm.trans hany) Bool.false_ne_true
    · rcases hspec with ⟨-, hnew, -⟩ | ⟨-, hsame⟩
      · exact absurd hnew hany
      · exact (Silent.refl s).retold (hholder.trans hsame)

end Lock

/-! ## Raw input -/

/-- What raw input puts on the log, the PTY taking `steps`. -/
def inputEntries (lock : LockState) (id : ClientId) (mode : Mode) (body : Bytes) (steps : List TtyStep) : Log :=
  if mode = .ro then [.push (.inRejected id mode lock.holder .roClient body)]
  else if lock.holder.isSome ∧ lock.holder ≠ some id then
    [.push (.inRejected id mode lock.holder .lockNotHeld body)]
  else
    let (written, error) := writeAllWithIdleTimeout body steps
    .ptyWrite (ptyAccepts body steps) ::
      (ClientRegistry.writeRecords { seq := 0, clientId := id, bytes := body } written body.length error).flatMap
        (·.logged steps)

section RawInput

variable {W : World} {s s' : Session} {d : DaemonState} {ctx : ExecuteCtx} {idx : Nat} {id : ClientId} {steps : List TtyStep}

theorem rejected_log (mode : Mode) (lockHolder : Option ClientId) (reason : InRejectedReason) (body : Bytes) (ack : RawAck)
    (hidle : d.clients.Idle) (htty : ctx.tty = some steps) :
    (feedbackRounds W maxFeedbackRounds
        { d with clients := (d.clients.rejectInput id mode lockHolder reason body ack).1 }
        (d.clients.rejectInput id mode lockHolder reason body ack).2.effects ctx).2.session.log =
      ctx.session.log ++ [.push (.inRejected id mode lockHolder reason body)] := by
  have hrec : ∀ e ∈ [(d.clients.emit (.record (.inRejected id mode lockHolder reason body))).2], e.isRecord = true := by
    intro e he
    rw [List.mem_singleton.1 he]
    rfl
  have hw : ({ d with clients := (d.clients.rejectInput id mode lockHolder reason body ack).1 } :
      DaemonState).clients.pendingWrite = none := hidle.write
  have hsome : ctx.tty.isSome = true := by rw [htty]; rfl
  obtain ⟨last, hlast, hrun⟩ : ∃ last, (last = [] ∨ last = [.clientDisconnect id]) ∧
      executedEffects W maxFeedbackRounds
          { d with clients := (d.clients.rejectInput id mode lockHolder reason body ack).1 }
          (d.clients.rejectInput id mode lockHolder reason body ack).2.effects ctx =
        (d.clients.rejectInput id mode lockHolder reason body ack).2.effects.map (·.kind) ++ last :=
    executed_acking (W := W) 6 ctx hsome hw rfl hrec
  rw [feedbackRounds_log _ _ _ ctx htty, hrun]
  rcases hlast with rfl | rfl <;> rfl

/-- What answers a write is not logged. -/
theorem answer_unlogged (clientId : ClientId) (written requested : Nat) (error : Option TtyWriteErrorKind) :
    ∀ answer : List EffectKind, answer = (if error.isNone ∧ written = requested then [.clientRawAck clientId .ok]
        else [.clientRawAck clientId (ClientRegistry.failedWriteAck written requested error)] ++
          (if error = some .idleTimeout then
            [.clientReply clientId (.error { code := .masterWriteTimeout,
                                             message := ClientRegistry.timeoutText written requested })]
          else []) ++ [.clientDisconnect clientId]) → ∀ k ∈ answer, k.logged steps = [] := by
  rintro _ rfl k hk
  split at hk
  · rw [List.mem_singleton.1 hk]
    rfl
  · simp only [List.mem_append, List.mem_singleton] at hk
    rcases hk with (rfl | hk) | rfl
    · rfl
    · split at hk
      · rw [List.mem_singleton.1 hk]
        rfl
      · cases hk
    · rfl

/-- The log of raw input, whatever becomes of it. -/
theorem rawInput_log (ctx : ExecuteCtx) (id : ClientId) (hidle : d.clients.Idle) (mode : Mode) (body : Bytes)
    (htty : ctx.tty = some steps) :
    (executeWithFeedbackCtx W (d.handle (.client (.rawDataReceived id mode body))).1
        (d.handle (.client (.rawDataReceived id mode body))).2 ctx).2.session.log =
      ctx.session.log ++ inputEntries d.lock id mode body steps := by
  rw [DaemonState.handle_rawData]
  unfold executeWithFeedbackCtx ClientRegistry.reduceRawData inputEntries
  split
  · exact rejected_log mode _ _ body _ hidle htty
  · split
    · exact rejected_log mode _ _ body _ hidle htty
    · have hidle' : ({ d.clients with nextEffectSeq := d.clients.nextEffectSeq + 1 } : ClientRegistry).Idle :=
        ⟨hidle.write, hidle.ack⟩
      obtain ⟨last, hlast, hrun⟩ := @executed_write W id 5 ctx _ htty _ hidle' d.lock
        d.clients.nextEffectSeq body
      have hquiet : ∀ l : List EffectKind, (∀ k ∈ l, k.logged steps = []) → l.flatMap (·.logged steps) = [] :=
        fun _ h => List.flatMap_eq_nil_iff.2 h
      rw [feedbackRounds_log _ _ _ ctx htty]
      simp only [maxFeedbackRounds, ClientRegistry.emit] at hrun ⊢
      rw [hrun, finishWrite_kinds]
      generalize writeAllWithIdleTimeout body steps = w
      obtain ⟨written, error⟩ := w
      dsimp only
      rw [List.flatMap_append, List.flatMap_append, List.flatMap_append, hquiet last, List.append_nil,
        hquiet _ (answer_unlogged _ _ _ _ _ rfl), List.append_nil]
      · rfl
      · intro k hk
        rcases hlast with rfl | rfl
        · cases hk
        · rw [List.mem_singleton.1 hk]
          rfl

/-- The records of a write tell the bytes the PTY took, if there are any, and the rest where it failed. -/
theorem writeRecords_logged (id : ClientId) (body : Bytes) (steps : List TtyStep) :
    (ClientRegistry.writeRecords { seq := 0, clientId := id, bytes := body } (writeAllWithIdleTimeout body steps).1
        body.length (writeAllWithIdleTimeout body steps).2).flatMap (·.logged steps) =
      (if ptyAccepts body steps = [] then [] else [.push (.bytesIn id (ptyAccepts body steps))]) ++
        match (writeAllWithIdleTimeout body steps).2 with
        | some err => [.push (.inWriteError id body.length (writeAllWithIdleTimeout body steps).1
            (ClientRegistry.writeErrorKind err) (body.drop (writeAllWithIdleTimeout body steps).1))]
        | none => [] := by
  obtain ⟨htake, -⟩ := writeAll_accepts body steps
  have hle := writeAll_le body steps
  generalize writeAllWithIdleTimeout body steps = w at htake hle ⊢
  obtain ⟨written, error⟩ := w
  dsimp only at htake hle ⊢
  -- no byte was written where none was taken
  have hempty : ptyAccepts body steps = [] ↔ ¬ written > 0 := by
    rw [htake, List.take_eq_nil_iff, ← List.length_eq_zero_iff]
    omega
  unfold ClientRegistry.writeRecords
  rw [List.flatMap_append]
  congr 1
  · by_cases hpos : written > 0
    · rw [if_pos hpos, if_neg (fun he => hempty.1 he hpos), htake]
      rfl
    · rw [if_neg hpos, if_pos (hempty.2 hpos)]
      rfl
  · cases error <;> rfl

/-- Effects touch the clients' connections and the log. -/
def Logside (s s' : Session) : Prop := ∃ clients missed log, s' = { s with clients, missed, log }

theorem Logside.trans {s'' : Session} (h : Logside s s') (h' : Logside s' s'') : Logside s s'' := by
  obtain ⟨_, _, _, rfl⟩ := h
  obtain ⟨clients, missed, log, rfl⟩ := h'
  exact ⟨clients, missed, log, rfl⟩

theorem Clientside.logside (h : Clientside s s') : Logside s s' := by
  obtain ⟨clients, missed, rfl⟩ := h
  exact ⟨clients, missed, s.log, rfl⟩

theorem executeOne_logside (ctx : ExecuteCtx) (kind : EffectKind) :
    Logside ctx.session (ctx.executeOne W kind).1.session := by
  cases kind with
  | ttyWrite bytes =>
    simp only [ExecuteCtx.executeOne]
    split
    · exact (Clientside.refl _).logside
    · exact ⟨_, _, _, rfl⟩
  | clientReply id message => exact (sendTo_clientside ctx id _).logside
  | clientBroadcast message => exact ⟨_, _, _, rfl⟩
  | clientRawAck id ack => exact (sendTo_clientside ctx id _).logside
  | clientDisconnect id => exact (Clientside.refl _).logside
  | record entry =>
    simp only [ExecuteCtx.executeOne]
    split
    · exact ⟨_, _, _, rfl⟩
    · exact (Clientside.refl _).logside

theorem execute_logside (ctx : ExecuteCtx) (es : List Effect) : Logside ctx.session (ctx.execute W es).1.session := by
  induction es generalizing ctx with
  | nil => exact (Clientside.refl _).logside
  | cons e es ih => exact (executeOne_logside ctx e.kind).trans (ih _)

theorem feedbackRounds_logside (rounds : Nat) (d : DaemonState) (es : List Effect) (ctx : ExecuteCtx) :
    Logside ctx.session (feedbackRounds W rounds d es ctx).2.session := by
  induction rounds generalizing d es ctx with
  | zero => exact (Clientside.refl _).logside
  | succ rounds ih =>
    cases es with
    | nil => exact (Clientside.refl _).logside
    | cons e es => exact (execute_logside ctx (e :: es)).trans (ih _ _ _)

/-! ### Read back -/

variable {j : Journal} {holder : Option ClientId} {ch : ClientHandle}

/-- The session a journal tells of, its log and its clients' connections apart. -/
theorem Journal.Tells.logside (h : j.Tells s holder) (hs : Logside s s') (hp : s'.present = s.present) :
    j.Tells s' holder := by
  obtain ⟨clients, missed, log, rfl⟩ := hs
  exact ⟨h.present.trans hp.symm, h.nextId, h.fresh, h.lock, h.gone, h.stopped, h.policy, h.screen, h.recorded⟩

/-- The recorded holder of the lock is known from then on. -/
theorem Journal.Tells.settled (h : j.Tells s holder) : ({ j with lock := .of holder } : Journal).Tells s holder :=
  ⟨h.present, h.nextId, h.fresh, by cases holder <;> simp [LockTale.of, LockTale.admits], by cases holder <;> simp [LockTale.of],
    h.stopped, h.policy, h.screen, h.recorded⟩

/-- A client that may type is let in by what the journal knows of the lock. -/
theorem Journal.Tells.mayType (h : j.Tells s holder) (hch : ch ∈ s.clients) (hro : ch.mode ≠ .ro)
    (hlock : holder = none ∨ holder = some ch.id) : j.mayType ch.id = true := by
  rw [Journal.mayType, h.isWriter hch hro, Bool.true_and]
  have hadmits := h.lock
  cases hl : j.lock with
  | free => rfl
  | abandoned id => rfl
  | held id =>
    rw [hl] at hadmits
    rcases hlock with rfl | rfl
    · simp [LockTale.admits] at hadmits
    · simpa [LockTale.admits, LockTale.lets, eq_comm] using hadmits

/-- Once a client has typed, an abandoned lock is known to be gone. -/
theorem Journal.Tells.typed (h : j.Tells s holder) (hch : ch ∈ s.clients) (hlock : holder = none ∨ holder = some ch.id) :
    ({ j with lock := j.lock.afterInput } : Journal).Tells s holder := by
  refine ⟨h.present, h.nextId, h.fresh, ?_, fun id hid => ?_, h.stopped, h.policy, h.screen, h.recorded⟩
  · have hadmits := h.lock
    cases hl : j.lock with
    | free =>
      rw [hl] at hadmits
      exact hadmits
    | held id =>
      rw [hl] at hadmits
      exact hadmits
    | abandoned id =>
      rw [hl] at hadmits
      rcases hlock with rfl | rfl
      · rfl
      · have hid : id = ch.id := by simpa [LockTale.admits, eq_comm] using hadmits
        rw [hid] at hl
        have hat := h.attached hch
        rw [(h.gone _ hl).1] at hat
        cases hat
  · cases hl : j.lock <;> simp [hl, LockTale.afterInput] at hid

/-- What the PTY took is recorded as the client's. -/
theorem written_read (h : j.Tells s holder) (hch : ch ∈ s.clients) (hro : ch.mode ≠ .ro)
    (hlock : holder = none ∨ holder = some ch.id) (taken : Bytes) :
    ∃ j', replay Journal.entry j (.ptyWrite taken :: if taken = [] then [] else [.push (.bytesIn ch.id taken)]) = some j' ∧
      j'.Tells s holder := by
  have hwrite : j.entry (.ptyWrite taken) = some { j with unrecorded := taken } := by
    simp [Journal.entry, h.recorded, h.someWriter hch hro]
  rw [replay_cons, hwrite, Option.bind_some]
  split <;> rename_i htaken
  · exact ⟨_, rfl, h.present, h.nextId, h.fresh, h.lock, h.gone, h.stopped, h.policy, h.screen, htaken⟩
  · have hmay : ({ j with unrecorded := taken } : Journal).mayType ch.id = true := h.mayType hch hro hlock
    have htyped := h.typed hch hlock
    refine ⟨{ j with lock := j.lock.afterInput, unrecorded := [] }, ?_, ?_⟩
    · rw [replay_single]
      simp [Journal.entry, LogEntry.isInput, Journal.event, hmay, htaken]
    · exact ⟨htyped.present, htyped.nextId, htyped.fresh, htyped.lock, htyped.gone, htyped.stopped, htyped.policy,
        htyped.screen, rfl⟩

theorem writeError_read (h : j.Tells s holder) (hch : ch ∈ s.clients) (hro : ch.mode ≠ .ro)
    (hlock : holder = none ∨ holder = some ch.id) {body : Bytes} {written : Nat} (hlt : written < body.length)
    (err : WriteErrorKind) :
    ∃ j', j.entry (.push (.inWriteError ch.id body.length written err (body.drop written))) = some j' ∧
      j'.Tells s holder := by
  refine ⟨_, ?_, h.typed hch hlock⟩
  have hdrop : body.drop written ≠ [] := by
    rw [ne_eq, List.drop_eq_nil_iff]
    omega
  have hlen : written + (body.length - written) = body.length := by omega
  rw [Journal.entry_push h.recorded]
  simp [Journal.event, h.mayType hch hro hlock, hdrop, hlen]

theorem rejected_read (h : j.Tells s holder) {id : ClientId} {mode : Mode} {reason : InRejectedReason}
    (hrefused : j.refused id mode holder reason = true) (body : Bytes) :
    j.entry (.push (.inRejected id mode holder reason body)) = some { j with lock := .of holder } := by
  rw [Journal.entry_push h.recorded]
  simp [Journal.event, h.lock, hrefused]

/-- Raw input of an attached client is read back as what it was. -/
theorem inputEntries_read {lock : LockState} (h : j.Tells s lock.holder) (hch : ch ∈ s.clients) (body : Bytes)
    (steps : List TtyStep) :
    ∃ j', replay Journal.entry j (inputEntries lock ch.id ch.mode body steps) = some j' ∧ j'.Tells s lock.holder := by
  unfold inputEntries
  split <;> rename_i hro
  · refine ⟨_, ?_, h.settled⟩
    rw [replay_single, rejected_read h]
    simp only [Journal.refused, h.present, hro, and_true, decide_eq_true_eq]
    exact List.mem_map.2 ⟨ch, hch, by simp [hro]⟩
  · split <;> rename_i hheld
    · refine ⟨_, ?_, h.settled⟩
      rw [replay_single, rejected_read h]
      simp only [Journal.refused, h.isWriter hch hro, hro, ne_eq, not_false_eq_true, hheld.2, and_true, true_and,
        decide_eq_true_eq]
      intro hnone
      rw [hnone] at hheld
      exact absurd hheld.1 Bool.false_ne_true
    · have hlock : lock.holder = none ∨ lock.holder = some ch.id := by
        cases hh : lock.holder with
        | none => exact .inl rfl
        | some id =>
          right
          by_contra hne
          exact hheld ⟨by rw [hh]; rfl, by rw [hh]; exact hne⟩
      obtain ⟨htake, herror⟩ := writeAll_accepts body steps
      have hle := writeAll_le body steps
      have hrecords := writeRecords_logged ch.id body steps
      generalize writeAllWithIdleTimeout body steps = w at htake herror hle hrecords ⊢
      obtain ⟨written, error⟩ := w
      dsimp only at htake herror hle hrecords ⊢
      obtain ⟨j₁, hread, htells⟩ := written_read h hch hro hlock (ptyAccepts body steps)
      rw [hrecords, ← List.cons_append, replay_append, hread, Option.bind_some]
      cases error with
      | none => exact ⟨j₁, rfl, htells⟩
      | some err =>
        have hlt : written < body.length := by
          have hne : written ≠ body.length := fun he => by simpa using herror.2 he
          omega
        rw [replay_single]
        exact writeError_read htells hch hro hlock hlt _

theorem handleRawData_retold {ov : List ClientId} (h : Mid s d ov) (env : FrameEnv) (body : Bytes) :
    Retold s d (handleRawData W env s d idx body).1 (handleRawData W env s d idx body).2.1 := by
  unfold handleRawData
  split
  · exact .refl s d
  · rename_i ch hch
    split
    · exact (refuse_silent s idx _ _).retold rfl
    · obtain ⟨clients, -, ctx', heq, hraw, -⟩ := rawInput_handled (W := W) h.idle h.ids hch body env.tty
      have hlog := rawInput_log (W := W) { session := s, tty := some env.tty } ch.id h.idle ch.mode
        body rfl
      have hside := feedbackRounds_logside (W := W) maxFeedbackRounds
        (d.handle (.client (.rawDataReceived ch.id ch.mode body))).1
        (d.handle (.client (.rawDataReceived ch.id ch.mode body))).2 { session := s, tty := some env.tty }
      rw [executeWithFeedbackCtx] at heq hlog
      dsimp only
      rw [executeWithFeedbackCtx]
      rw [heq] at hlog hside ⊢
      dsimp only at hlog hside ⊢
      have hraw' : Retold s d ctx'.session { d with clients } := by
        refine ⟨inputEntries d.lock ch.id ch.mode body env.tty, hlog, fun j hj => ?_⟩
        obtain ⟨j', hread, htells⟩ := inputEntries_read hj (List.mem_of_getElem? hch) body env.tty
        exact ⟨j', hread, htells.logside hside hraw.talks.present⟩
      exact hraw'.trans ((ignore_silent _ _).retold rfl)

end RawInput

/-! ## Every frame -/

section Frames

variable {W : World} {cfg : Config} {s : Session} {d : DaemonState} {ov : List ClientId}

theorem handleControlMessage_retold (h : Mid s d ov) (env : FrameEnv) (idx : Nat) (msg : ControlMessage) :
    Retold s d (handleControlMessage W cfg env s d idx msg).1 (handleControlMessage W cfg env s d idx msg).2.1 := by
  cases msg with
  | detach target => exact (handleDetachTarget_silent target).retold rfl
  | kill signal wait => exact handleKill_retold signal wait
  | signal signal => exact handleSignal_retold signal
  | resize cols rows => exact handleResize_retold h cols rows
  | leaderRequest => exact (handleLeaderRequest_silent d.lock).retold rfl
  | lockAcquire wait abs idle bound => exact handleLockAcquire_retold env
  | lockRelease token => exact handleLockRelease_retold token
  | tailRequest req => exact (guarded_silent fun _ => handleTailRequest_silent env req).retold rfl
  | statusQuery => exact (reply_silent W s idx _).retold rfl
  | screenDumpRequest format layer serial => exact (handleScreenDumpRequest_silent format layer serial).retold rfl
  | stateSnapshotRequest components serial => exact (handleStateSnapshotRequest_silent components serial).retold rfl
  | sessionChildResumeRequest => exact handleSessionChildResumeRequest_retold
  | recordStartRequest req => exact handleRecordStartRequest_retold req
  | recordStopRequest recordId => exact handleRecordStopRequest_retold recordId
  | recordStopAllRequest => exact handleRecordStopAllRequest_retold
  | recordListRequest => exact (guarded_silent fun _ => reply_silent W s idx _).retold rfl
  | setRequest key value => exact handleSetRequest_retold key value
  | upgradeRequest binaryPath => exact handleUpgradeRequest_retold env binaryPath
  | _ => exact (refuse_silent s idx _ _).retold rfl

theorem handleClientFrame_retold (cfg : Config) (h : Mid s d ov) (env : FrameEnv) (idx : Nat) (frame : Frame) :
    Retold s d (handleClientFrame W cfg env s d idx frame).1 (handleClientFrame W cfg env s d idx frame).2.1 := by
  unfold handleClientFrame
  split
  · exact handleRawData_retold h env frame.body
  · split
    · split
      · exact handleControlMessage_retold h env idx _
      · exact .refl s d
    · exact .refl s d

end Frames

end Hyoui.Daemon
