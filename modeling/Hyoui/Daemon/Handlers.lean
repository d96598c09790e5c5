import Hyoui.Daemon.Feedback
/-!
# What a client's frame does to the session

Every handler but those of the leader and the lock only talks: `Quietly`. `Mid` is what holds in
the middle of a turn, and `Chatted` that a part of the turn kept it and moved the registry by
`Chat` steps. `handleClientFrame_chatted` says so of every frame.
-/

namespace Hyoui.Daemon

open Hyoui.Protocol Hyoui.Lib

/-! ## In the middle of a turn -/

/-- Every attached client that overflowed is missed or in `ov`, and only such clients are missed. -/
structure Session.Accounted (s : Session) (ov : List ClientId) : Prop where
  gap : ∀ ch ∈ s.clients, ch.overflowed = true → ch.id ∈ s.missed ∨ ch.id ∈ ov
  missed : ∀ ch ∈ s.clients, ch.id ∈ s.missed → ch.overflowed = true
  fresh : ∀ id ∈ s.missed, id < s.nextClientId
  sent : ∀ ch ∈ s.clients, ch.OffersSent

structure Mid (s : Session) (d : DaemonState) (ov : List ClientId) : Prop where
  sound : Sound (s.registry d.lock.holder)
  accounted : s.Accounted ov
  lock : d.lock.Ok
  idle : d.clients.Idle

/-- A part of the turn that leaves everybody where they are. -/
structure Chatted (W : World) (s : Session) (d : DaemonState) (s' : Session) (d' : DaemonState)
    (ov' : List ClientId) : Prop where
  mid : Mid s' d' ov'
  chats : Relation.ReflTransGen (Chat (Encodes W)) (s.registry d.lock.holder) (s'.registry d'.lock.holder)
  child : s'.child = s.child

section Mid

variable {W : World} {P : Outgoing → Prop} {s s' s'' : Session} {d d' d'' : DaemonState} {ov ov' : List ClientId}

theorem Mid.ids (h : Mid s d ov) : (s.clients.map (·.id)).Nodup := by
  have hids := h.sound.ids
  simp only [Session.registry, List.map_map] at hids
  exact hids

theorem Mid.fresh (h : Mid s d ov) {ch : ClientHandle} (hch : ch ∈ s.clients) : ch.id < s.nextClientId :=
  h.sound.fresh ch.member (List.mem_map_of_mem hch)

theorem Mid.more (h : Mid s d ov) (hsub : ∀ id ∈ ov, id ∈ ov') : Mid s d ov' where
  sound := h.sound
  accounted := { h.accounted with gap := fun ch hch ho => (h.accounted.gap ch hch ho).imp (fun hm => hm) (hsub _) }
  lock := h.lock
  idle := h.idle

theorem Chatted.refl (h : Mid s d ov) : Chatted W s d s d ov := ⟨h, .refl, rfl⟩

theorem Chatted.trans (h : Chatted W s d s' d' ov) (h' : Chatted W s' d' s'' d'' ov') : Chatted W s d s'' d'' ov' :=
  ⟨h'.mid, h.chats.trans h'.chats, h'.child.trans h.child⟩

theorem Chatted.more (h : Chatted W s d s' d' ov) (hsub : ∀ id ∈ ov, id ∈ ov') : Chatted W s d s' d' ov' :=
  ⟨h.mid.more hsub, h.chats, h.child⟩

theorem chats_ids {r r' : Registry} {e : Prop} (h : Relation.ReflTransGen (Chat e) r r') :
    r'.members.map (·.id) = r.members.map (·.id) := by
  induction h with
  | refl => rfl
  | tail _ hc ih => exact hc.ids.trans ih

/-- A chat leaves the clients where they are. -/
theorem Chatted.ids (h : Chatted W s d s' d' ov) : s'.clients.map (·.id) = s.clients.map (·.id) := by
  have hids := chats_ids h.chats
  simp only [Session.registry, List.map_map] at hids
  exact hids

theorem keysAt_congr {l l' : List ClientHandle} (h : l'.map (·.id) = l.map (·.id)) (idxs : List Nat) :
    keysAt (·.id) idxs l' = keysAt (·.id) idxs l := by
  unfold keysAt
  refine List.filterMap_congr fun i _ => ?_
  rw [← List.getElem?_map, ← List.getElem?_map, h]

theorem accounted_talks (h : Mid s d ov) (ht : Talks P ov' s s') : s'.Accounted (ov ++ ov') := by
  obtain ⟨more, hm, hmore⟩ := ht.missed
  have hids : s'.clients.map (·.id) = s.clients.map (·.id) := forall₂_map_eq (fun _ _ hs => hs.id) ht.clients
  refine ⟨fun ch' hch' ho => ?_, fun ch' hch' hid => ?_, fun id hid => ?_, fun ch' hch' => ?_⟩
  · obtain ⟨ch, hch, hs⟩ := forall₂_mem_right ht.clients hch'
    rcases hs.gap ho with hg | hg
    · rw [hs.id, hm]
      exact (h.accounted.gap ch hch hg).imp (List.mem_append_left _) (List.mem_append_left _)
    · exact (List.mem_append.1 hg).imp (fun hg => hg) (List.mem_append_right _)
  · rw [hm] at hid
    rcases List.mem_append.1 hid with hid | hid
    · obtain ⟨ch, hch, hs⟩ := forall₂_mem_right ht.clients hch'
      exact hs.overflowed (h.accounted.missed ch hch (hs.id ▸ hid))
    · -- only one client has this id
      obtain ⟨ch, hch, he, ho⟩ := hmore _ hid
      have hnd : (s'.clients.map (·.id)).Nodup := hids ▸ h.ids
      rw [List.inj_on_of_nodup_map hnd hch' hch he.symm]
      exact ho
  · rw [ht.nextClientId]
    rw [hm] at hid
    rcases List.mem_append.1 hid with hid | hid
    · exact h.accounted.fresh id hid
    · obtain ⟨ch', hch', rfl, -⟩ := hmore _ hid
      obtain ⟨ch, hch, hs⟩ := forall₂_mem_right ht.clients hch'
      rw [hs.id]
      exact h.fresh hch
  · obtain ⟨ch, hch, hs⟩ := forall₂_mem_right ht.clients hch'
    exact hs.sent (h.accounted.sent ch hch)

/-- Frames for the clients, about nothing or about what is the case. -/
theorem Talks.chatted (h : Mid s d ov) (ht : Talks P ov' s s')
    (htold : List.Forall₂ (Told (Encodes W) (s.registry d.lock.holder).Leads (· = lockNotice d.lock.holder) False False)
      (s.clients.map (·.member)) (s'.clients.map (·.member)))
    (hlock : d'.lock = d.lock) (hidle : d'.clients.Idle) : Chatted W s d s' d' (ov ++ ov') := by
  have hchat : Chat (Encodes W) (s.registry d.lock.holder) (s'.registry d'.lock.holder) := by
    have hc : Chat (Encodes W) (s.registry d.lock.holder) _ := .talk htold
    simpa only [Session.registry, ht.nextClientId, hlock] using hc
  exact ⟨⟨hchat.sound h.sound, accounted_talks h ht, hlock ▸ h.lock, hidle⟩, .single hchat, ht.child⟩

theorem Talks.quiet_chatted (h : Mid s d ov) (ht : Talks Outgoing.Quiet ov' s s') (hlock : d'.lock = d.lock)
    (hidle : d'.clients.Idle) : Chatted W s d s' d' (ov ++ ov') :=
  Talks.chatted h ht ht.quiet_told hlock hidle

/-- The lock changes hands, and the clients are told. -/
theorem Notifies.lock_chatted (h : Mid s d ov)
    (hn : Notifies W (fun _ => False) (· = lockNotice d'.lock.holder) False (d'.lock.holder ≠ d.lock.holder) ov' s s')
    (hfree : d'.lock.holder = d.lock.holder ∨ d.lock.holder = none ∨ d'.lock.holder = none)
    (hatt : ∀ id, d'.lock.holder = some id → d.lock.holder = some id ∨ ∃ ch ∈ s.clients, ch.id = id)
    (hok : d'.lock.Ok) (hidle : d'.clients.Idle) : Chatted W s d s' d' (ov ++ ov') := by
  have hchat : Chat (Encodes W) (s.registry d.lock.holder) (s'.registry d'.lock.holder) := by
    by_cases heq : d'.lock.holder = d.lock.holder
    · have hc : Chat (Encodes W) (s.registry d.lock.holder) _ :=
        .talk (hn.told.imp fun _ _ ht => ht.weaken (fun _ hx => hx.elim) (fun _ hx => hx.trans (by rw [heq]; rfl))
          (fun hx => hx) False.elim)
      simpa only [Session.registry, hn.talks.nextClientId, heq] using hc
    · have hc : Chat (Encodes W) (s.registry d.lock.holder)
          { s.registry d.lock.holder with members := s'.clients.map (·.member), holder := d'.lock.holder } := by
        refine .lock (hfree.resolve_left heq) (fun id hid => ?_)
          (hn.told.imp fun _ _ ht => ht.weaken (fun _ hx => hx) (fun _ hx => hx) (fun hx => hx) fun _ => heq)
        rcases hatt id hid with hsame | ⟨ch, hch, rfl⟩
        · exact absurd (hid.trans hsame.symm) heq
        · exact ⟨ch.member, List.mem_map_of_mem hch, rfl⟩
      simpa only [Session.registry, hn.talks.nextClientId] using hc
  exact ⟨⟨hchat.sound h.sound, accounted_talks h hn.talks, hok, hidle⟩, .single hchat, hn.talks.child⟩

end Mid

/-! ## Handlers that only talk -/

/-- Plain frames are all that came of it; who is to be dropped for an overflow is the sender. -/
def Quietly (s : Session) (idx : Nat) (r : Handled) : Prop :=
  Talks (·.plain = true) (if r.2 = .dropClient then keysAt (·.id) [idx] s.clients else []) s r.1

section Quietly

variable {W : World} {cfg : Config} {s s' : Session} {idx : Nat}

theorem quietly_of {r : Handled} (h : Talks (·.plain = true) [] s r.1) : Quietly s idx r :=
  h.mono (fun _ hp => hp) fun _ hid => nomatch hid

theorem talks_logs {P : Outgoing → Prop} (s : Session) (e : LogEntry) : Talks P [] s (s.logs e) := .same rfl rfl rfl rfl

theorem refuse_talks (s : Session) (idx : Nat) (code : ErrorCode) (message : String) :
    Talks (·.plain = true) [] s (refuse W s idx code message) := reply_plain W s idx rfl

theorem guarded_quietly {ok : ClientHandle → Bool} {code : ErrorCode} {message : String} {k : ClientHandle → Handled}
    (h : ∀ ch, s.clients[idx]? = some ch → ok ch = true → Quietly s idx (k ch)) :
    Quietly s idx (guarded W s idx ok code message k) := by
  unfold guarded
  split
  · exact .refl s
  · rename_i ch hch
    split <;> rename_i hok
    · exact h ch hch hok
    · exact refuse_talks s idx code message

theorem handleDetachTarget_quietly (target : DetachTarget) : Quietly s idx (handleDetachTarget W s idx target) := by
  cases target with
  | myself => exact .refl s
  | others => exact guarded_quietly fun _ _ _ => quietly_of (reply_plain W s idx rfl)
  | all => exact guarded_quietly fun _ _ _ => quietly_of (reply_plain W s idx rfl)

theorem handleKill_quietly (signal : Option String) (wait : Bool) :
    Quietly s idx (handleKill W s idx signal wait) := by
  refine guarded_quietly fun ch _ _ => ?_
  dsimp only
  split
  · exact refuse_talks s idx _ _
  · rename_i sig _
    have hcont : Talks (·.plain = true) [] s (if signalShouldContFirst sig = true then s.logs (.kill sigCont) else s) := by
      split
      · exact talks_logs s _
      · exact .refl s
    have hkill := hcont.then (talks_logs _ (.kill sig))
    split
    · exact quietly_of hkill
    · exact quietly_of (hkill.then (reply_plain W _ idx rfl))

theorem handleSignal_quietly (signal : String) : Quietly s idx (handleSignal W s idx signal) := by
  refine guarded_quietly fun ch _ _ => ?_
  split
  · exact refuse_talks s idx _ _
  · exact talks_logs s _

theorem handleResize_quietly (cols rows : Nat) : Quietly s idx (handleResize W s idx cols rows) :=
  guarded_quietly fun _ _ _ => .same rfl rfl rfl rfl

theorem handleRecordStartRequest_quietly (req : RecordStartRequest) :
    Quietly s idx (handleRecordStartRequest W cfg s idx req) := by
  refine guarded_quietly fun ch _ _ => ?_
  dsimp only
  split
  · exact quietly_of ((talks_logs s _).then (reply_plain W _ idx rfl))
  · exact quietly_of ((talks_logs s _).then (refuse_talks _ idx _ _))

theorem handleRecordStopRequest_quietly (recordId : Nat) :
    Quietly s idx (handleRecordStopRequest W s idx recordId) := by
  refine guarded_quietly fun ch _ _ => ?_
  dsimp only
  split
  · exact quietly_of ((talks_logs s _).then (reply_plain W _ idx rfl))
  · exact quietly_of ((talks_logs s _).then (refuse_talks _ idx _ _))

theorem handleRecordStopAllRequest_quietly : Quietly s idx (handleRecordStopAllRequest W s idx) :=
  guarded_quietly fun _ _ _ => quietly_of ((talks_logs s _).then (reply_plain W _ idx rfl))

theorem handleRecordListRequest_quietly : Quietly s idx (handleRecordListRequest W s idx) :=
  guarded_quietly fun _ _ _ => quietly_of (reply_plain W s idx rfl)

/-- What the client asks for is noted, and nothing else happens to it. -/
theorem noted_talks {P : Outgoing → Prop} (s : Session) (idx : Nat) {f : ClientHandle → ClientHandle}
    (hf : ∀ ch, ∃ subscription tail, f ch = { ch with subscription, tail }) :
    Talks P [] s { s with clients := s.clients.modify idx f } where
  clients := forall₂_modify (fun a => .refl a) (fun ch => by
    obtain ⟨subscription, tail, heq⟩ := hf ch
    rw [heq]
    exact .same rfl rfl rfl rfl rfl) idx s.clients
  nextClientId := rfl
  child := rfl
  missed := ⟨[], (List.append_nil _).symm, by simp⟩

theorem subscribe_talks {P : Outgoing → Prop} (s : Session) (idx : Nat) (subscription : Subscription) :
    Talks P [] s (s.subscribe idx subscription) := noted_talks s idx fun ch => ⟨subscription, ch.tail, rfl⟩

theorem startTail_talks {P : Outgoing → Prop} (s : Session) (idx : Nat) (stripAnsi : Bool) (asked : Bytes) :
    Talks P [] s (s.startTail idx stripAnsi asked) := noted_talks s idx fun ch => ⟨ch.subscription, _, rfl⟩

theorem handleTailRequest_talks (env : FrameEnv) (req : TailRequest) :
    Talks (·.plain = true) [] s (handleTailRequest W env s idx req) := by
  unfold handleTailRequest
  split
  · exact reply_plain W s idx rfl
  · rename_i bytes _
    have hstart : Talks (·.plain = true) [] s (s.startTail idx req.stripAnsi (tailCut req bytes)) :=
      startTail_talks s idx _ _
    dsimp only
    generalize s.startTail idx req.stripAnsi (tailCut req bytes) = s₁ at hstart ⊢
    have hdata : Talks (·.plain = true) [] s
        (if (tailSnapshot W req bytes).isEmpty then s₁
          else s₁.reply W idx (.tailData (tailSnapshot W req bytes) env.unixMs)) := by
      split
      · exact hstart
      · exact hstart.then (reply_plain W s₁ idx rfl)
    split
    · exact hdata.then (subscribe_talks _ idx _)
    · exact hdata.then (reply_plain W _ idx rfl)

theorem handleTailRequestDispatch_quietly (env : FrameEnv) (req : TailRequest) :
    Quietly s idx (handleTailRequestDispatch W env s idx req) :=
  guarded_quietly fun _ _ _ => quietly_of (handleTailRequest_talks env req)

theorem handleStatusQuery_quietly (env : FrameEnv) (lock : LockState) :
    Quietly s idx (handleStatusQuery W cfg env s lock idx) := reply_plain W s idx rfl

theorem handleScreenDumpRequest_quietly (format : ScreenDumpFormat) (layer : ScreenDumpLayer) (serial : Option Nat) :
    Quietly s idx (handleScreenDumpRequest W s idx format layer serial) := by
  refine guarded_quietly fun ch _ _ => ?_
  split
  · exact reply_plain W s idx rfl
  · exact refuse_talks s idx _ _
  · exact refuse_talks s idx _ _

theorem handleStateSnapshotRequest_quietly (components : List SnapshotComponent) (serial : Option Nat) :
    Quietly s idx (handleStateSnapshotRequest W s idx components serial) := by
  refine guarded_quietly fun ch _ _ => ?_
  split
  · exact refuse_talks s idx _ _
  · split
    · exact refuse_talks s idx _ _
    · split
      · exact refuse_talks s idx _ _
      · exact reply_plain W s idx rfl

/-- The one handler that looks at what became of its frame: an overflow drops the client. -/
theorem handleSessionChildResumeRequest_quietly : Quietly s idx (handleSessionChildResumeRequest W cfg s idx) := by
  refine guarded_quietly fun ch hch _ => ?_
  dsimp only
  have hlog : Talks (·.plain = true) [] s (s.pushLifecycle (.resumeRequestReceived ch.id)) := talks_logs s _
  have hch₁ : (s.pushLifecycle (.resumeRequestReceived ch.id)).clients[idx]? = some ch := hch
  generalize s.pushLifecycle (.resumeRequestReceived ch.id) = s₁ at hlog hch₁ ⊢
  have hoffer := hlog.then ((offerAt_talks hch₁ (.redraw s₁.screen)
    (attachRedrawFrame W s₁.screen)).mono (by rintro _ rfl; rfl) fun _ hid => hid)
  split <;> rename_i ho
  · have hids : keysAt (fun c : ClientHandle => c.id) [idx] s.clients = [ch.id] := by simp [keysAt, hch]
    unfold Quietly
    rw [if_pos rfl, hids]
    rw [if_pos ho] at hoffer
    exact hoffer
  · rw [if_neg ho] at hoffer
    exact quietly_of (hoffer.then ((talks_logs _ _).then (talks_logs _ _)))

theorem handleSetRequest_quietly (key value : String) : Quietly s idx (handleSetRequest W s idx key value) := by
  refine guarded_quietly fun ch _ _ => guarded_quietly fun ch _ _ => ?_
  split
  · split
    · exact refuse_talks s idx _ _
    · rename_i policy _
      have hset : Talks (·.plain = true) [] s ({ s with childSuspendPolicy := policy }.pushLifecycle
          (.policyChanged "on-child-suspend" policy.asStr ch.id)) := .same rfl rfl rfl rfl
      exact quietly_of (hset.then (reply_plain W _ idx rfl))
  · exact refuse_talks s idx _ _

theorem handleUpgradeRequest_quietly (env : FrameEnv) (binaryPath : Option String) :
    Quietly s idx (handleUpgradeRequest W env s idx binaryPath) := by
  refine guarded_quietly fun ch _ _ => guarded_quietly fun ch _ _ => ?_
  split
  · exact refuse_talks s idx _ _
  · have hset : Talks (·.plain = true) [] s { s with upgradeTarget := binaryPath, upgradePending := true } :=
      .same rfl rfl rfl rfl
    have hack := broadcastWith_talks (W := W) (P := (·.plain = true))
      { s with upgradeTarget := binaryPath, upgradePending := true }
      (fun ch => if .upgradeV1 ∈ ch.negotiatedCaps then
        (W.controlFrame .upgradeAck).map fun payload => (Outgoing.control .upgradeAck, payload) else none)
      (fun ch item payload h => by
        split at h
        · simp only [Option.map_eq_some_iff, Prod.mk.injEq] at h
          obtain ⟨_, -, rfl, -⟩ := h
          rfl
        · cases h) fun _ h => h
    exact quietly_of (hset.then (hack.ignore.then (talks_logs _ _)))

theorem rejectUnexpectedKind_quietly : Quietly s idx (rejectUnexpectedKind W s idx) := refuse_talks s idx _ _

end Quietly

/-- The clients a frame's outcome sends away. -/
def dropIds (s : Session) (idx : Nat) : ClientFrameOutcome → List ClientId
  | .dropClient => keysAt (·.id) [idx] s.clients
  | .dropClients indices _ => keysAt (·.id) indices s.clients
  | .continue | .terminateSession _ => []

section Handled

variable {W : World} {cfg : Config} {s : Session} {d : DaemonState} {idx : Nat} {ov : List ClientId}

theorem quietly_chatted (h : Mid s d ov) {r : Handled} (hq : Quietly s idx r) :
    Chatted W s d r.1 d (ov ++ dropIds s idx r.2) := by
  refine (Talks.quiet_chatted h hq.quiet rfl h.idle).more fun id hid => ?_
  rcases List.mem_append.1 hid with hid | hid
  · exact List.mem_append_left _ hid
  · split at hid <;> rename_i ho
    · rw [ho]
      exact List.mem_append_right _ hid
    · cases hid

theorem guarded_chatted (h : Mid s d ov) {ok : ClientHandle → Bool} {code : ErrorCode} {message : String}
    {k : ClientHandle → Handled}
    (hk : ∀ ch, s.clients[idx]? = some ch → ok ch = true → Chatted W s d (k ch).1 d ov ∧ (k ch).2 = .continue) :
    Chatted W s d (guarded W s idx ok code message k).1 d ov ∧ (guarded W s idx ok code message k).2 = .continue := by
  unfold guarded
  split
  · exact ⟨.refl h, rfl⟩
  · rename_i ch hch
    split <;> rename_i hok
    · exact hk ch hch hok
    · have hq : Chatted W s d (refuse W s idx code message) d (ov ++ []) :=
        Talks.quiet_chatted h (refuse_talks s idx code message).quiet rfl h.idle
      exact ⟨by rwa [List.append_nil] at hq, rfl⟩

/-! ## The leader -/

/-- Taking the leader's role is what the registry calls it. -/
theorem takeLeader_members (hn : (s.clients.map (·.id)).Nodup) {ch : ClientHandle} (hch : s.clients[idx]? = some ch)
    (hro : ch.mode ≠ .ro) (hl : ch.leader = false) :
    (takeLeader s.clients idx ch).1.map (·.member) = (s.clients.map (·.member)).map (promote ch.id) := by
  have hother : ∀ j c, s.clients[j]? = some c → c.id = ch.id → j = idx := by
    intro j c hc hid
    have hj := findIdx?_key hn hc
    have hi := findIdx?_key hn hch
    rw [hid] at hj
    exact Option.some.inj (hj.symm.trans hi)
  simp only [takeLeader, hl, Bool.false_eq_true, if_false]
  refine List.ext_getElem? fun j => ?_
  simp only [List.getElem?_map]
  by_cases hm : ch.mode = .rwNoLeader
  · simp only [hm, decide_true, if_true, List.getElem?_set]
    by_cases hj : idx = j
    · subst hj
      obtain ⟨hlt, hget⟩ := List.getElem?_eq_some_iff.1 hch
      simp [hlt, hget, promote, ClientHandle.member, ClientHandle.overflowed, ClientHandle.leaderHeard,
        ClientHandle.lockHeard]
    · rw [if_neg hj]
      cases hc : s.clients[j]? with
      | none => rfl
      | some c =>
        have hne : c.id ≠ ch.id := fun he => hj (hother j c hc he).symm
        simp [promote, ClientHandle.member, ClientHandle.overflowed, ClientHandle.leaderHeard,
          ClientHandle.lockHeard, hne]
  · have hrw : ch.mode = .rw := by cases hmode : ch.mode <;> simp_all
    simp only [hm, decide_false, Bool.false_eq_true, if_false]
    cases hc : s.clients[j]? with
    | none => rfl
    | some c =>
      by_cases he : c.id = ch.id
      · obtain rfl := hother j c hc he
        rw [hch, Option.some.injEq] at hc
        subst hc
        simp [promote, ClientHandle.member, ClientHandle.overflowed, ClientHandle.leaderHeard,
          ClientHandle.lockHeard, hrw]
      · simp [promote, ClientHandle.member, ClientHandle.overflowed, ClientHandle.leaderHeard,
          ClientHandle.lockHeard, he]

/-- What the daemon and a client have to do with each other but for its role: what it was offered,
and what decides about the next enqueue. -/
structure Wire where
  id : ClientId
  offers : List Offer
  send : SendQueue
  bufferLimit : Nat
  negotiatedCaps : List Cap

def ClientHandle.wire (ch : ClientHandle) : Wire := {
  id := ch.id
  offers := ch.offers
  send := ch.send
  bufferLimit := ch.bufferLimit
  negotiatedCaps := ch.negotiatedCaps }

/-- What does not depend on anybody's role is as it was. -/
theorem takeLeader_map {γ : Type} {f : ClientHandle → γ} (hf : ∀ c mode leader, f { c with mode, leader } = f c)
    (ch : ClientHandle) (hch : s.clients[idx]? = some ch) :
    (takeLeader s.clients idx ch).1.map f = s.clients.map f := by
  have hleader : ∀ (c : ClientHandle) leader, f { c with leader } = f c := fun c leader => hf c c.mode leader
  unfold takeLeader
  split
  · rfl
  · dsimp only
    rw [List.map_map]
    split
    · refine List.ext_getElem? fun j => ?_
      simp only [List.getElem?_map, List.getElem?_set]
      split <;> rename_i hj
      · subst hj
        obtain ⟨hlt, hget⟩ := List.getElem?_eq_some_iff.1 hch
        simp [hlt, hget, hf]
      · cases s.clients[j]? with
        | none => rfl
        | some c => exact congrArg some (hleader c _)
    · exact List.map_congr_left fun c _ => hleader c _

theorem accounted_congr {s' : Session} (h : s.Accounted ov)
    (hc : s'.clients.map (·.wire) = s.clients.map (·.wire))
    (hm : s'.missed = s.missed) (hn : s'.nextClientId = s.nextClientId) : s'.Accounted ov := by
  have hmem : ∀ ch' ∈ s'.clients, ∃ ch ∈ s.clients, ch.id = ch'.id ∧ ch.offers = ch'.offers ∧ ch.send = ch'.send := by
    intro ch' hch'
    obtain ⟨ch, hch, he⟩ := List.mem_map.1 (hc ▸ List.mem_map_of_mem (f := ClientHandle.wire) hch')
    exact ⟨ch, hch, congrArg Wire.id he, congrArg Wire.offers he, congrArg Wire.send he⟩
  refine ⟨fun ch' hch' ho => ?_, fun ch' hch' hid => ?_, fun id hid => hn ▸ h.fresh id (hm ▸ hid), fun ch' hch' => ?_⟩
  · obtain ⟨ch, hch, hid, hoff, -⟩ := hmem ch' hch'
    rw [← hid, hm]
    exact h.gap ch hch (by unfold ClientHandle.overflowed at ho ⊢; rwa [hoff])
  · obtain ⟨ch, hch, hid', hoff, -⟩ := hmem ch' hch'
    have ho := h.missed ch hch (hid' ▸ hm ▸ hid)
    unfold ClientHandle.overflowed at ho ⊢
    rwa [← hoff]
  · obtain ⟨ch, hch, -, hoff, hsend⟩ := hmem ch' hch'
    have hs := h.sent ch hch
    unfold ClientHandle.OffersSent at hs ⊢
    rwa [← hoff, ← hsend]

theorem handleLeaderRequest_chatted (h : Mid s d ov) :
    Chatted W s d (handleLeaderRequest W s d.lock idx).1 d ov ∧ (handleLeaderRequest W s d.lock idx).2 = .continue := by
  refine guarded_chatted h fun _ _ _ => guarded_chatted h fun ch hch hro => ?_
  have hro : ch.mode ≠ .ro := by simpa using hro
  cases hl : ch.leader with
  | true =>
    have htake : takeLeader s.clients idx ch = (s.clients, .alreadyLeader ch.id) := by simp [takeLeader, hl]
    rw [htake]
    dsimp only
    have hleads : (s.registry d.lock.holder).Leads (some ch.id) :=
      ⟨ch.member, List.mem_map_of_mem (List.mem_of_getElem? hch), hl, rfl⟩
    have hn : Notifies W (s.registry d.lock.holder).Leads (· = lockNotice d.lock.holder) False False [] s
        (s.reply W idx (.leaderNotify (some ch.id))) :=
      reply_notifies s idx (fun x hx => Option.some.inj hx ▸ hleads) fun _ hx => nomatch hx
    have hc := Talks.chatted h hn.talks hn.told rfl h.idle
    exact ⟨by rwa [List.append_nil] at hc, rfl⟩
  | false =>
    have htake : takeLeader s.clients idx ch =
        ((takeLeader s.clients idx ch).1, .taken ch.id (decide (ch.mode = .rwNoLeader))) := by simp [takeLeader, hl]
    rw [htake]
    dsimp only
    have hmembers := takeLeader_members h.ids hch hro hl
    have hoffers := takeLeader_map (f := ClientHandle.wire) (fun _ _ _ => rfl) ch hch
    generalize hs₁ : ({ s with clients := (takeLeader s.clients idx ch).1 } : Session) = s₁
    have hreg : s₁.clients.map (·.member) = (s.clients.map (·.member)).map (promote ch.id) := hs₁ ▸ hmembers
    have hmid : Mid s₁ d ov := by
      refine ⟨?_, ?_, h.lock, h.idle⟩
      · have hsound := sound_promote h.sound ch.id
        have heq : s₁.registry d.lock.holder =
            { s.registry d.lock.holder with members := (s.registry d.lock.holder).members.map (promote ch.id) } := by
          simp only [Session.registry, ← hs₁, hmembers]
        rw [heq]
        exact hsound
      · exact accounted_congr h.accounted (hs₁ ▸ hoffers) (hs₁ ▸ rfl) (hs₁ ▸ rfl)
    -- the change of mode goes to the requester, the new leader to everybody
    have hreply : Notifies W (· = some ch.id) (· = lockNotice d.lock.holder) False False [] s₁
        (if decide (ch.mode = .rwNoLeader) = true then
          s₁.reply W idx (.modeChange { sessionMode := d.lock.sessionMode, lockHolder := d.lock.holder, clientMode := some .rw })
        else s₁) := by
      split
      · refine reply_notifies s₁ idx (fun _ hx => nomatch hx) fun x hx => ?_
        rw [← Option.some.inj hx, LockState.sessionMode]
        cases d.lock.holder <;> rfl
      · exact .refl s₁
    generalize (if decide (ch.mode = .rwNoLeader) = true then
        s₁.reply W idx (.modeChange { sessionMode := d.lock.sessionMode, lockHolder := d.lock.holder, clientMode := some .rw })
      else s₁) = s₂ at hreply ⊢
    have hall : Notifies W (· = some ch.id) (· = lockNotice d.lock.holder) True False ([] ++ []) s₁
        (s₂.broadcastControlIgnoring W (.leaderNotify (some ch.id))) :=
      (hreply.trans (leaderNotify_notifies s₂ (some ch.id)).ignore).weaken (fun _ hx => hx) (fun _ hx => hx)
        (fun _ => .inr trivial) False.elim
    have hnext : (s₂.broadcastControlIgnoring W (.leaderNotify (some ch.id))).nextClientId = s.nextClientId :=
      hall.talks.nextClientId.trans (hs₁ ▸ rfl)
    have hchat : Chat (Encodes W) (s.registry d.lock.holder)
        ((s₂.broadcastControlIgnoring W (.leaderNotify (some ch.id))).registry d.lock.holder) := by
      have htold := hall.told
      rw [hreg] at htold
      have hc : Chat (Encodes W) (s.registry d.lock.holder) _ :=
        .take ⟨ch.member, List.mem_map_of_mem (List.mem_of_getElem? hch), rfl⟩ htold
      simpa only [Session.registry, hnext] using hc
    refine ⟨⟨⟨hchat.sound h.sound, ?_, h.lock, h.idle⟩, .single hchat, ?_⟩, rfl⟩
    · have hacc := accounted_talks hmid hall.talks
      rwa [List.append_nil, List.append_nil] at hacc
    · exact hall.talks.child.trans (hs₁ ▸ rfl)

/-! ## The lock -/

/-- A transition of the lock asked for by an attached client, its effects executed. -/
theorem reduceMsg_chatted (h : Mid s d ov) (msg : LockMsg)
    (hmsg : ∀ id token, msg = .acquire id token → ∃ ch ∈ s.clients, ch.id = id) :
    Chatted W s d (executeIgnoringOverflow W { d with lock := (d.lock.reduceMsg msg).1 } (d.lock.reduceMsg msg).2.1 s).1
      (executeIgnoringOverflow W { d with lock := (d.lock.reduceMsg msg).1 } (d.lock.reduceMsg msg).2.1 s).2 ov := by
  have hmoved := reduceMsg_moved d.lock msg
  obtain ⟨hd, hn⟩ := executeIgnoringOverflow_lock (W := W) (L := fun _ => False)
    { d with lock := (d.lock.reduceMsg msg).1 } s hmoved.effect
  rw [hd]
  have hc : Chatted W s d _ { d with lock := (d.lock.reduceMsg msg).1 } _ := Notifies.lock_chatted h
    (hn.weaken (fun _ hx => hx) (fun _ hx => hx) (fun hx => hx) hmoved.announced) hmoved.free
    (fun id hid => (hmoved.holder id hid).imp (fun hx => hx) fun ⟨token, ht⟩ => hmsg id (some token) ht)
    (hmoved.ok h.lock) h.idle
  rwa [List.append_nil] at hc

theorem Chatted.after_logs {s' : Session} {d' : DaemonState} {ov' : List ClientId} {e : LogEntry}
    (h : Chatted W (s.logs e) d s' d' ov') : Chatted W s d s' d' ov' := ⟨h.mid, h.chats, h.child⟩

theorem Mid.logs (h : Mid s d ov) (e : LogEntry) : Mid (s.logs e) d ov :=
  ⟨h.sound, ⟨h.accounted.gap, h.accounted.missed, h.accounted.fresh, h.accounted.sent⟩, h.lock, h.idle⟩

theorem plain_chatted (h : Mid s d ov) {s' : Session} (ht : Talks (·.plain = true) [] s s') :
    Chatted W s d s' d ov := by
  have hc : Chatted W s d s' d (ov ++ []) := Talks.quiet_chatted h ht.quiet rfl h.idle
  rwa [List.append_nil] at hc

theorem handleLockAcquire_chatted (h : Mid s d ov) (env : FrameEnv) :
    Chatted W s d (handleLockAcquire W env s d idx).1 (handleLockAcquire W env s d idx).2.1 ov ∧
      (handleLockAcquire W env s d idx).2.2 = .continue := by
  unfold handleLockAcquire
  split
  · exact ⟨.refl h, rfl⟩
  · rename_i ch hch
    have hmsg : ∀ t id token, LockMsg.acquire ch.id t = .acquire id token → ∃ c ∈ s.clients, c.id = id := by
      rintro t id token heq
      cases heq
      exact ⟨ch, List.mem_of_getElem? hch, rfl⟩
    split
    · exact ⟨plain_chatted h (refuse_talks s idx _ _), rfl⟩
    · split
      · exact ⟨plain_chatted h (refuse_talks s idx _ _), rfl⟩
      · rcases reduceMsg_acquire_none d.lock ch.id with heq | ⟨ev, hev, hne⟩
        · rw [heq]
          simp only [List.any_cons, List.any_nil, Bool.or_false, if_true]
          split
          · exact ⟨plain_chatted h ((reply_plain W s idx rfl).then (refuse_talks _ idx _ _)), rfl⟩
          · rename_i token _
            split
            · exact ⟨(reduceMsg_chatted (h.logs _) _ (hmsg (some token))).after_logs, rfl⟩
            · exact ⟨reduceMsg_chatted h _ (hmsg (some token)), rfl⟩
        · dsimp only
          split <;> rename_i hany
          · rw [hev] at hany
            cases ev <;> simp_all
          · exact ⟨reduceMsg_chatted h _ (hmsg none), rfl⟩

theorem handleLockRelease_chatted (h : Mid s d ov) (token : String) :
    Chatted W s d (handleLockRelease W s d idx token).1 (handleLockRelease W s d idx token).2.1 ov ∧
      (handleLockRelease W s d idx token).2.2 = .continue := by
  unfold handleLockRelease
  split
  · exact ⟨.refl h, rfl⟩
  · rename_i ch hch
    dsimp only
    split
    · exact ⟨(reduceMsg_chatted (h.logs _) (.release ch.id token) (by simp)).after_logs, rfl⟩
    · exact ⟨reduceMsg_chatted h (.release ch.id token) (by simp), rfl⟩

/-! ## Raw input -/

theorem handleRawData_chatted (h : Mid s d ov) (env : FrameEnv) (body : Bytes) :
    Chatted W s d (handleRawData W env s d idx body).1 (handleRawData W env s d idx body).2.1
      (ov ++ dropIds s idx (handleRawData W env s d idx body).2.2) := by
  unfold handleRawData
  split
  · exact (Chatted.refl h).more fun id hid => List.mem_append_left _ hid
  · rename_i ch hch
    split
    · exact (plain_chatted h (refuse_talks s idx _ _)).more fun id hid => List.mem_append_left _ hid
    · obtain ⟨clients, hidle, ctx', heq, hraw, -⟩ := rawInput_handled (W := W) h.idle h.ids hch body env.tty
      dsimp only
      rw [heq]
      have ht : Talks Outgoing.Quiet [] s (ctx'.session.ignore (ctx'.overflowIds.filter (· ≠ ch.id))) :=
        hraw.talks.ignoring fun _ hid => nomatch hid
      have hc : Chatted W s d _ { d with clients } _ := Talks.quiet_chatted h ht rfl hidle
      exact hc.more fun id hid => by
        rw [List.append_nil] at hid
        exact List.mem_append_left _ hid

/-! ## Every frame -/

theorem handleControlMessage_chatted (h : Mid s d ov) (env : FrameEnv) (msg : ControlMessage) :
    Chatted W s d (handleControlMessage W cfg env s d idx msg).1 (handleControlMessage W cfg env s d idx msg).2.1
      (ov ++ dropIds s idx (handleControlMessage W cfg env s d idx msg).2.2) := by
  have hcontinue : ∀ {r : HandledWith}, Chatted W s d r.1 r.2.1 ov ∧ r.2.2 = .continue →
      Chatted W s d r.1 r.2.1 (ov ++ dropIds s idx r.2.2) := fun hr => hr.1.more fun _ hid => List.mem_append_left _ hid
  cases msg with
  | detach target => exact quietly_chatted h (handleDetachTarget_quietly target)
  | kill signal wait => exact quietly_chatted h (handleKill_quietly signal wait)
  | signal signal => exact quietly_chatted h (handleSignal_quietly signal)
  | resize cols rows => exact quietly_chatted h (handleResize_quietly cols rows)
  | leaderRequest => exact hcontinue (r := withDaemon d (handleLeaderRequest W s d.lock idx)) (handleLeaderRequest_chatted h)
  | lockAcquire wait abs idle bound => exact hcontinue (handleLockAcquire_chatted h env)
  | lockRelease token => exact hcontinue (handleLockRelease_chatted h token)
  | tailRequest req => exact quietly_chatted h (handleTailRequestDispatch_quietly env req)
  | statusQuery => exact quietly_chatted h (handleStatusQuery_quietly env d.lock)
  | screenDumpRequest format layer serial => exact quietly_chatted h (handleScreenDumpRequest_quietly format layer serial)
  | stateSnapshotRequest components serial => exact quietly_chatted h (handleStateSnapshotRequest_quietly components serial)
  | sessionChildResumeRequest => exact quietly_chatted h handleSessionChildResumeRequest_quietly
  | recordStartRequest req => exact quietly_chatted h (handleRecordStartRequest_quietly req)
  | recordStopRequest recordId => exact quietly_chatted h (handleRecordStopRequest_quietly recordId)
  | recordStopAllRequest => exact quietly_chatted h handleRecordStopAllRequest_quietly
  | recordListRequest => exact quietly_chatted h handleRecordListRequest_quietly
  | setRequest key value => exact quietly_chatted h (handleSetRequest_quietly key value)
  | upgradeRequest binaryPath => exact quietly_chatted h (handleUpgradeRequest_quietly env binaryPath)
  | _ => exact quietly_chatted h rejectUnexpectedKind_quietly

theorem handleClientFrame_chatted (cfg : Config) (idx : Nat) (h : Mid s d ov) (env : FrameEnv) (frame : Frame) :
    Chatted W s d (handleClientFrame W cfg env s d idx frame).1 (handleClientFrame W cfg env s d idx frame).2.1
      (ov ++ dropIds s idx (handleClientFrame W cfg env s d idx frame).2.2) := by
  unfold handleClientFrame
  split
  · exact handleRawData_chatted h env frame.body
  · split
    · split
      · exact handleControlMessage_chatted h env _
      · exact (Chatted.refl h).more fun id hid => List.mem_append_left _ hid
    · exact (Chatted.refl h).more fun id hid => List.mem_append_left _ hid

end Handled

end Hyoui.Daemon
