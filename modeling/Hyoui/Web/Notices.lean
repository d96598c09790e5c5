import Hyoui.Web.Moves
/-!
# Leader and mode

The gateway believes what the handshake said until a notice says otherwise, and tells the browser with every
change. Notices come in three receive loops. Two of them heed a notice; the wait of a resize drops it,
and the wait for an ack sets it aside. `told_at_top` is for the runs where no notice comes to these two.
-/

namespace Hyoui.Web

open Hyoui.Lib Hyoui.Protocol Hyoui.Client

/-- A notice: of the leader, or of the mode of a client. -/
def isNotice (C : Codec) (f : Frame) : Bool :=
  f.ty = typeCborControl && match C.decode f.body with
    | some (.leaderNotify _) => true
    | some (.modeChange change) => change.clientMode.isSome
    | _ => false

/-- What a client with the id `own` is to believe after a message. -/
def believe (own : ClientId) (s : Bool × Mode) : ControlMessage → Bool × Mode
  | .leaderNotify clientId => (decide (clientId = some own), s.2)
  | .modeChange change => (s.1, change.clientMode.getD s.2)
  | _ => s

def heed (C : Codec) (own : ClientId) (s : Bool × Mode) (f : Frame) : Bool × Mode :=
  if f.ty = typeCborControl then
    match C.decode f.body with
    | some message => believe own s message
    | none => s
  else s

def Act.frameRead : Act → Option Frame
  | .read f => some f
  | _ => none

def Act.attachInfo : Act → Option (AttachMode × Bool)
  | .output (.control (.attachInfo mode leader)) => some (mode, leader)
  | _ => none

namespace Bridge

/-- What the frames read so far say of the leader and the mode, from the handshake on. -/
def heard (C : Codec) (response : HandshakeResponse) (b : Bridge) : Bool × Mode :=
  (b.log.filterMap Act.frameRead).foldl (heed C response.clientId) (response.leader, response.mode)

/-- The last `attach.info` sent to the browser. -/
def lastInfo (b : Bridge) : Option (AttachMode × Bool) := (b.log.filterMap Act.attachInfo).getLast?

/-- The gateway believes what it heard, and the browser was told last. -/
structure Informed (C : Codec) (response : HandshakeResponse) (b : Bridge) : Prop where
  leader : b.conn.response.leader = (b.heard C response).1
  mode : b.conn.response.mode = (b.heard C response).2
  told : b.lastInfo = some (.ofMode b.conn.response.mode, b.conn.response.leader)

/-- No notice comes while an ack is awaited or to the wait of a resize. -/
def Heeding (C : Codec) (b : Bridge) : Event → Prop
  | .ackWait (.read (.ok frame)) => isNotice C frame = false
  | .receive read _ =>
    match b.phase, (b.conn.recvFrame read).1 with
    | .awaitingResize .., .ok frame => isNotice C frame = false
    | _, _ => True
  | _ => True

instance (C : Codec) (b : Bridge) : DecidablePred (b.Heeding C)
  | .ackWait (.read (.ok frame)) => inferInstanceAs (Decidable (isNotice C frame = false))
  | .ackWait (.read (.error _)) => .isTrue trivial
  | .ackWait .deadline | .ackWait .pollTimeout | .ackWait .pollInterrupted | .ackWait (.pollFailed _) => .isTrue trivial
  | .receive _ _ => by
    unfold Heeding
    dsimp only
    split <;> infer_instance
  | .browser _ | .readerGone | .writerGone | .poll .. | .control _ => .isTrue trivial

/-! ## What was heard and what is believed -/

variable {C : Codec} {response : HandshakeResponse} {b b' : Bridge} {s : Bool × Mode}

theorem heed_other {own : ClientId} {f : Frame} (h : isNotice C f = false) : heed C own s f = s := by
  unfold heed
  split
  · rename_i hty
    simp only [isNotice, hty, decide_true, Bool.true_and] at h
    split
    · rename_i message hdec
      rw [hdec] at h
      cases message with
      | leaderNotify clientId => cases h
      | modeChange change =>
        have hnone : change.clientMode = none := by simpa using h
        simp [believe, hnone]
      | _ => rfl
    · rfl
  · rfl

/-- The frames read say `s`, and no notice is set aside. -/
structure Hears (C : Codec) (response : HandshakeResponse) (b : Bridge) (s : Bool × Mode) : Prop where
  heard : b.heard C response = s
  own : b.conn.response.clientId = response.clientId
  aside : ∀ f ∈ b.conn.pendingFrames, isNotice C f = false

/-- What the gateway believes. -/
def belief (b : Bridge) : Bool × Mode := (b.conn.response.leader, b.conn.response.mode)

structure Current (C : Codec) (response : HandshakeResponse) (b : Bridge) : Prop where
  hears : b.Hears C response b.belief
  told : b.lastInfo = some (.ofMode b.conn.response.mode, b.conn.response.leader)

theorem quiet_notices {acts : List Act} (h : ∀ a ∈ acts, a.quiet = true) :
    acts.filterMap Act.frameRead = [] ∧ acts.filterMap Act.attachInfo = [] := by
  rw [List.filterMap_eq_nil_iff, List.filterMap_eq_nil_iff]
  refine ⟨fun a ha => ?_, fun a ha => ?_⟩ <;> have hq := h a ha
  · cases a <;> first | rfl | cases hq
  · cases a with
    | output o =>
      cases o with
      | bytes _ => rfl
      | control frame => cases frame <;> first | rfl | cases hq
    | _ => rfl

theorem Current.kept (h : b.Current C response) (hk : b.Kept b') : b'.Current C response := by
  obtain ⟨acts, hlog, hacts⟩ := hk.acts
  obtain ⟨hread, hinfo⟩ := quiet_notices hacts
  refine ⟨⟨?_, ?_, ?_⟩, ?_⟩
  · rw [belief, hk.response]
    simpa [heard, hlog, hread, belief] using h.hears.heard
  · rw [hk.response]
    exact h.hears.own
  · rw [hk.pending]
    exact h.hears.aside
  · rw [hk.response]
    simpa [lastInfo, hlog, hinfo] using h.told

/-- The bridge ended, or its belief is current. -/
def Sound (C : Codec) (response : HandshakeResponse) (b : Bridge) : Prop :=
  (∃ result, b.phase = .done result) ∨ b.Current C response

theorem Current.settles (h : b.Current C response) (hs : b.Settles b') : b'.Sound C response := .inr (h.kept hs.1)

/-- A frame was received, and is not yet heeded. -/
structure Unheeded (C : Codec) (response : HandshakeResponse) (b : Bridge) (f : Frame) : Prop where
  hears : b.Hears C response (heed C response.clientId b.belief f)
  told : b.lastInfo = some (.ofMode b.conn.response.mode, b.conn.response.leader)

theorem Unheeded.current {f : Frame} (h : b.Unheeded C response f) (hf : isNotice C f = false) : b.Current C response := by
  refine ⟨?_, h.told⟩
  have hhears := h.hears
  rwa [heed_other hf] at hhears

theorem Current.received {read : Except FrameError Frame} {f : Frame} (h : b.Current C response)
    (hf : (b.conn.recvFrame read).1 = .ok f) : (b.received read).Unheeded C response f := by
  rcases recvFrame_ok hf with ⟨rest, hpend, hlog, hconn⟩ | ⟨hpend, hlog, hconn⟩
  · have hother : isNotice C f = false := h.hears.aside f (by rw [hpend]; exact List.mem_cons_self)
    refine ⟨⟨?_, ?_, fun g hg => h.hears.aside g ?_⟩, ?_⟩
    · rw [heed_other hother]
      simpa [heard, belief, Bridge.received, note, hlog, hconn] using h.hears.heard
    · simpa [Bridge.received, hconn] using h.hears.own
    · simp only [Bridge.received, hconn] at hg
      rw [hpend]
      exact List.mem_cons_of_mem _ hg
    · simpa [lastInfo, Bridge.received, note, hlog, hconn] using h.told
  · refine ⟨⟨?_, ?_, fun g hg => h.hears.aside g ?_⟩, ?_⟩
    · have hheard := h.hears.heard
      simp only [heard, belief] at hheard
      simp [heard, belief, Bridge.received, note, hlog, hconn, Act.frameRead, hheard]
    · simpa [Bridge.received, hconn] using h.hears.own
    · simpa only [Bridge.received, hconn] using hg
    · simpa [lastInfo, Bridge.received, note, hlog, hconn, Act.attachInfo] using h.told

/-- Output bytes say nothing of leader and mode. -/
theorem Unheeded.forward {f : Frame} {raw : Bytes} (h : b.Unheeded C response f) (hf : b.forward raw = some b') :
    b'.Unheeded C response f := by
  unfold Bridge.forward at hf
  split at hf
  · cases hf
    exact h
  · simp only [emit, Option.ite_none_right_eq_some, Option.some.injEq] at hf
    obtain ⟨-, rfl⟩ := hf
    refine ⟨⟨?_, h.hears.own, h.hears.aside⟩, ?_⟩
    · simpa [heard, belief, note, List.filterMap_cons, Act.frameRead] using h.hears.heard
    · simpa [lastInfo, note, Act.attachInfo] using h.told

/-- The browser is told what the gateway believes. -/
theorem Hears.tell (h : b.Hears C response b.belief) (hi : b.sendAttachInfo = some b') :
    b'.Current C response ∧ b'.phase = b.phase := by
  simp only [sendAttachInfo, emit, Option.ite_none_right_eq_some, Option.some.injEq] at hi
  obtain ⟨-, rfl⟩ := hi
  refine ⟨⟨⟨?_, h.own, h.aside⟩, ?_⟩, rfl⟩
  · simpa [Bridge.heard, belief, note, List.filterMap_cons, Act.frameRead] using h.heard
  · simp [lastInfo, note, Act.attachInfo]

section Messages

variable {f : Frame} {clientId : Option ClientId} {change : ModeChange} {mode : Mode}

theorem heed_message {own : ClientId} {message : ControlMessage} (hty : f.ty = typeCborControl)
    (hdec : C.decode f.body = some message) : heed C own s f = believe own s message := by
  rw [heed, if_pos hty, hdec]

theorem Unheeded.setLeader (h : b.Unheeded C response f) (hty : f.ty = typeCborControl)
    (hdec : C.decode f.body = some (.leaderNotify clientId)) :
    (b.setLeader clientId).Hears C response (b.setLeader clientId).belief := by
  refine ⟨?_, h.hears.own, h.hears.aside⟩
  have hheard := h.hears.heard
  rw [heed_message hty hdec] at hheard
  simpa [heard, belief, Bridge.setLeader, believe, h.hears.own] using hheard

theorem Unheeded.setMode (h : b.Unheeded C response f) (hty : f.ty = typeCborControl)
    (hdec : C.decode f.body = some (.modeChange change)) (hmode : change.clientMode = some mode) :
    (b.setMode mode).Hears C response (b.setMode mode).belief := by
  refine ⟨?_, h.hears.own, h.hears.aside⟩
  have hheard := h.hears.heard
  rw [heed_message hty hdec] at hheard
  simpa [heard, belief, Bridge.setMode, believe, hmode] using hheard

theorem isNotice_message {message : ControlMessage} (hdec : C.decode f.body = some message)
    (hm : (∀ id, message ≠ .leaderNotify id) ∧ ∀ change, message = .modeChange change → change.clientMode = none) :
    isNotice C f = false := by
  simp only [isNotice, hdec, Bool.and_eq_false_iff]
  refine .inr ?_
  split
  · rename_i id heq
    exact absurd (Option.some.inj heq) (hm.1 id)
  · rename_i change heq
    rw [hm.2 change (Option.some.inj heq)]
    rfl
  · rfl

theorem isNotice_other (hty : f.ty ≠ typeCborControl) : isNotice C f = false := by
  rw [isNotice, decide_eq_false hty, Bool.false_and]

theorem isNotice_undecoded (hdec : f.ty = typeCborControl → C.decode f.body = none) : isNotice C f = false := by
  by_cases hty : f.ty = typeCborControl
  · rw [isNotice, hdec hty, Bool.and_false]
  · exact isNotice_other hty

end Messages

/-! ## Every step -/

section Steps

/-- The bridge ended, or is at the top of the loop with a current belief. -/
def SoundAtTop (C : Codec) (response : HandshakeResponse) (b : Bridge) : Prop :=
  (∃ result, b.phase = .done result) ∨ b.phase = .top ∧ b.Current C response

theorem SoundAtTop.sound (h : b.SoundAtTop C response) : b.Sound C response := h.imp_right (·.2)

theorem Hears.passAttachInfo (h : b.Hears C response b.belief) (htop : b.phase = .top) :
    b.passAttachInfo.SoundAtTop C response := by
  unfold Bridge.passAttachInfo
  cases hinfo : b.sendAttachInfo with
  | none => exact .inl ⟨_, rfl⟩
  | some b' =>
    obtain ⟨hcurrent, hphase⟩ := h.tell hinfo
    exact .inr ⟨hphase.trans htop, hcurrent⟩

theorem Unheeded.onFrame {f : Frame} (h : b.Unheeded C response f) (htop : b.phase = .top) :
    (b.onFrame C f).SoundAtTop C response := by
  unfold Bridge.onFrame
  by_cases hr : f.ty = typeRawData
  · rw [if_pos hr]
    have hother : isNotice C f = false := isNotice_other (by rw [hr]; decide)
    cases he : b.emit (.bytes f.body) with
    | none => exact .inl ⟨_, rfl⟩
    | some b' =>
      simp only [emit, Option.ite_none_right_eq_some, Option.some.injEq] at he
      obtain ⟨-, rfl⟩ := he
      have hcur := h.current hother
      refine .inr ⟨htop, ⟨?_, hcur.hears.own, hcur.hears.aside⟩, ?_⟩
      · simpa [Bridge.heard, belief, note, List.filterMap_cons, Act.frameRead] using hcur.hears.heard
      · simpa [lastInfo, note, Act.attachInfo] using hcur.told
  rw [if_neg hr]
  by_cases hty : f.ty = typeCborControl
  · rw [if_pos hty]
    unfold onControl
    split
    · exact .inl ⟨_, rfl⟩
    · rename_i clientId hdec
      exact (h.setLeader hty hdec).passAttachInfo htop
    · rename_i change hdec
      split
      · rename_i hmode
        refine .inr ⟨htop, h.current (isNotice_message hdec ⟨fun id hid => ?_, fun c hc => ?_⟩)⟩
        · cases hid
        · cases hc
          exact hmode
      · rename_i mode hmode
        exact (h.setMode hty hdec hmode).passAttachInfo htop
    · rename_i message hleader hmode hdec
      refine .inr ⟨htop, h.current (isNotice_message hdec ⟨fun id hid => ?_, fun change hc => ?_⟩)⟩
      · exact (hleader id hid).elim
      · exact (hmode change hc).elim
  · rw [if_neg hty]
    exact .inr ⟨htop, h.current (isNotice_other hty)⟩

theorem Current.onReader (h : b.Current C response) (htop : b.phase = .top) (read : Except FrameError Frame) :
    (b.onReader C read).SoundAtTop C response := by
  unfold Bridge.onReader
  split
  · rename_i frame conn heq
    have hrec := h.received (f := frame) (congrArg Prod.fst heq)
    rw [Bridge.received, heq] at hrec
    exact hrec.onFrame htop
  · exact .inl ⟨_, rfl⟩

theorem Current.onPoll (h : b.Current C response) (htop : b.phase = .top) (p : Poll) (read : Except FrameError Frame)
    (w : Except IoError Unit) : (b.onPoll C p read w).Sound C response := by
  cases p with
  | interrupted => exact .inr h
  | failed message => exact .inl ⟨_, rfl⟩
  | ready reader wake =>
    have hread : (if reader then b.onReader C read else b).SoundAtTop C response := by
      split
      · exact h.onReader htop read
      · exact .inr ⟨htop, h⟩
    simp only [Bridge.onPoll]
    generalize (if reader then b.onReader C read else b) = b₁ at hread
    split
    · rename_i hwake
      rcases hread with ⟨result, hdone⟩ | ⟨-, hcur⟩
      · rw [hwake.1] at hdone
        cases hdone
      · exact hcur.settles (onWake_settles w)
    · exact hread.sound

theorem Current.onAckWait {e : ClientConnection.AckWait} {rest : List PendingControl} {shutdown : Bool}
    (h : b.Current C response) (he : ∀ frame, e = .read (.ok frame) → isNotice C frame = false) :
    (b.onAckWait C e rest shutdown).Sound C response := by
  obtain ⟨hresponse, hpend⟩ := awaitAck_conn C b.conn e
  have hread : ({ b.note (readByAck e) with conn := (b.conn.awaitAck C e).2 } : Bridge).Current C response := by
    refine ⟨⟨?_, ?_, fun f hf => ?_⟩, ?_⟩
    · have hheard := h.hears.heard
      simp only [Bridge.heard, belief] at hheard
      simp only [Bridge.heard, belief, note, hresponse, List.filterMap_append, List.foldl_append, hheard]
      unfold readByAck
      split
      · rename_i frame
        exact heed_other (he frame rfl)
      · rfl
    · simpa only [hresponse] using h.hears.own
    · rcases hpend with hpend | ⟨frame, rfl, hpend⟩
      · exact h.hears.aside f (by simpa only [hpend] using hf)
      · simp only [hpend] at hf
        rcases List.mem_append.1 hf with hf | hf
        · exact h.hears.aside f hf
        · obtain rfl := List.mem_singleton.1 hf
          exact he f rfl
    · have hinfo : (readByAck e).filterMap Act.attachInfo = [] := by
        unfold readByAck
        split <;> rfl
      simpa only [lastInfo, note, hresponse, List.filterMap_append, hinfo, List.append_nil] using h.told
  unfold Bridge.onAckWait
  split
  · rename_i conn heq
    rw [heq] at hread
    exact .inr hread
  · rename_i result conn heq
    rw [heq] at hread
    exact hread.settles (afterSend_settles result rest shutdown)

/-- A turn that hands the message it receives to `handle` leaves the belief current, or the writer is gone. -/
theorem Current.waitTurn (h : b.Current C response) (awaiting : String) (handle : Bridge → ControlMessage → Turn)
    (raw : Bytes) (read : Except FrameError Frame)
    (hhandle : ∀ b' frame message, (b.conn.recvFrame read).1 = .ok frame → (b' : Bridge).Unheeded C response frame →
      frame.ty = typeCborControl → C.decode frame.body = some message →
      (handle b' message).2.Current C response ∨
        (handle b' message).2.writerOpen = false ∧ ∃ info, (handle b' message).1 = some (.error info)) :
    (b.waitTurn C awaiting handle raw read).1.2.Current C response ∨
      (b.waitTurn C awaiting handle raw read).1.2.writerOpen = false ∧
        ∃ info, (b.waitTurn C awaiting handle raw read).1.1 = some (.error info) := by
  rcases waitTurn_cases C b awaiting handle raw read with ⟨e, what, hrecv, hturn⟩ | ⟨frame, hrecv, hturn⟩
  · rw [hturn]
    exact .inl h
  have hrec := h.received hrecv
  rcases hturn with ⟨raw', hframe, hturn⟩ | ⟨e, raw', what, hframe, hturn⟩ | ⟨message, raw', hframe, hturn⟩
  · rw [hturn]
    exact .inl (hrec.current (isNotice_other (recvControlFrame_none hframe).1))
  · rw [hturn]
    exact .inl (hrec.current (isNotice_undecoded (recvControlFrame_error hframe)))
  · obtain ⟨hty, hdec⟩ := recvControlFrame_ok hframe
    rcases hturn with ⟨what, hfwd, hturn⟩ | ⟨b', hfwd, hturn⟩
    · rw [hturn]
      exact .inr ⟨forward_none hfwd, _, rfl⟩
    · rw [hturn]
      exact hhandle b' frame message hrecv (hrec.forward hfwd) hty hdec

/-- The wait of a resize drops what is no answer. -/
theorem Unheeded.resizeMessage {f : Frame} (h : b.Unheeded C response f) (hf : isNotice C f = false)
    (message : ControlMessage) : (b.resizeMessage message).2.Current C response := by
  unfold Bridge.resizeMessage
  split <;> exact h.current hf

/-- The wait of a leader request heeds notices. -/
theorem Unheeded.leaderMessage {f : Frame} {message : ControlMessage} (h : b.Unheeded C response f)
    (hty : f.ty = typeCborControl) (hdec : C.decode f.body = some message) :
    (b.leaderMessage message).2.Current C response ∨
      (b.leaderMessage message).2.writerOpen = false ∧ ∃ info, (b.leaderMessage message).1 = some (.error info) := by
  unfold Bridge.leaderMessage
  split
  · rename_i change
    split
    · rename_i hmode
      refine .inl (h.current (isNotice_message hdec ⟨nofun, fun c hc => ?_⟩))
      cases hc
      exact hmode
    · rename_i mode hmode
      have hset := h.setMode hty hdec hmode
      dsimp only
      split
      · rename_i hinfo
        exact .inr ⟨sendAttachInfo_none hinfo, _, rfl⟩
      · rename_i b' hinfo
        exact .inl (hset.tell hinfo).1
  · rename_i clientId
    have hset := h.setLeader hty hdec
    dsimp only
    split
    · rename_i hinfo
      exact .inr ⟨sendAttachInfo_none hinfo, _, rfl⟩
    · rename_i b' hinfo
      split <;> exact .inl (hset.tell hinfo).1
  · exact .inl (h.current (isNotice_message hdec ⟨nofun, nofun⟩))
  · rename_i hmode hleader _
    refine .inl (h.current (isNotice_message hdec ⟨fun id hid => ?_, fun change hc => ?_⟩))
    · exact (hleader id hid).elim
    · exact (hmode change hc).elim

theorem Sound.onReceive {read : Except FrameError Frame} {clear : Except IoError Unit} (h : b.Sound C response)
    (hheed : b.Heeding C (.receive read clear)) (hs : b.onReceive C read clear = some b') : b'.Sound C response := by
  unfold Bridge.onReceive at hs
  split at hs
  · rename_i asked raw rest shutdown hphase
    rcases h with ⟨result, hdone⟩ | hcur
    · rw [hphase] at hdone
      cases hdone
    have hturn := hcur.waitTurn "resize" Bridge.resizeMessage raw read
      fun b' frame message hrecv hun _ _ => .inl <| hun.resizeMessage (by
        simp only [Heeding, hphase, hrecv] at hheed
        exact hheed) message
    split at hs
    · rename_i b₁ raw₁ heq
      rw [heq] at hturn
      cases hs
      rcases hturn with hcur₁ | ⟨-, info, hnone⟩
      · exact .inr ⟨⟨hcur₁.hears.heard, hcur₁.hears.own, hcur₁.hears.aside⟩, hcur₁.told⟩
      · cases hnone
    · rename_i result b₁ raw₁ heq
      rw [heq] at hturn
      cases hs
      rcases hturn with hcur₁ | ⟨hgone, -⟩
      · exact hcur₁.settles (endResize_settles ..)
      · exact .inl ⟨_, endResize_closed hgone ..⟩
  · rename_i requestId raw rest shutdown hphase
    rcases h with ⟨result, hdone⟩ | hcur
    · rw [hphase] at hdone
      cases hdone
    have hturn := hcur.waitTurn "leader.request" Bridge.leaderMessage raw read
      fun b' frame message _ hun hty hdec => hun.leaderMessage hty hdec
    split at hs
    · rename_i b₁ raw₁ heq
      rw [heq] at hturn
      cases hs
      rcases hturn with hcur₁ | ⟨-, info, hnone⟩
      · exact .inr ⟨⟨hcur₁.hears.heard, hcur₁.hears.own, hcur₁.hears.aside⟩, hcur₁.told⟩
      · cases hnone
    · rename_i result b₁ raw₁ heq
      rw [heq] at hturn
      cases hs
      rcases hturn with hcur₁ | ⟨hgone, info, hres⟩
      · exact hcur₁.settles (endLeader_settles ..)
      · cases hres
        exact .inl ⟨_, endLeader_closed hgone ..⟩
  · cases hs

theorem Sound.step {e : Event} (h : b.Sound C response) (hheed : b.Heeding C e) (hs : b.step C e = some b') :
    b'.Sound C response := by
  have hcurrent : ∀ p, b.phase = p → (∀ result, p ≠ .done result) → b.Current C response := by
    intro p hp hdone
    rcases h with ⟨result, hd⟩ | hcur
    · exact absurd (hp.symm.trans hd) (hdone result)
    · exact hcur
  cases e with
  | browser cmd =>
    simp only [Bridge.step, Option.ite_none_left_eq_some, Option.some.injEq] at hs
    obtain ⟨-, rfl⟩ := hs
    exact h.imp_right fun hc => ⟨⟨hc.hears.heard, hc.hears.own, hc.hears.aside⟩, hc.told⟩
  | readerGone =>
    cases hs
    exact h.imp_right fun hc => ⟨⟨hc.hears.heard, hc.hears.own, hc.hears.aside⟩, hc.told⟩
  | writerGone =>
    cases hs
    exact h.imp_right fun hc => ⟨⟨hc.hears.heard, hc.hears.own, hc.hears.aside⟩, hc.told⟩
  | poll p read w =>
    simp only [Bridge.step, Option.ite_none_right_eq_some, Option.some.injEq] at hs
    obtain ⟨htop, rfl⟩ := hs
    exact (hcurrent _ htop (by simp)).onPoll htop p read w
  | ackWait e =>
    simp only [Bridge.step] at hs
    split at hs
    · rename_i rest shutdown hphase
      cases hs
      refine (hcurrent _ hphase (by simp)).onAckWait fun frame he => ?_
      subst he
      exact hheed
    · cases hs
  | control a =>
    simp only [Bridge.step] at hs
    split at hs
    · rename_i rest shutdown hphase
      cases hs
      exact (hcurrent _ hphase (by simp)).settles (onControls_settles a rest shutdown)
    · rename_i requestId cols rows rest shutdown hphase
      cases hs
      exact (hcurrent _ hphase (by simp)).settles (resizeOnConnection_settles ..)
    · cases hs
  | receive read clear => exact h.onReceive hheed hs

end Steps

end Bridge

/-- Whatever the order of notices, requests and timeouts: when no notice comes while an ack is awaited or to
the wait of a resize, the gateway believes the last notices it read, and told the browser so, whenever it
is at the top of its loop. -/
theorem told_at_top (C : Codec) (G : Gateway) (response : HandshakeResponse) {b : Bridge}
    (h : (bridge C G response).Reach (Bridge.Heeding C) b) (htop : b.phase = .top) : b.Informed C response := by
  have hsound : b.Sound C response := by
    refine h.inv (Bridge.Sound C response) ?_ ?_
    · rintro _ rfl
      exact .inr ⟨⟨rfl, rfl, nofun⟩, rfl⟩
    · intro b e b' _ hb hheed hs
      exact hb.step hheed hs
  rcases hsound with ⟨result, hdone⟩ | hcur
  · rw [htop] at hdone
    cases hdone
  · have hheard := hcur.hears.heard
    exact ⟨by rw [hheard]; rfl, by rw [hheard]; rfl, hcur.told⟩

def someoneLeads : Frame := .cborControl ((ControlMessage.cbor (.leaderNotify (some 2))).getD [])

/-- Another client takes the leader, and the bridge is woken by the notice. -/
theorem told_at_top_leader : ∃ b : Bridge,
    (bridge sampleCodec sampleGateway sampleResponse).Reach (Bridge.Heeding sampleCodec) b ∧
      b.conn.response.leader = false ∧ b.Informed sampleCodec sampleResponse := by
  have hinit : (bridge sampleCodec sampleGateway sampleResponse).Reach (Bridge.Heeding sampleCodec)
      (.start sampleGateway sampleResponse) := .init rfl
  obtain ⟨b, hb, htop, hleader⟩ := hinit.exists_run [.poll (.ready true false) (.ok someoneLeads) (.ok ())]
    (p := fun b => b.phase = .top ∧ b.conn.response.leader = false) (by decide +kernel)
  exact ⟨b, hb, hleader, told_at_top sampleCodec sampleGateway sampleResponse hb htop⟩

/-- A key is typed, and the notice comes before its ack. -/
def noticeBeforeAck : List Bridge.Event := [
  .browser (.bytes [0x61]), .poll (.ready false true) (.error (.protocol (.unexpectedEof ""))) (.ok ()),
  .ackWait (.read (.ok someoneLeads)), .ackWait (.read (.ok (.rawAck RawAck.ok.cbor))), .control {}]

/-- The gateway goes on as the leader, and so the browser was told. -/
theorem notice_left_waiting : ∃ b : Bridge,
    (bridge sampleCodec sampleGateway sampleResponse).Reachable b ∧ b.phase = .top ∧
      ¬ b.Informed sampleCodec sampleResponse := by
  have hinit : (bridge sampleCodec sampleGateway sampleResponse).Reachable (.start sampleGateway sampleResponse) :=
    .init rfl
  obtain ⟨b, hb, htop, hleader, hheard⟩ := hinit.exists_run noticeBeforeAck
    (p := fun b => b.phase = .top ∧ b.conn.response.leader = true ∧ (b.heard sampleCodec sampleResponse).1 = false)
    (by decide +kernel)
  refine ⟨b, hb, htop, fun hi => ?_⟩
  have := hi.leader
  rw [hleader, hheard] at this
  cases this

end Hyoui.Web
