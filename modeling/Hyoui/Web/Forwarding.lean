import Hyoui.Web.Moves
/-!
# The output of the child reaches the browser

What the bridge has read of the child's output and what it has sent to the browser differ by the frames
set aside during the wait for an ack and by the bytes held in the wait of a request. The frames that are
set aside stay so until the socket is readable again, and the bytes held are lost when a wait fails:
`forwarded_before_poll` is for the runs where neither happens.
-/

namespace Hyoui.Web

open Hyoui.Lib Hyoui.Protocol Hyoui.Client

def Act.rawRead : Act → Bytes
  | .read f => rawBody f
  | _ => []

def Act.sentBytes : Act → Bytes
  | .output (.bytes bytes) => bytes
  | _ => []

namespace Bridge

/-- The output read from the socket, and what of it the browser was sent. -/
def rawRead (b : Bridge) : Bytes := b.log.flatMap Act.rawRead
def sentBytes (b : Bridge) : Bytes := b.log.flatMap Act.sentBytes

/-- All output that was read has been sent, in order and once, and none is set aside. -/
def Forwarded (b : Bridge) : Prop := b.sentBytes = b.rawRead ∧ ∀ f ∈ b.conn.pendingFrames, f.isRawData = false

/-- Whether the wait of a request fails with this read. -/
def waitFails (C : Codec) (b : Bridge) (read : Except FrameError Frame) : Bool :=
  match (b.conn.recvFrame read).1 with
  | .error _ => true
  | .ok frame =>
    match (ClientConnection.recvControlFrame C b.held frame).1 with
    | some (.error _) => true
    | _ => false

/-- No output comes while an ack is awaited, and no wait of a request fails after output came since its
last message. -/
def Flowing (C : Codec) (b : Bridge) : Event → Prop
  | .ackWait (.read (.ok frame)) => frame.isRawData = false
  | .receive read _ => b.waitFails C read = true → b.held = []
  | _ => True

instance (C : Codec) (b : Bridge) : DecidablePred (b.Flowing C) := fun e => by
  unfold Flowing
  split <;> infer_instance

/-! ## What is held is what is missing -/

/-- `bytes` are read and not yet sent, and no output is set aside. -/
def Owes (b : Bridge) (bytes : Bytes) : Prop :=
  b.sentBytes ++ bytes = b.rawRead ∧ ∀ f ∈ b.conn.pendingFrames, f.isRawData = false

theorem quiet_bytes {acts : List Act} (h : ∀ a ∈ acts, a.quiet = true) :
    acts.flatMap Act.rawRead = [] ∧ acts.flatMap Act.sentBytes = [] := by
  rw [List.flatMap_eq_nil_iff, List.flatMap_eq_nil_iff]
  refine ⟨fun a ha => ?_, fun a ha => ?_⟩ <;> have hq := h a ha
  · cases a <;> first | rfl | cases hq
  · cases a with
    | output o =>
      cases o with
      | bytes _ => cases hq
      | control _ => rfl
    | _ => rfl

theorem Owes.kept {b b' : Bridge} {bytes : Bytes} (h : b.Owes bytes) (hk : b.Kept b') : b'.Owes bytes := by
  obtain ⟨acts, hlog, hacts⟩ := hk.acts
  obtain ⟨hread, hsent⟩ := quiet_bytes hacts
  refine ⟨?_, by rw [hk.pending]; exact h.2⟩
  have := h.1
  simpa [sentBytes, rawRead, hlog, hread, hsent] using this

/-- `Owes` at the place where the bridge is. -/
def Level (b : Bridge) : Prop := (∃ result, b.phase = .done result) ∨ b.Owes b.held

theorem Owes.settles {b b' : Bridge} (h : b.Owes []) (hs : b.Settles b') : b'.Level := by
  refine .inr ?_
  rw [hs.2]
  exact h.kept hs.1

/-- A frame is received: if it is output, that much more is owed. -/
theorem Owes.received {b : Bridge} {bytes : Bytes} {read : Except FrameError Frame} {frame : Frame}
    (h : b.Owes bytes) (hf : (b.conn.recvFrame read).1 = .ok frame) :
    (b.received read).Owes (bytes ++ rawBody frame) := by
  rcases recvFrame_ok hf with ⟨rest, hpend, hlog, hconn⟩ | ⟨hpend, hlog, hconn⟩
  · have hraw : rawBody frame = [] := by
      rw [rawBody, if_neg]
      rw [h.2 frame (by rw [hpend]; exact List.mem_cons_self)]
      exact Bool.false_ne_true
    refine ⟨?_, fun f hmem => h.2 f ?_⟩
    · simpa [Bridge.received, note, hlog, sentBytes, rawRead, hraw] using h.1
    · simp only [Bridge.received, hconn] at hmem
      rw [hpend]
      exact List.mem_cons_of_mem _ hmem
  · refine ⟨?_, fun f hmem => h.2 f ?_⟩
    · have := h.1
      simp only [sentBytes, rawRead] at this
      simp [Bridge.received, note, hlog, sentBytes, rawRead, Act.rawRead, Act.sentBytes, ← this]
    · simpa only [Bridge.received, hconn] using hmem

/-- Sending what is owed. -/
theorem Owes.emit {b b' : Bridge} {bytes : Bytes} (h : b.Owes bytes) (he : b.emit (.bytes bytes) = some b') :
    b'.Owes [] := by
  simp only [Bridge.emit, Option.ite_none_right_eq_some, Option.some.injEq] at he
  obtain ⟨-, rfl⟩ := he
  refine ⟨?_, h.2⟩
  have := h.1
  simp only [sentBytes, rawRead] at this
  simp [note, sentBytes, rawRead, Act.rawRead, Act.sentBytes, ← this]

theorem Owes.sendAttachInfo {b b' : Bridge} {bytes : Bytes} (h : b.Owes bytes) (he : b.sendAttachInfo = some b') :
    b'.Owes bytes ∧ b'.phase = b.phase := by
  simp only [Bridge.sendAttachInfo, Bridge.emit, Option.ite_none_right_eq_some, Option.some.injEq] at he
  obtain ⟨-, rfl⟩ := he
  refine ⟨⟨?_, h.2⟩, rfl⟩
  simpa [note, sentBytes, rawRead, Act.rawRead, Act.sentBytes] using h.1

/-! ## Every step -/

section Steps

variable {C : Codec} {b b' : Bridge}

/-- The bridge ended, or is at the top of the loop and owes nothing. -/
def AtTop (b : Bridge) : Prop := (∃ result, b.phase = .done result) ∨ b.phase = .top ∧ b.Owes []

theorem AtTop.level (h : b.AtTop) : b.Level := by
  rcases h with hdone | ⟨htop, howes⟩
  · exact .inl hdone
  · refine .inr ?_
    rw [held, htop]
    exact howes

theorem Owes.passAttachInfo (h : b.Owes []) (htop : b.phase = .top) : b.passAttachInfo.AtTop := by
  unfold Bridge.passAttachInfo
  cases hinfo : b.sendAttachInfo with
  | none => exact .inl ⟨_, rfl⟩
  | some b' =>
    obtain ⟨howes, hphase⟩ := h.sendAttachInfo hinfo
    exact .inr ⟨hphase.trans htop, howes⟩

theorem Owes.onControl (h : b.Owes []) (htop : b.phase = .top) (body : Bytes) : (b.onControl C body).AtTop := by
  unfold Bridge.onControl
  split
  · exact .inl ⟨_, rfl⟩
  · rename_i clientId _
    exact Owes.passAttachInfo (b := b.setLeader clientId) h htop
  · split
    · exact .inr ⟨htop, h⟩
    · rename_i mode _
      exact Owes.passAttachInfo (b := b.setMode mode) h htop
  · exact .inr ⟨htop, h⟩

theorem Owes.onFrame {frame : Frame} (h : b.Owes (rawBody frame)) (htop : b.phase = .top) :
    (b.onFrame C frame).AtTop := by
  unfold Bridge.onFrame
  by_cases hr : frame.ty = typeRawData
  · have hbody : rawBody frame = frame.body := if_pos (decide_eq_true hr)
    rw [if_pos hr]
    cases he : b.emit (.bytes frame.body) with
    | none => exact .inl ⟨_, rfl⟩
    | some b' =>
      refine .inr ⟨?_, Owes.emit h (by rw [hbody]; exact he)⟩
      simp only [Bridge.emit, Option.ite_none_right_eq_some, Option.some.injEq] at he
      obtain ⟨-, rfl⟩ := he
      exact htop
  · have hbody : rawBody frame = [] := if_neg fun hraw => hr (of_decide_eq_true hraw)
    rw [hbody] at h
    rw [if_neg hr]
    split
    · exact h.onControl htop _
    · exact .inr ⟨htop, h⟩

theorem Owes.onReader (h : b.Owes []) (htop : b.phase = .top) (read : Except FrameError Frame) :
    (b.onReader C read).AtTop := by
  unfold Bridge.onReader
  split
  · rename_i frame conn heq
    have hf : (b.conn.recvFrame read).1 = .ok frame := by rw [heq]
    have hrec := h.received hf
    rw [Bridge.received, heq] at hrec
    exact hrec.onFrame htop
  · exact .inl ⟨_, rfl⟩

theorem Owes.onPoll (h : b.Owes []) (htop : b.phase = .top) (p : Poll) (read : Except FrameError Frame)
    (w : Except IoError Unit) : (b.onPoll C p read w).Level := by
  cases p with
  | interrupted => exact AtTop.level (.inr ⟨htop, h⟩)
  | failed message => exact .inl ⟨_, rfl⟩
  | ready reader wake =>
    have hread : (if reader then b.onReader C read else b).AtTop := by
      split
      · exact h.onReader htop read
      · exact .inr ⟨htop, h⟩
    simp only [Bridge.onPoll]
    generalize (if reader then b.onReader C read else b) = b₁ at hread
    split
    · rename_i hwake
      rcases hread with ⟨result, hdone⟩ | ⟨-, howes⟩
      · rw [hwake.1] at hdone
        cases hdone
      · exact howes.settles (onWake_settles w)
    · exact hread.level

theorem Owes.onAckWait {e : ClientConnection.AckWait} {rest : List PendingControl} {shutdown : Bool} (h : b.Owes [])
    (hphase : b.phase = .awaitingAck rest shutdown) (he : ∀ frame, e = .read (.ok frame) → frame.isRawData = false) :
    (b.onAckWait C e rest shutdown).Level := by
  obtain ⟨-, hpend⟩ := awaitAck_conn C b.conn e
  have hread : ({ b.note (readByAck e) with conn := (b.conn.awaitAck C e).2 } : Bridge).Owes [] := by
    refine ⟨?_, fun f hf => ?_⟩
    · have hquiet : (readByAck e).flatMap Act.rawRead = [] ∧ (readByAck e).flatMap Act.sentBytes = [] := by
        unfold readByAck
        split
        · rename_i frame
          simp [Act.rawRead, Act.sentBytes, rawBody, he frame rfl]
        · exact ⟨rfl, rfl⟩
      have := h.1
      simpa only [note, sentBytes, rawRead, List.flatMap_append, hquiet, List.append_nil] using this
    · rcases hpend with hpend | ⟨frame, rfl, hpend⟩
      · exact h.2 f (by simpa only [hpend] using hf)
      · simp only [hpend] at hf
        rcases List.mem_append.1 hf with hf | hf
        · exact h.2 f hf
        · obtain rfl := List.mem_singleton.1 hf
          exact he f rfl
  unfold Bridge.onAckWait
  split
  · rename_i conn heq
    rw [heq] at hread
    refine .inr ?_
    simp only [held, note, hphase]
    simpa only [note, hphase] using hread
  · rename_i result conn heq
    rw [heq] at hread
    exact hread.settles (afterSend_settles result rest shutdown)

/-- A wait goes on with what it owes, or ends owing nothing; where it owes more, the writer is gone. -/
theorem Owes.waitTurn {raw : Bytes} {read : Except FrameError Frame} (h : b.Owes raw) (awaiting : String)
    {handle : Bridge → ControlMessage → Turn} (hraw : b.held = raw)
    (hflow : b.waitFails C read = true → raw = [])
    (hhandle : ∀ b message, b.Owes [] → (handle b message).2.Owes []) :
    ((b.waitTurn C awaiting handle raw read).1.2.Owes (b.waitTurn C awaiting handle raw read).2 ∧
        (∀ result, (b.waitTurn C awaiting handle raw read).1.1 = some result →
          (b.waitTurn C awaiting handle raw read).2 = [])) ∨
      (b.waitTurn C awaiting handle raw read).1.2.writerOpen = false ∧
        ∃ info, (b.waitTurn C awaiting handle raw read).1.1 = some (.error info) := by
  rcases waitTurn_cases C b awaiting handle raw read with ⟨e, what, hrecv, hturn⟩ | ⟨frame, hrecv, hturn⟩
  · rw [hturn]
    obtain rfl := hflow (by simp only [waitFails, hrecv])
    exact .inl ⟨h, fun _ _ => rfl⟩
  · have hrec := h.received hrecv
    rcases hturn with ⟨raw', hframe, hturn⟩ | ⟨e, raw', what, hframe, hturn⟩ | ⟨message, raw', hframe, hturn⟩
    · obtain ⟨-, rfl⟩ := recvControlFrame_none hframe
      rw [hturn]
      exact .inl ⟨hrec, nofun⟩
    · obtain ⟨hbody, -⟩ := recvControlFrame_some hframe
      obtain rfl := hflow (by simp only [waitFails, hrecv, hraw, hframe])
      rw [hbody] at hrec
      rw [hturn]
      exact .inl ⟨hrec, fun _ _ => rfl⟩
    · obtain ⟨hbody, rfl⟩ := recvControlFrame_some hframe
      rw [hbody, List.append_nil] at hrec
      rcases hturn with ⟨what, hfwd, hturn⟩ | ⟨b', hfwd, hturn⟩
      · rw [hturn]
        exact .inr ⟨forward_none hfwd, _, rfl⟩
      · rw [hturn]
        refine .inl ⟨hhandle b' message ?_, fun _ _ => rfl⟩
        unfold forward at hfwd
        split at hfwd
        · rename_i hnil
          cases hfwd
          rwa [hnil] at hrec
        · exact hrec.emit hfwd

theorem resizeMessage_owes (b : Bridge) (message : ControlMessage) (h : b.Owes []) :
    (b.resizeMessage message).2.Owes [] := by
  unfold resizeMessage
  split <;> exact h

theorem leaderMessage_owes (b : Bridge) (message : ControlMessage) (h : b.Owes []) :
    (b.leaderMessage message).2.Owes [] := by
  unfold leaderMessage
  split
  · split
    · exact h
    · rename_i mode _
      have hset : (b.setMode mode).Owes [] := h
      dsimp only
      split
      · exact hset
      · rename_i b' hinfo
        exact (hset.sendAttachInfo hinfo).1
  · rename_i clientId
    have hset : (b.setLeader clientId).Owes [] := h
    dsimp only
    split
    · exact hset
    · rename_i b' hinfo
      split <;> exact (hset.sendAttachInfo hinfo).1
  · exact h
  · exact h

theorem Level.onReceive {read : Except FrameError Frame} {clear : Except IoError Unit} (h : b.Level)
    (hflow : b.waitFails C read = true → b.held = []) (hs : b.onReceive C read clear = some b') : b'.Level := by
  unfold Bridge.onReceive at hs
  split at hs
  · rename_i asked raw rest shutdown hphase
    have hheld : b.held = raw := by rw [held, hphase]
    have howes : b.Owes raw := by
      rcases h with ⟨result, hdone⟩ | howes
      · rw [hphase] at hdone
        cases hdone
      · rwa [hheld] at howes
    rw [hheld] at hflow
    have hturn := howes.waitTurn "resize" hheld hflow resizeMessage_owes
    split at hs
    · rename_i b₁ raw₁ heq
      rw [heq] at hturn
      cases hs
      rcases hturn with ⟨howes₁, -⟩ | ⟨-, info, hnone⟩
      · exact .inr howes₁
      · cases hnone
    · rename_i result b₁ raw₁ heq
      rw [heq] at hturn
      cases hs
      rcases hturn with ⟨howes₁, hnil⟩ | ⟨hgone, -⟩
      · rw [hnil result rfl] at howes₁
        exact howes₁.settles (endResize_settles ..)
      · exact .inl ⟨_, endResize_closed hgone ..⟩
  · rename_i requestId raw rest shutdown hphase
    have hheld : b.held = raw := by rw [held, hphase]
    have howes : b.Owes raw := by
      rcases h with ⟨result, hdone⟩ | howes
      · rw [hphase] at hdone
        cases hdone
      · rwa [hheld] at howes
    rw [hheld] at hflow
    have hturn := howes.waitTurn "leader.request" hheld hflow leaderMessage_owes
    split at hs
    · rename_i b₁ raw₁ heq
      rw [heq] at hturn
      cases hs
      rcases hturn with ⟨howes₁, -⟩ | ⟨-, info, hnone⟩
      · exact .inr howes₁
      · cases hnone
    · rename_i result b₁ raw₁ heq
      rw [heq] at hturn
      cases hs
      rcases hturn with ⟨howes₁, hnil⟩ | ⟨hgone, info, hres⟩
      · rw [hnil result rfl] at howes₁
        exact howes₁.settles (endLeader_settles ..)
      · cases hres
        exact .inl ⟨_, endLeader_closed hgone ..⟩
  · cases hs

theorem Level.step {e : Event} (h : b.Level) (hflow : b.Flowing C e) (hs : b.step C e = some b') : b'.Level := by
  -- where the bridge waits without holding bytes, it owes none
  have howes : ∀ p, b.phase = p → (∀ result, p ≠ .done result) → b.held = [] → b.Owes [] := by
    intro p hp hdone hheld
    rcases h with ⟨result, hd⟩ | howes
    · exact absurd (hp.symm.trans hd) (hdone result)
    · rwa [hheld] at howes
  cases e with
  | browser cmd =>
    simp only [Bridge.step, Option.ite_none_left_eq_some, Option.some.injEq] at hs
    obtain ⟨-, rfl⟩ := hs
    exact h
  | readerGone =>
    cases hs
    exact h
  | writerGone =>
    cases hs
    exact h
  | poll p read w =>
    simp only [Bridge.step, Option.ite_none_right_eq_some, Option.some.injEq] at hs
    obtain ⟨htop, rfl⟩ := hs
    exact (howes _ htop (by simp) (by rw [held, htop])).onPoll htop p read w
  | ackWait e =>
    simp only [Bridge.step] at hs
    split at hs
    · rename_i rest shutdown hphase
      cases hs
      refine (howes _ hphase (by simp) (by rw [held, hphase])).onAckWait hphase fun frame he => ?_
      subst he
      exact hflow
    · cases hs
  | control a =>
    simp only [Bridge.step] at hs
    split at hs
    · rename_i rest shutdown hphase
      cases hs
      exact (howes _ hphase (by simp) (by rw [held, hphase])).settles (onControls_settles a rest shutdown)
    · rename_i requestId cols rows rest shutdown hphase
      cases hs
      exact (howes _ hphase (by simp) (by rw [held, hphase])).settles (resizeOnConnection_settles ..)
    · cases hs
  | receive read clear => exact h.onReceive hflow hs

end Steps

end Bridge

/-- Whatever the order of output, acks, notices and requests: when no output is set aside during the wait for
an ack, and no wait of a request fails with output in hand, all output that was read has reached the
browser, in order and once, whenever the bridge is about to block in `poll`. -/
theorem forwarded_before_poll (C : Codec) (G : Gateway) (response : HandshakeResponse) {b : Bridge}
    (h : (bridge C G response).Reach (Bridge.Flowing C) b) (htop : b.phase = .top) : b.Forwarded := by
  have hlevel : b.Level := by
    refine h.inv Bridge.Level ?_ ?_
    · rintro _ rfl
      exact .inr ⟨rfl, nofun⟩
    · intro b e b' _ hb hflow hs
      exact hb.step hflow hs
  rcases hlevel with ⟨result, hdone⟩ | howes
  · rw [htop] at hdone
    cases hdone
  · rw [Bridge.held, htop] at howes
    exact ⟨by simpa using howes.1, howes.2⟩

/-- The child prints a prompt; a key is typed and acked, and its echo comes after the ack. -/
def prompt : List Bridge.Event := [
  .poll (.ready true false) (.ok (.rawData [0x24])) (.ok ()), .browser (.bytes [0x61]),
  .poll (.ready false true) (.error (.protocol (.unexpectedEof ""))) (.ok ()),
  .ackWait (.read (.ok (.rawAck RawAck.ok.cbor))), .control {},
  .poll (.ready true false) (.ok (.rawData [0x61])) (.ok ())]

theorem forwarded_before_poll_prompt : ∃ b : Bridge,
    (bridge sampleCodec sampleGateway sampleResponse).Reach (Bridge.Flowing sampleCodec) b ∧ b.sentBytes = [0x24, 0x61] ∧
      b.Forwarded := by
  have hinit : (bridge sampleCodec sampleGateway sampleResponse).Reach (Bridge.Flowing sampleCodec)
      (.start sampleGateway sampleResponse) := .init rfl
  obtain ⟨b, hb, htop, hsent⟩ := hinit.exists_run prompt (p := fun b => b.phase = .top ∧ b.sentBytes = [0x24, 0x61])
    (by decide +kernel)
  exact ⟨b, hb, hsent, forwarded_before_poll sampleCodec sampleGateway sampleResponse hb htop⟩

/-- A key is typed, and its echo arrives before its ack. -/
def echoBeforeAck : List Bridge.Event := [
  .browser (.bytes [0x61]), .poll (.ready false true) (.error (.protocol (.unexpectedEof ""))) (.ok ()),
  .ackWait (.read (.ok (.rawData [0x61]))), .ackWait (.read (.ok (.rawAck RawAck.ok.cbor))), .control {}]

/-- The bridge is about to block in `poll` on a socket that has nothing to read, and the echo is still set
aside. -/
theorem echo_left_waiting : ∃ b : Bridge,
    (bridge sampleCodec sampleGateway sampleResponse).Reachable b ∧ b.phase = .top ∧ ¬ b.Forwarded := by
  have hinit : (bridge sampleCodec sampleGateway sampleResponse).Reachable (.start sampleGateway sampleResponse) :=
    .init rfl
  obtain ⟨b, hb, htop, hread, hsent⟩ := hinit.exists_run echoBeforeAck
    (p := fun b => b.phase = .top ∧ b.rawRead = [0x61] ∧ b.sentBytes = []) (by decide +kernel)
  refine ⟨b, hb, htop, fun hf => ?_⟩
  rw [Bridge.Forwarded, hread, hsent] at hf
  cases hf.1

end Hyoui.Web
