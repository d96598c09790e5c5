import Hyoui.Web.Bridge
/-!
# What a step of the bridge can do

Most of the bridge neither reads a frame nor passes anything on: it sends a result, hands a request to the
socket, moves from one request to the next. `Kept` says so once. The rest is three receive loops, and
each has its cases here: the frame at the top of the loop, the wait for an ack, and the waits of the
requests (`waitTurn_cases`).
-/

namespace Hyoui.Web

open Hyoui.Lib Hyoui.Protocol Hyoui.Client

/-- Nothing was read, and the browser was sent nothing but the result of a request. -/
def Act.quiet : Act → Bool
  | .wrote _ => true
  | .output (.control (.resizeResult ..)) | .output (.control (.leaderResult ..)) => true
  | _ => false

/-- The output of the child in a frame. -/
def rawBody (f : Frame) : Bytes := if f.isRawData then f.body else []

namespace Bridge

/-- The bytes `recv_control` has skipped and not passed on. -/
def held (b : Bridge) : Bytes :=
  match b.phase with
  | .awaitingLeader _ raw _ _ | .awaitingResize _ raw _ _ => raw
  | _ => []

/-- `b'` is `b` after some quiet acts. -/
structure Kept (b b' : Bridge) : Prop where
  acts : ∃ acts, b'.log = b.log ++ acts ∧ ∀ a ∈ acts, a.quiet = true
  pending : b'.conn.pendingFrames = b.conn.pendingFrames
  response : b'.conn.response = b.conn.response
  writer : b'.writerOpen = b.writerOpen

namespace Kept

variable {b b' b'' : Bridge}

theorem refl (b : Bridge) : b.Kept b := ⟨⟨[], by simp, by simp⟩, rfl, rfl, rfl⟩

theorem trans (h : b.Kept b') (h' : b'.Kept b'') : b.Kept b'' := by
  obtain ⟨acts, hlog, hacts⟩ := h.acts
  obtain ⟨acts', hlog', hacts'⟩ := h'.acts
  refine ⟨⟨acts ++ acts', by rw [hlog', hlog, List.append_assoc], ?_⟩, h'.pending.trans h.pending,
    h'.response.trans h.response, h'.writer.trans h.writer⟩
  intro a ha
  rcases List.mem_append.1 ha with ha | ha
  · exact hacts a ha
  · exact hacts' a ha

/-- What `Kept` does not look at. -/
theorem of_eq (hlog : b'.log = b.log) (hpending : b'.conn.pendingFrames = b.conn.pendingFrames)
    (hresponse : b'.conn.response = b.conn.response) (hwriter : b'.writerOpen = b.writerOpen) : b.Kept b' :=
  ⟨⟨[], by simp [hlog], by simp⟩, hpending, hresponse, hwriter⟩

theorem phase (b : Bridge) (p : Phase) : b.Kept { b with phase := p } := of_eq rfl rfl rfl rfl

theorem note (b : Bridge) {acts : List Act} (h : ∀ a ∈ acts, a.quiet = true) : b.Kept (b.note acts) :=
  ⟨⟨acts, rfl, h⟩, rfl, rfl, rfl⟩

end Kept

/-- `b'` is where `b` gets without reading, and it holds no bytes. -/
def Settles (b b' : Bridge) : Prop := b.Kept b' ∧ b'.held = []

theorem Kept.settles {b b' b'' : Bridge} (h : b.Kept b') (h' : b'.Settles b'') : b.Settles b'' :=
  ⟨h.trans h'.1, h'.2⟩

/-! ## The parts that keep everything -/

section Keeping

variable {C : Codec} {b : Bridge}

theorem finish_settles (b : Bridge) (result : Except String Unit) : b.Settles (b.finish result) :=
  ⟨.phase b _, rfl⟩

theorem emit_quiet {o : BridgeOutput} {b' : Bridge} (hq : (Act.output o).quiet = true) (h : b.emit o = some b') :
    b.Kept b' := by
  simp only [emit, Option.ite_none_right_eq_some, Option.some.injEq] at h
  obtain ⟨-, rfl⟩ := h
  exact .note b fun a ha => by rw [List.mem_singleton.1 ha]; exact hq

theorem answer_settles {frame : ServerFrame} (hq : (Act.output (.control frame)).quiet = true)
    (rest : List PendingControl) (shutdown : Bool) : b.Settles (b.answer frame rest shutdown) := by
  unfold answer
  split
  · rename_i b' hemit
    exact ⟨(emit_quiet hq hemit).trans (.phase b' _), rfl⟩
  · exact finish_settles b _

theorem resizeResult_quiet (requestId : Nat) (result : Except ErrorInfo Unit) :
    (Act.output (.control (resizeResult requestId result))).quiet = true := by cases result <;> rfl

theorem leaderResult_quiet (requestId : Nat) (result : Except ErrorInfo Unit) :
    (Act.output (.control (leaderResult requestId result))).quiet = true := by cases result <;> rfl

theorem answerResize_settles (asked : Asked) (result : Except ErrorInfo Unit) (rest : List PendingControl)
    (shutdown : Bool) : b.Settles (b.answerResize asked result rest shutdown) := by
  cases asked with
  | resize requestId => exact answer_settles (resizeResult_quiet _ _) rest shutdown
  | leader requestId => exact answer_settles (leaderResult_quiet _ _) rest shutdown

theorem clearTimeout_kept (what : String) (clear : Except IoError Unit) (result : Except ErrorInfo Unit) :
    b.Kept (b.clearTimeout what clear result).2 := by
  cases clear with
  | error io => exact .refl b
  | ok _ => exact .of_eq rfl rfl rfl rfl

theorem endResize_settles (asked : Asked) (clear : Except IoError Unit) (result : Except ErrorInfo Unit)
    (rest : List PendingControl) (shutdown : Bool) : b.Settles (b.endResize asked clear result rest shutdown) :=
  (clearTimeout_kept "resize" clear result).settles (answerResize_settles asked _ rest shutdown)

theorem send_kept (msg : ControlMessage) (w : Except IoError Unit) : b.Kept (b.send C msg w).2 := by
  refine .note b fun a ha => ?_
  obtain ⟨frame, -, rfl⟩ := List.mem_map.1 ha
  rfl

theorem resizeOnConnection_settles (asked : Asked) (cols rows : Nat) (a : Answers) (rest : List PendingControl)
    (shutdown : Bool) : b.Settles (b.resizeOnConnection C asked cols rows a rest shutdown) := by
  unfold resizeOnConnection
  split
  · exact answerResize_settles ..
  split
  · exact answerResize_settles ..
  split
  · exact answerResize_settles ..
  have hset : b.Kept { b with conn := b.conn.setReadTimeout (some waitTimeout) } := .of_eq rfl rfl rfl rfl
  have hsend := send_kept (C := C) (b := { b with conn := b.conn.setReadTimeout (some waitTimeout) })
    (.resize cols rows) a.write₁
  dsimp only
  split
  · rename_i e b₁ heq
    rw [heq] at hsend
    exact (hset.trans hsend).settles (endResize_settles ..)
  · rename_i u b₁ heq
    rw [heq] at hsend
    have hquery := send_kept (C := C) (b := b₁) .statusQuery a.write₂
    split
    · rename_i e b₂ heq₂
      rw [heq₂] at hquery
      exact ((hset.trans hsend).trans hquery).settles (endResize_settles ..)
    · rename_i u b₂ heq₂
      rw [heq₂] at hquery
      exact ((hset.trans hsend).trans hquery).settles ⟨.phase b₂ _, rfl⟩

theorem endLeader_settles (requestId : Nat) (clear : Except IoError Unit) (result : Except ErrorInfo Unit)
    (rest : List PendingControl) (shutdown : Bool) : b.Settles (b.endLeader requestId clear result rest shutdown) := by
  have hclear := clearTimeout_kept (b := b) "leader request" clear result
  unfold endLeader
  split
  · rename_i e b₁ heq
    rw [heq] at hclear
    exact hclear.settles (answer_settles (leaderResult_quiet _ _) rest shutdown)
  · rename_i u b₁ heq
    rw [heq] at hclear
    split
    · exact hclear.settles ⟨.phase b₁ _, rfl⟩
    · exact hclear.settles (answer_settles (leaderResult_quiet _ _) rest shutdown)

theorem leaderOnConnection_settles (requestId : Nat) (a : Answers) (rest : List PendingControl) (shutdown : Bool) :
    b.Settles (b.leaderOnConnection C requestId a rest shutdown) := by
  unfold leaderOnConnection
  split
  · exact answer_settles (leaderResult_quiet _ _) rest shutdown
  split
  · exact answer_settles (leaderResult_quiet _ _) rest shutdown
  have hset : b.Kept { b with conn := b.conn.setReadTimeout (some waitTimeout) } := .of_eq rfl rfl rfl rfl
  have hsend := send_kept (C := C) (b := { b with conn := b.conn.setReadTimeout (some waitTimeout) })
    .leaderRequest a.write₁
  dsimp only
  split
  · rename_i e b₁ heq
    rw [heq] at hsend
    exact (hset.trans hsend).settles (endLeader_settles ..)
  · rename_i u b₁ heq
    rw [heq] at hsend
    exact (hset.trans hsend).settles ⟨.phase b₁ _, rfl⟩

theorem onControls_settles (a : Answers) (rest : List PendingControl) (shutdown : Bool) :
    b.Settles (b.onControls C a rest shutdown) := by
  unfold onControls
  split
  · split
    · exact finish_settles b _
    · exact ⟨.phase b _, rfl⟩
  · rename_i requestId cols rows rest
    have hgrid : b.Kept (if cols > 0 ∧ rows > 0 then { b with latestGrid := some (cols, rows) } else b) := by
      split
      · exact .of_eq rfl rfl rfl rfl
      · exact .refl b
    exact hgrid.settles (resizeOnConnection_settles ..)
  · exact leaderOnConnection_settles ..

theorem afterSend_settles (result : Except Error Unit) (rest : List PendingControl) (shutdown : Bool) :
    b.Settles (b.afterSend result rest shutdown) := by
  unfold afterSend
  split
  · exact ⟨.phase b _, rfl⟩
  · split
    · exact ⟨.phase b _, rfl⟩
    · exact finish_settles b _

theorem sendRawBytes_conn (conn : ClientConnection) (bytes : Bytes) (w : Except IoError Unit) :
    (conn.sendRawBytes bytes w).2.pendingFrames = conn.pendingFrames ∧
      (conn.sendRawBytes bytes w).2.response = conn.response := by
  unfold ClientConnection.sendRawBytes
  split
  · exact ⟨rfl, rfl⟩
  · split
    · exact ⟨rfl, rfl⟩
    · split
      · exact ⟨rfl, rfl⟩
      · split <;> exact ⟨rfl, rfl⟩

theorem onWake_settles (w : Except IoError Unit) : b.Settles (b.onWake w) := by
  unfold onWake
  generalize drain b.inputClosed b.input = d
  obtain ⟨batch, controls, shutdown, input⟩ := d
  dsimp only
  split
  · exact ⟨.of_eq rfl rfl rfl rfl, rfl⟩
  have hconn := sendRawBytes_conn b.conn batch w
  split
  · rename_i result conn heq
    rw [heq] at hconn
    refine Kept.settles ?_ (afterSend_settles result controls shutdown)
    exact .of_eq rfl hconn.1 hconn.2 rfl
  · rename_i frame conn heq
    rw [heq] at hconn
    refine ⟨⟨⟨[.wrote frame], rfl, fun a ha => ?_⟩, hconn.1, hconn.2, rfl⟩, rfl⟩
    rw [List.mem_singleton.1 ha]
    rfl

end Keeping

/-! ## Without a writer -/

/-- An answer that cannot be sent ends the bridge. -/
theorem answer_closed {b : Bridge} (h : b.writerOpen = false) (frame : ServerFrame) (rest : List PendingControl)
    (shutdown : Bool) : (b.answer frame rest shutdown).phase = .done (.ok ()) := by
  simp [answer, emit, h, finish]

theorem endResize_closed {b : Bridge} (h : b.writerOpen = false) (asked : Asked) (clear : Except IoError Unit)
    (result : Except ErrorInfo Unit) (rest : List PendingControl) (shutdown : Bool) :
    (b.endResize asked clear result rest shutdown).phase = .done (.ok ()) := by
  have hw : (b.clearTimeout "resize" clear result).2.writerOpen = false :=
    (clearTimeout_kept "resize" clear result).writer.trans h
  unfold endResize answerResize
  cases asked <;> exact answer_closed hw _ rest shutdown

theorem endLeader_closed {b : Bridge} (h : b.writerOpen = false) (requestId : Nat) (clear : Except IoError Unit)
    (e : ErrorInfo) (rest : List PendingControl) (shutdown : Bool) :
    (b.endLeader requestId clear (.error e) rest shutdown).phase = .done (.ok ()) := by
  cases clear with
  | error io => exact answer_closed h _ rest shutdown
  | ok _ => exact answer_closed (b := { b with conn := b.conn.setReadTimeout none }) h _ rest shutdown

theorem forward_none {b : Bridge} {raw : Bytes} (h : b.forward raw = none) : b.writerOpen = false := by
  unfold forward at h
  split at h
  · cases h
  · simpa [emit] using h

theorem sendAttachInfo_none {b : Bridge} (h : b.sendAttachInfo = none) : b.writerOpen = false := by
  simpa [sendAttachInfo, emit] using h

/-! ## Receiving -/

/-- The bridge after `recv_frame` gave `frame`. -/
def received (b : Bridge) (read : Except FrameError Frame) : Bridge :=
  { b.note (readBy b.conn read) with conn := (b.conn.recvFrame read).2 }

/-- A frame comes from those set aside, which are not read again, or from the socket. -/
theorem recvFrame_ok {conn : ClientConnection} {read : Except FrameError Frame} {frame : Frame}
    (h : (conn.recvFrame read).1 = .ok frame) :
    (∃ rest, conn.pendingFrames = frame :: rest ∧ readBy conn read = [] ∧
        (conn.recvFrame read).2 = { conn with pendingFrames := rest }) ∨
      conn.pendingFrames = [] ∧ readBy conn read = [.read frame] ∧ (conn.recvFrame read).2 = conn := by
  unfold ClientConnection.recvFrame at h ⊢
  unfold readBy
  split at h
  · rename_i f rest hpend
    cases h
    exact .inl ⟨rest, hpend, by rw [hpend], rfl⟩
  · rename_i hpend
    cases read with
    | error e => cases h
    | ok f =>
      cases h
      exact .inr ⟨hpend, by rw [hpend], rfl⟩

theorem recvFrame_error {conn : ClientConnection} {read : Except FrameError Frame} {e : Error}
    (h : (conn.recvFrame read).1 = .error e) : (conn.recvFrame read).2 = conn := by
  unfold ClientConnection.recvFrame at h ⊢
  split at h
  · cases h
  · rfl

/-- What a turn of a wait can come to. -/
theorem waitTurn_cases (C : Codec) (b : Bridge) (awaiting : String) (handle : Bridge → ControlMessage → Turn)
    (raw : Bytes) (read : Except FrameError Frame) :
    (∃ e what, (b.conn.recvFrame read).1 = .error e ∧
        b.waitTurn C awaiting handle raw read = ((some (.error (.internal what)), b), [])) ∨
      ∃ frame, (b.conn.recvFrame read).1 = .ok frame ∧
        ((∃ raw', ClientConnection.recvControlFrame C raw frame = (none, raw') ∧
            b.waitTurn C awaiting handle raw read = ((none, b.received read), raw')) ∨
          (∃ e raw' what, ClientConnection.recvControlFrame C raw frame = (some (.error e), raw') ∧
            b.waitTurn C awaiting handle raw read = ((some (.error (.internal what)), b.received read), [])) ∨
          (∃ message raw', ClientConnection.recvControlFrame C raw frame = (some (.ok message), raw') ∧
            ((∃ what, (b.received read).forward raw' = none ∧
                b.waitTurn C awaiting handle raw read = ((some (.error (.internal what)), b.received read), [])) ∨
              ∃ b', (b.received read).forward raw' = some b' ∧
                b.waitTurn C awaiting handle raw read = (handle b' message, [])))) := by
  unfold waitTurn received
  cases hrecv : b.conn.recvFrame read with
  | mk result conn =>
    cases result with
    | error e =>
      have hconn := recvFrame_error (congrArg Prod.fst hrecv)
      rw [hrecv] at hconn
      obtain rfl : conn = b.conn := hconn
      exact .inl ⟨e, _, rfl, rfl⟩
    | ok frame =>
      refine .inr ⟨frame, rfl, ?_⟩
      dsimp only
      cases hframe : ClientConnection.recvControlFrame C raw frame with
      | mk turn raw' =>
        cases turn with
        | none => exact .inl ⟨raw', rfl, rfl⟩
        | some result =>
          cases result with
          | error e => exact .inr (.inl ⟨e, raw', _, rfl, rfl⟩)
          | ok message =>
            refine .inr (.inr ⟨message, raw', rfl, ?_⟩)
            dsimp only
            cases hforward : forward { b.note (readBy b.conn read) with conn } raw' with
            | none => exact .inl ⟨_, rfl, rfl⟩
            | some b' => exact .inr ⟨b', rfl, rfl⟩

/-- A frame that is skipped is no control message; its output is added to what was skipped before. -/
theorem recvControlFrame_none {C : Codec} {raw raw' : Bytes} {frame : Frame}
    (h : ClientConnection.recvControlFrame C raw frame = (none, raw')) :
    frame.ty ≠ typeCborControl ∧ raw' = raw ++ rawBody frame := by
  unfold ClientConnection.recvControlFrame at h
  split at h
  · split at h <;> cases h
  rename_i hcbor
  refine ⟨hcbor, ?_⟩
  split at h
  · rename_i hr
    cases h
    rw [rawBody, Frame.isRawData, if_pos (decide_eq_true hr)]
  · rename_i hr
    split at h <;> cases h
    rw [rawBody, Frame.isRawData, decide_eq_false hr, if_neg Bool.false_ne_true, List.append_nil]

theorem rawBody_of_ne {frame : Frame} (h : frame.ty ≠ typeRawData) : rawBody frame = [] := by
  rw [rawBody, Frame.isRawData, decide_eq_false h, if_neg Bool.false_ne_true]

/-- The frame that ends the loop of `recv_control` is no output. -/
theorem recvControlFrame_some {C : Codec} {raw raw' : Bytes} {frame : Frame} {result : Except Error ControlMessage}
    (h : ClientConnection.recvControlFrame C raw frame = (some result, raw')) : rawBody frame = [] ∧ raw' = raw := by
  unfold ClientConnection.recvControlFrame at h
  by_cases hcbor : frame.ty = typeCborControl
  · rw [if_pos hcbor] at h
    refine ⟨rawBody_of_ne (by rw [hcbor]; decide), ?_⟩
    split at h <;> exact (Prod.mk.inj h).2.symm
  · rw [if_neg hcbor] at h
    by_cases hr : frame.ty = typeRawData
    · rw [if_pos hr] at h
      cases h
    · rw [if_neg hr] at h
      refine ⟨rawBody_of_ne hr, ?_⟩
      split at h
      · cases h
      · exact (Prod.mk.inj h).2.symm

theorem recvControlFrame_ok {C : Codec} {raw raw' : Bytes} {frame : Frame} {message : ControlMessage}
    (h : ClientConnection.recvControlFrame C raw frame = (some (.ok message), raw')) :
    frame.ty = typeCborControl ∧ C.decode frame.body = some message := by
  unfold ClientConnection.recvControlFrame at h
  by_cases hcbor : frame.ty = typeCborControl
  · rw [if_pos hcbor] at h
    refine ⟨hcbor, ?_⟩
    cases hdec : C.decode frame.body with
    | none =>
      rw [hdec] at h
      cases h
    | some m =>
      rw [hdec] at h
      cases h
      rfl
  · rw [if_neg hcbor] at h
    split at h
    · cases h
    · split at h <;> cases h

theorem recvControlFrame_error {C : Codec} {raw raw' : Bytes} {frame : Frame} {e : Error}
    (h : ClientConnection.recvControlFrame C raw frame = (some (.error e), raw')) (hcbor : frame.ty = typeCborControl) :
    C.decode frame.body = none := by
  unfold ClientConnection.recvControlFrame at h
  rw [if_pos hcbor] at h
  cases hdec : C.decode frame.body with
  | none => rfl
  | some m =>
    rw [hdec] at h
    cases h

theorem settleSend_conn (conn : ClientConnection) (result : Except Error Unit) :
    (conn.settleSend result).response = conn.response ∧
      (conn.settleSend result).pendingFrames = conn.pendingFrames := by
  unfold ClientConnection.settleSend
  split
  · split <;> exact ⟨rfl, rfl⟩
  · exact ⟨rfl, rfl⟩

/-- The wait for an ack sets aside the frames it reads, but for the ack. -/
theorem awaitAck_conn (C : Codec) (conn : ClientConnection) (e : ClientConnection.AckWait) :
    (conn.awaitAck C e).2.response = conn.response ∧
      ((conn.awaitAck C e).2.pendingFrames = conn.pendingFrames ∨
        ∃ frame, e = .read (.ok frame) ∧ (conn.awaitAck C e).2.pendingFrames = conn.pendingFrames ++ [frame]) := by
  unfold ClientConnection.awaitAck
  cases e with
  | deadline => exact ⟨rfl, .inl rfl⟩
  | pollTimeout => exact ⟨rfl, .inl rfl⟩
  | pollInterrupted => exact ⟨rfl, .inl rfl⟩
  | pollFailed message => exact ⟨rfl, .inl rfl⟩
  | read r =>
    cases r with
    | error e => exact (settleSend_conn ..).imp_right .inl
    | ok frame =>
      unfold ClientConnection.recvRawAckInner
      by_cases hack : frame.ty = typeRawAck
      · dsimp only
        rw [if_pos hack]
        cases C.decodeAck frame.body with
        | none => exact ⟨rfl, .inl rfl⟩
        | some ack => exact (settleSend_conn ..).imp_right .inl
      · dsimp only
        rw [if_neg hack]
        exact ⟨rfl, .inr ⟨frame, rfl, rfl⟩⟩

/-! ## The input queue -/

section Input
variable {C : Codec} {b b' : Bridge}

theorem emit_input {o : BridgeOutput} (h : b.emit o = some b') : b'.input = b.input := by
  simp only [emit, Option.ite_none_right_eq_some, Option.some.injEq] at h
  rw [← h.2]
  rfl

theorem emit_getD_input {o : BridgeOutput} {other : Bridge} (h : other.input = b.input) :
    ((b.emit o).getD other).input = b.input := by
  cases he : b.emit o with
  | none => exact h
  | some b' => exact emit_input he

theorem onControl_input (body : Bytes) : (b.onControl C body).input = b.input := by
  unfold onControl
  split
  · rfl
  · exact emit_getD_input rfl
  · split
    · rfl
    · exact emit_getD_input rfl
  · rfl

theorem onReader_input (read : Except FrameError Frame) : (b.onReader C read).input = b.input := by
  unfold onReader onFrame
  split
  · split
    · exact emit_getD_input rfl
    · split
      · exact onControl_input _
      · rfl
  · rfl

theorem answer_input (frame : ServerFrame) (rest : List PendingControl) (shutdown : Bool) :
    (b.answer frame rest shutdown).input = b.input := by
  unfold answer
  split
  · rename_i hemit
    exact (emit_input hemit :)
  · rfl

theorem endResize_input (asked : Asked) (clear : Except IoError Unit) (result : Except ErrorInfo Unit)
    (rest : List PendingControl) (shutdown : Bool) : (b.endResize asked clear result rest shutdown).input = b.input := by
  cases asked <;> cases clear <;> exact answer_input ..

theorem endLeader_input (requestId : Nat) (clear : Except IoError Unit) (result : Except ErrorInfo Unit)
    (rest : List PendingControl) (shutdown : Bool) : (b.endLeader requestId clear result rest shutdown).input = b.input := by
  cases clear with
  | error io => exact answer_input ..
  | ok _ =>
    cases result with
    | error e => exact answer_input ..
    | ok _ =>
      simp only [endLeader, clearTimeout]
      split
      · rfl
      · exact answer_input ..

theorem resizeOnConnection_input (asked : Asked) (cols rows : Nat) (a : Answers) (rest : List PendingControl)
    (shutdown : Bool) : (b.resizeOnConnection C asked cols rows a rest shutdown).input = b.input := by
  unfold resizeOnConnection
  split
  · cases asked <;> exact answer_input ..
  split
  · cases asked <;> exact answer_input ..
  split
  · cases asked <;> exact answer_input ..
  simp only [send]
  split
  · rename_i heq
    rw [← (Prod.mk.inj heq).2]
    exact endResize_input ..
  · rename_i heq
    rw [← (Prod.mk.inj heq).2]
    split
    · rename_i heq'
      rw [← (Prod.mk.inj heq').2]
      exact endResize_input ..
    · rename_i heq'
      rw [← (Prod.mk.inj heq').2]
      rfl

theorem leaderOnConnection_input (requestId : Nat) (a : Answers) (rest : List PendingControl) (shutdown : Bool) :
    (b.leaderOnConnection C requestId a rest shutdown).input = b.input := by
  unfold leaderOnConnection
  split
  · exact answer_input ..
  split
  · exact answer_input ..
  simp only [send]
  split
  · rename_i heq
    rw [← (Prod.mk.inj heq).2]
    exact endLeader_input ..
  · rename_i heq
    rw [← (Prod.mk.inj heq).2]
    rfl

theorem onControls_input (a : Answers) (rest : List PendingControl) (shutdown : Bool) :
    (b.onControls C a rest shutdown).input = b.input := by
  unfold onControls
  split
  · split <;> rfl
  · dsimp only
    rw [resizeOnConnection_input]
    split <;> rfl
  · exact leaderOnConnection_input ..

theorem afterSend_input (result : Except Error Unit) (rest : List PendingControl) (shutdown : Bool) :
    (b.afterSend result rest shutdown).input = b.input := by
  unfold afterSend
  split
  · rfl
  · split <;> rfl

/-- What a drain leaves is the end of the queue. -/
theorem drain_suffix (closed : Bool) (input : List BridgeCmd) : (drain closed input).2.2.2 <:+ input := by
  induction input with
  | nil => exact List.suffix_refl _
  | cons cmd rest ih =>
    cases cmd with
    | shutdown => exact List.suffix_cons _ _
    | _ => exact ih.trans (List.suffix_cons _ _)

theorem onWake_input (w : Except IoError Unit) : (b.onWake w).input <:+ b.input := by
  have hdrain := drain_suffix b.inputClosed b.input
  unfold onWake
  generalize drain b.inputClosed b.input = d at hdrain
  obtain ⟨batch, controls, shutdown, input⟩ := d
  dsimp only at hdrain ⊢
  split
  · exact hdrain
  · split
    · rw [afterSend_input]
      exact hdrain
    · exact hdrain

theorem waitTurn_input {handle : Bridge → ControlMessage → Turn}
    (hhandle : ∀ b message, (handle b message).2.input = b.input) (C : Codec) (b : Bridge) (awaiting : String)
    (raw : Bytes) (read : Except FrameError Frame) :
    (b.waitTurn C awaiting handle raw read).1.2.input = b.input := by
  unfold waitTurn
  dsimp only
  split
  · rfl
  · split
    · rfl
    · rfl
    · split
      · rfl
      · rename_i hforward
        rw [hhandle]
        unfold forward at hforward
        split at hforward
        · cases hforward
          rfl
        · exact (emit_input hforward :)

theorem resizeMessage_input (b : Bridge) (message : ControlMessage) : (resizeMessage b message).2.input = b.input := by
  cases message <;> rfl

theorem leaderMessage_input (b : Bridge) (message : ControlMessage) : (leaderMessage b message).2.input = b.input := by
  unfold leaderMessage
  split
  · split
    · rfl
    · dsimp only
      split
      · rfl
      · rename_i hsent
        exact (emit_input hsent :)
  · dsimp only
    split
    · rfl
    · rename_i hsent
      split <;> exact (emit_input hsent :)
  · rfl
  · rfl

theorem onReceive_input {read : Except FrameError Frame} {clear : Except IoError Unit}
    (h : b.onReceive C read clear = some b') : b'.input = b.input := by
  unfold onReceive at h
  split at h
  · rename_i asked raw rest shutdown _
    have hturn := waitTurn_input resizeMessage_input C b "resize" raw read
    split at h
    · rename_i heq
      rw [heq] at hturn
      rw [← Option.some.inj h]
      exact hturn
    · rename_i heq
      rw [heq] at hturn
      rw [← Option.some.inj h, endResize_input]
      exact hturn
  · rename_i requestId raw rest shutdown _
    have hturn := waitTurn_input leaderMessage_input C b "leader.request" raw read
    split at h
    · rename_i heq
      rw [heq] at hturn
      rw [← Option.some.inj h]
      exact hturn
    · rename_i heq
      rw [heq] at hturn
      rw [← Option.some.inj h, endLeader_input]
      exact hturn
  · cases h

/-- But for what the browser sends, a step leaves the queue or takes from its front. -/
theorem step_input {e : Event} (h : b.step C e = some b') (he : ∀ cmd, e ≠ .browser cmd) : b'.input <:+ b.input := by
  cases e with
  | browser cmd => exact absurd rfl (he cmd)
  | readerGone | writerGone => rw [← Option.some.inj h]
  | poll p read w =>
    simp only [step, Option.ite_none_right_eq_some, Option.some.injEq] at h
    rw [← h.2]
    cases p with
    | interrupted | failed => exact List.suffix_refl _
    | ready reader wake =>
      have hread : (if reader then b.onReader C read else b).input = b.input := by
        split
        · exact onReader_input read
        · rfl
      simp only [onPoll]
      generalize (if reader then b.onReader C read else b) = b₁ at hread ⊢
      rw [← hread]
      split
      · exact onWake_input w
      · exact List.suffix_refl _
  | ackWait e =>
    simp only [step] at h
    split at h
    · rw [← Option.some.inj h]
      unfold onAckWait
      split
      · exact List.suffix_refl _
      · rw [afterSend_input]
        exact List.suffix_refl _
    · cases h
  | control a =>
    simp only [step] at h
    split at h
    · rw [← Option.some.inj h, onControls_input]
    · rw [← Option.some.inj h, resizeOnConnection_input]
    · cases h
  | receive read clear => rw [onReceive_input h]

end Input

end Bridge

/-! ## A codec and a gateway to run the bridge with -/

/-- The codec, on the acks and notices of the runs below. -/
def sampleCodec : Codec where
  encode := ControlMessage.cbor
  decode body := if ControlMessage.cbor (.leaderNotify (some 2)) = some body then some (.leaderNotify (some 2)) else none
  decodeAck body := if body = RawAck.ok.cbor then some .ok else none

def sampleGateway : Gateway := { version := "0.1.0", buildId := none, authExpiresAt := "2026-01-01T00:00:00.000Z" }

/-- The client is 1, and the leader. -/
def sampleResponse : HandshakeResponse :=
  { caps := [.data, .leaderRequestV1], sessionId := "s", clientId := 1, leader := true, mode := .rw,
    childStopped := false }

end Hyoui.Web
