import Hyoui.Web.Link
/-!
# What a step does for the requests

`Moved` says it of every event: which results the browser is told and what they rest on, whether a request
is under way after it, and when a leader's request is left to its resize. It is put together from what
each part of the bridge tells (`Tells`).
-/

namespace Hyoui.Web

open Hyoui.Lib Hyoui.Protocol Hyoui.Client

namespace Bridge

/-! ## What a step tells the browser -/

/-- Every result told from `b` to `b'` meets `P`, and nothing was received or set aside. -/
structure Tells (P : ServerFrame → Prop) (b b' : Bridge) : Prop where
  acts : ∃ acts, b'.log = b.log ++ acts ∧ ∀ result ∈ acts.filterMap Act.result, P result
  pending : b'.conn.pendingFrames = b.conn.pendingFrames
  client : b'.conn.response.clientId = b.conn.response.clientId

/-- And no request is under way at `b'`. -/
def Closes (P : ServerFrame → Prop) (b b' : Bridge) : Prop := Tells P b b' ∧ b'.phase.asks = none

section Telling
variable {C : Codec} {P Q : ServerFrame → Prop} {b b' b'' : Bridge}

theorem Tells.of_eq (hlog : b'.log = b.log) (hpending : b'.conn.pendingFrames = b.conn.pendingFrames)
    (hclient : b'.conn.response.clientId = b.conn.response.clientId) : Tells P b b' :=
  ⟨⟨[], by simpa using hlog, nofun⟩, hpending, hclient⟩

theorem Tells.refl (b : Bridge) : Tells P b b := .of_eq rfl rfl rfl

theorem Tells.phase (b : Bridge) (p : Phase) : Tells P b { b with phase := p } := .of_eq rfl rfl rfl

theorem Tells.trans (h : Tells P b b') (h' : Tells P b' b'') : Tells P b b'' := by
  obtain ⟨acts, hlog, hacts⟩ := h.acts
  obtain ⟨acts', hlog', hacts'⟩ := h'.acts
  refine ⟨⟨acts ++ acts', by rw [hlog', hlog, List.append_assoc], ?_⟩, h'.pending.trans h.pending,
    h'.client.trans h.client⟩
  intro result hresult
  rw [List.filterMap_append] at hresult
  rcases List.mem_append.1 hresult with hresult | hresult
  · exact hacts result hresult
  · exact hacts' result hresult

theorem Tells.mono (h : Tells P b b') (himp : ∀ result, P result → Q result) : Tells Q b b' := by
  obtain ⟨acts, hlog, hacts⟩ := h.acts
  exact ⟨⟨acts, hlog, fun result hresult => himp result (hacts result hresult)⟩, h.pending, h.client⟩

/-- What is noted is no result. -/
theorem Tells.note {acts : List Act} (h : acts.filterMap Act.result = []) : Tells P b (b.note acts) :=
  ⟨⟨acts, rfl, by rw [h]; nofun⟩, rfl, rfl⟩

theorem Tells.emit {o : BridgeOutput} (ho : Act.result (.output o) = none) (h : b.emit o = some b') : Tells P b b' := by
  simp only [Bridge.emit, Option.ite_none_right_eq_some, Option.some.injEq] at h
  obtain ⟨-, rfl⟩ := h
  exact .note (by simp [ho])

theorem Tells.emit_getD {o : BridgeOutput} {other : Bridge} (ho : Act.result (.output o) = none)
    (h : Tells P b other) : Tells P b ((b.emit o).getD other) := by
  cases he : b.emit o with
  | none => exact h
  | some b' => exact .emit ho he

theorem Tells.answer {frame : ServerFrame} (hP : P frame) (rest : List PendingControl) (shutdown : Bool) :
    Tells P b (b.answer frame rest shutdown) := by
  unfold Bridge.answer
  split
  · rename_i b' hemit
    simp only [Bridge.emit, Option.ite_none_right_eq_some, Option.some.injEq] at hemit
    obtain ⟨-, rfl⟩ := hemit
    refine ⟨⟨[.output (.control frame)], rfl, ?_⟩, rfl, rfl⟩
    intro result hresult
    cases frame <;> simp [Act.result] at hresult <;> exact hresult ▸ hP
  · exact .of_eq rfl rfl rfl

theorem answer_asks (frame : ServerFrame) (rest : List PendingControl) (shutdown : Bool) :
    (b.answer frame rest shutdown).phase.asks = none := by
  unfold Bridge.answer
  split <;> rfl

theorem send_tells (msg : ControlMessage) (w : Except IoError Unit) : Tells P b (b.send C msg w).2 := by
  refine .note ?_
  simp [List.filterMap_map, Function.comp_def, Act.result]

theorem clearTimeout_tells (what : String) (clear : Except IoError Unit) (result : Except ErrorInfo Unit) :
    Tells P b (b.clearTimeout what clear result).2 := by
  cases clear <;> exact .of_eq rfl rfl rfl

/-- Clearing the timeout keeps the result, or makes an error of its own. -/
theorem clearTimeout_result (what : String) (clear : Except IoError Unit) (result : Except ErrorInfo Unit) :
    (b.clearTimeout what clear result).1 = result ∨
      ∃ e, OwnError e ∧ (b.clearTimeout what clear result).1 = .error e := by
  cases clear with
  | ok _ => exact .inl rfl
  | error io => exact .inr ⟨_, .internal _, rfl⟩

end Telling

section Requests
variable {C : Codec} {own : ClientId} {ended : List Delivery} {b : Bridge}

/-- What `ended` has to hold for the success of a request. -/
def Done (C : Codec) (own : ClientId) (ended : List Delivery) : Asked → Prop
  | .resize _ => ∃ d ∈ ended, isStatus C d.frame
  | .leader _ => ∃ d ∈ ended, namesLeader C own d.frame

/-- The result of a wait rests on what ended it. -/
def Founded (C : Codec) (own : ClientId) (ended : List Delivery) (asked : Asked) : Except ErrorInfo Unit → Prop
  | .ok _ => Done C own ended asked
  | .error e => Caused C ended e

theorem Founded.ofOwn {asked : Asked} {e : ErrorInfo} (h : OwnError e) : Founded C own ended asked (.error e) := .inl h

theorem Founded.clear {asked : Asked} {result : Except ErrorInfo Unit} (h : Founded C own ended asked result)
    (what : String) (clear : Except IoError Unit) :
    Founded C own ended asked (b.clearTimeout what clear result).1 := by
  rcases clearTimeout_result (b := b) what clear result with heq | ⟨e, he, heq⟩
  · rw [heq]
    exact h
  · rw [heq]
    exact .ofOwn he

theorem answerResize_tells {asked : Asked} {result : Except ErrorInfo Unit} (h : Founded C own ended asked result)
    (rest : List PendingControl) (shutdown : Bool) :
    Closes (Fits C own ended) b (b.answerResize asked result rest shutdown) := by
  cases asked with
  | resize requestId =>
    refine ⟨.answer ?_ rest shutdown, answer_asks ..⟩
    cases result with
    | ok _ => exact ⟨fun _ => h, nofun⟩
    | error e =>
      refine ⟨nofun, ?_⟩
      rintro _ ⟨⟩
      exact h
  | leader requestId =>
    refine ⟨.answer ?_ rest shutdown, answer_asks ..⟩
    cases result with
    | ok _ => exact ⟨fun _ => h, nofun⟩
    | error e =>
      refine ⟨nofun, ?_⟩
      rintro _ ⟨⟩
      exact .inr ⟨e, rfl, h⟩

theorem endResize_tells {asked : Asked} {result : Except ErrorInfo Unit} (h : Founded C own ended asked result)
    (clear : Except IoError Unit) (rest : List PendingControl) (shutdown : Bool) :
    Closes (Fits C own ended) b (b.endResize asked clear result rest shutdown) := by
  obtain ⟨htells, hasks⟩ := answerResize_tells (b := (b.clearTimeout "resize" clear result).2)
    (h.clear (b := b) "resize" clear) rest shutdown
  exact ⟨(clearTimeout_tells "resize" clear result).trans htells, hasks⟩

/-- The resize is refused with an error of the bridge, or it is sent and its wait begins. -/
theorem resizeOnConnection_tells (C : Codec) (own : ClientId) (ended : List Delivery) (b : Bridge) (asked : Asked)
    (cols rows : Nat) (a : Answers) (rest : List PendingControl) (shutdown : Bool) :
    Tells (Fits C own ended) b (b.resizeOnConnection C asked cols rows a rest shutdown) ∧
      ((b.resizeOnConnection C asked cols rows a rest shutdown).phase.asks = none ∨
        (b.resizeOnConnection C asked cols rows a rest shutdown).phase = .awaitingResize asked [] rest shutdown) := by
  unfold resizeOnConnection
  split
  · exact (answerResize_tells (.ofOwn (.grid _)) rest shutdown).imp_right .inl
  split
  · exact (answerResize_tells (.ofOwn .notLeader) rest shutdown).imp_right .inl
  split
  · exact (answerResize_tells (.ofOwn (.internal _)) rest shutdown).imp_right .inl
  dsimp only
  have hset : Tells (Fits C own ended) b { b with conn := b.conn.setReadTimeout (some waitTimeout) } :=
    .of_eq rfl rfl rfl
  have hsend := hset.trans (send_tells (C := C) (.resize cols rows) a.write₁)
  split
  · rename_i e b₁ heq
    rw [heq] at hsend
    obtain ⟨htells, hasks⟩ := endResize_tells (.ofOwn (.internal _)) a.clear rest shutdown
    exact ⟨hsend.trans htells, .inl hasks⟩
  · rename_i u b₁ heq
    rw [heq] at hsend
    have hquery := hsend.trans (send_tells (C := C) .statusQuery a.write₂)
    split
    · rename_i e b₂ heq₂
      rw [heq₂] at hquery
      obtain ⟨htells, hasks⟩ := endResize_tells (.ofOwn (.internal _)) a.clear rest shutdown
      exact ⟨hquery.trans htells, .inl hasks⟩
    · rename_i u b₂ heq₂
      rw [heq₂] at hquery
      exact ⟨hquery.trans (.of_eq rfl rfl rfl), .inr rfl⟩

/-- The leader's wait ends in a result, or in the resize that follows. -/
theorem endLeader_tells {requestId : Nat} {result : Except ErrorInfo Unit}
    (h : Founded C own ended (.leader requestId) result) (clear : Except IoError Unit) (rest : List PendingControl)
    (shutdown : Bool) :
    Tells (Fits C own ended) b (b.endLeader requestId clear result rest shutdown) ∧
      ((b.endLeader requestId clear result rest shutdown).phase.asks = none ∨
        (∃ u, result = .ok u) ∧
          ∃ cols rows, (b.endLeader requestId clear result rest shutdown).phase =
            .leading requestId cols rows rest shutdown) := by
  have htells := clearTimeout_tells (P := Fits C own ended) (b := b) "leader request" clear result
  have hresult := h.clear (b := b) "leader request" clear
  have hkept := clearTimeout_result (b := b) "leader request" clear result
  unfold endLeader
  split
  · rename_i e b₁ heq
    rw [heq] at htells hresult
    refine ⟨htells.trans (.answer ⟨nofun, ?_⟩ rest shutdown), .inl (answer_asks ..)⟩
    rintro _ ⟨⟩
    exact .inl hresult
  · rename_i u b₁ heq
    rw [heq] at htells hresult hkept
    split
    · rename_i cols rows _
      have hok : ∃ u, result = .ok u := by
        rcases hkept with hkept | ⟨e, -, hkept⟩
        · exact ⟨u, hkept.symm⟩
        · cases hkept
      exact ⟨htells.trans (.of_eq rfl rfl rfl), .inr ⟨hok, cols, rows, rfl⟩⟩
    · exact ⟨htells.trans (.answer ⟨fun _ => hresult, nofun⟩ rest shutdown), .inl (answer_asks ..)⟩

theorem leaderOnConnection_tells (C : Codec) (own : ClientId) (ended : List Delivery) (b : Bridge) (requestId : Nat)
    (a : Answers) (rest : List PendingControl) (shutdown : Bool) :
    Tells (Fits C own ended) b (b.leaderOnConnection C requestId a rest shutdown) ∧
      ((b.leaderOnConnection C requestId a rest shutdown).phase.asks = none ∨
        (b.leaderOnConnection C requestId a rest shutdown).phase = .awaitingLeader requestId [] rest shutdown) := by
  have hrefused {e : ErrorInfo} (he : OwnError e) : Fits C own ended (leaderResult requestId (.error e)) := by
    refine ⟨nofun, ?_⟩
    rintro _ ⟨⟩
    exact .inl (.inl he)
  unfold leaderOnConnection
  split
  · exact ⟨.answer (hrefused .unsupported) rest shutdown, .inl (answer_asks ..)⟩
  split
  · exact ⟨.answer (hrefused (.internal _)) rest shutdown, .inl (answer_asks ..)⟩
  dsimp only
  have hset : Tells (Fits C own ended) b { b with conn := b.conn.setReadTimeout (some waitTimeout) } :=
    .of_eq rfl rfl rfl
  have hsend := hset.trans (send_tells (C := C) .leaderRequest a.write₁)
  split
  · rename_i e b₁ heq
    rw [heq] at hsend
    obtain ⟨htells, hasks | ⟨⟨u, hok⟩, -⟩⟩ :=
      endLeader_tells (.ofOwn (.internal ("send leader.request: " ++ e.text))) a.clear rest shutdown
    · exact ⟨hsend.trans htells, .inl hasks⟩
    · cases hok
  · rename_i u b₁ heq
    rw [heq] at hsend
    exact ⟨hsend.trans (.of_eq rfl rfl rfl), .inr rfl⟩

end Requests

section Rounds
variable {C : Codec} {P : ServerFrame → Prop} {b : Bridge}

theorem Closes.emit_getD {o : BridgeOutput} {other : Bridge} (ho : Act.result (.output o) = none)
    (hasks : b.phase.asks = none) (h : Closes P b other) : Closes P b ((b.emit o).getD other) := by
  refine ⟨.emit_getD ho h.1, ?_⟩
  unfold Bridge.emit
  split
  · exact hasks
  · exact h.2

theorem finish_closes (result : Except String Unit) : Closes P b (b.finish result) := ⟨.of_eq rfl rfl rfl, rfl⟩

theorem passAttachInfo_closes (hasks : b.phase.asks = none) : Closes P b b.passAttachInfo :=
  .emit_getD rfl hasks (finish_closes _)

theorem onFrame_closes (hasks : b.phase.asks = none) (frame : Frame) : Closes P b (b.onFrame C frame) := by
  unfold Bridge.onFrame
  split
  · exact .emit_getD rfl hasks (finish_closes _)
  split
  · unfold onControl
    split
    · exact finish_closes _
    · rename_i clientId _
      have hset : Tells P b (b.setLeader clientId) := .of_eq rfl rfl rfl
      exact (passAttachInfo_closes (b := b.setLeader clientId) hasks).imp_left hset.trans
    · split
      · exact ⟨.refl b, hasks⟩
      · rename_i mode _
        have hset : Tells P b (b.setMode mode) := .of_eq rfl rfl rfl
        exact (passAttachInfo_closes (b := b.setMode mode) hasks).imp_left hset.trans
    · exact ⟨.refl b, hasks⟩
  · exact ⟨.refl b, hasks⟩

theorem readBy_results (conn : ClientConnection) (read : Except FrameError Frame) :
    (readBy conn read).filterMap Act.result = [] := by
  unfold readBy
  split <;> rfl

theorem received_response (read : Except FrameError Frame) : (b.received read).conn.response = b.conn.response := by
  simp only [Bridge.received, ClientConnection.recvFrame]
  split <;> rfl

theorem received_tells (read : Except FrameError Frame) :
    Tells P { b with conn := (b.conn.recvFrame read).2 } (b.received read) := by
  refine ⟨⟨readBy b.conn read, rfl, ?_⟩, rfl, rfl⟩
  rw [readBy_results]
  nofun

theorem onReader_closes (hasks : b.phase.asks = none) (read : Except FrameError Frame) :
    Closes P { b with conn := (b.conn.recvFrame read).2 } (b.onReader C read) := by
  have hread := received_tells (P := P) (b := b) read
  unfold Bridge.onReader
  split
  · rename_i frame conn heq
    rw [Bridge.received, heq] at hread
    obtain ⟨htells, hphase⟩ := onFrame_closes (C := C) (P := P)
      (b := { b.note (readBy b.conn read) with conn }) hasks frame
    rw [heq]
    exact ⟨hread.trans htells, hphase⟩
  · rename_i e conn heq
    rw [heq]
    exact ⟨.of_eq rfl rfl rfl, rfl⟩

theorem afterSend_closes (result : Except Error Unit) (rest : List PendingControl) (shutdown : Bool) :
    Closes P b (b.afterSend result rest shutdown) := by
  unfold Bridge.afterSend
  split
  · exact ⟨.of_eq rfl rfl rfl, rfl⟩
  · split
    · exact ⟨.of_eq rfl rfl rfl, rfl⟩
    · exact finish_closes _

theorem onWake_closes (w : Except IoError Unit) : Closes P b (b.onWake w) := by
  unfold Bridge.onWake
  dsimp only
  split
  · exact ⟨.of_eq rfl rfl rfl, rfl⟩
  · have hconn := sendRawBytes_conn b.conn (drain b.inputClosed b.input).1 w
    split
    · rename_i result conn heq
      rw [heq] at hconn
      have hset : Tells P b { b with conn, input := (drain b.inputClosed b.input).2.2.2 } :=
        .of_eq rfl hconn.1 (congrArg (·.clientId) hconn.2)
      exact (afterSend_closes result _ _).imp_left hset.trans
    · rename_i frame conn heq
      rw [heq] at hconn
      exact ⟨⟨⟨_, rfl, nofun⟩, hconn.1, congrArg (·.clientId) hconn.2⟩, rfl⟩

/-- The connection after what an event receives or sets aside. -/
def connAfter (C : Codec) (b : Bridge) : Event → ClientConnection
  | .poll (.ready true _) read _ | .receive read _ => (b.conn.recvFrame read).2
  | .ackWait e => (b.conn.awaitAck C e).2
  | _ => b.conn

theorem connAfter_response (C : Codec) (b : Bridge) (e : Event) : (b.connAfter C e).response = b.conn.response := by
  unfold connAfter
  split
  · exact received_response _
  · exact received_response _
  · exact (awaitAck_conn C b.conn _).1
  · rfl

theorem onPoll_closes (hasks : b.phase.asks = none) (p : Poll) (read : Except FrameError Frame)
    (w : Except IoError Unit) :
    Closes P { b with conn := b.connAfter C (.poll p read w) } (b.onPoll C p read w) := by
  cases p with
  | interrupted => exact ⟨.refl b, hasks⟩
  | failed message => exact finish_closes _
  | ready reader wake =>
    have hread : Closes P { b with conn := b.connAfter C (.poll (.ready reader wake) read w) }
        (if reader then b.onReader C read else b) := by
      cases reader with
      | true => exact onReader_closes hasks read
      | false => exact ⟨.refl b, hasks⟩
    simp only [Bridge.onPoll]
    generalize (if reader then b.onReader C read else b) = b₁ at hread
    split
    · obtain ⟨htells, hphase⟩ := onWake_closes (P := P) (b := b₁) w
      exact ⟨hread.1.trans htells, hphase⟩
    · exact hread

theorem onAckWait_closes (hasks : b.phase.asks = none) (e : ClientConnection.AckWait) (rest : List PendingControl)
    (shutdown : Bool) :
    Closes P { b with conn := b.connAfter C (.ackWait e) } (b.onAckWait C e rest shutdown) := by
  have hread : Tells P { b with conn := (b.conn.awaitAck C e).2 }
      { b.note (readByAck e) with conn := (b.conn.awaitAck C e).2 } := by
    refine ⟨⟨readByAck e, rfl, ?_⟩, rfl, rfl⟩
    unfold readByAck
    split <;> nofun
  have hconn : b.connAfter C (.ackWait e) = (b.conn.awaitAck C e).2 := rfl
  rw [hconn]
  unfold Bridge.onAckWait
  split
  · rename_i conn heq
    rw [heq] at hread ⊢
    exact ⟨hread, hasks⟩
  · rename_i result conn heq
    rw [heq] at hread ⊢
    obtain ⟨htells, hphase⟩ := afterSend_closes result rest shutdown
    exact ⟨hread.trans htells, hphase⟩

end Rounds

section Waits
variable {C : Codec} {P : ServerFrame → Prop} {own : ClientId} {b b' : Bridge}

theorem emit_conn {o : BridgeOutput} (h : b.emit o = some b') : b'.conn = b.conn := by
  simp only [Bridge.emit, Option.ite_none_right_eq_some, Option.some.injEq] at h
  rw [← h.2]
  rfl

theorem forward_tells {raw : Bytes} (h : b.forward raw = some b') : Tells P b b' ∧ b'.conn = b.conn := by
  unfold Bridge.forward at h
  split at h
  · cases h
    exact ⟨.refl b, rfl⟩
  · exact ⟨.emit rfl h, emit_conn h⟩

/-- How a wait ends: with an error of the bridge, or with the frame it received. -/
def EndsBy (b : Bridge) (read : Except FrameError Frame) (ended : Frame → Except ErrorInfo Unit → Prop)
    (result : Except ErrorInfo Unit) : Prop :=
  (∃ e, result = .error e ∧ OwnError e) ∨ ∃ frame, (b.conn.recvFrame read).1 = .ok frame ∧ ended frame result

/-- A turn of a wait tells no result, and ends it as its messages do. -/
theorem waitTurn_tells (C : Codec) (awaiting : String) {handle : Bridge → ControlMessage → Turn} (raw : Bytes)
    (read : Except FrameError Frame) {ended : Frame → Except ErrorInfo Unit → Prop}
    (hown : b.conn.response.clientId = own)
    (hhandle : ∀ b frame message, b.conn.response.clientId = own → messageOf C frame = some message →
      Tells P b (handle b message).2 ∧ ∀ result, (handle b message).1 = some result →
        (∃ e, result = .error e ∧ OwnError e) ∨ ended frame result) :
    Tells P { b with conn := (b.conn.recvFrame read).2 } (b.waitTurn C awaiting handle raw read).1.2 ∧
      ∀ result, (b.waitTurn C awaiting handle raw read).1.1 = some result → b.EndsBy read ended result := by
  rcases waitTurn_cases C b awaiting handle raw read with ⟨e, what, hrecv, hturn⟩ | ⟨frame, hrecv, hturn⟩
  · rw [hturn, recvFrame_error hrecv]
    refine ⟨.refl b, ?_⟩
    rintro _ ⟨⟩
    exact .inl ⟨_, rfl, .internal what⟩
  have hread := received_tells (P := P) (b := b) read
  rcases hturn with ⟨raw', -, hturn⟩ | ⟨e, raw', what, -, hturn⟩ | ⟨message, raw', hframe, hturn⟩
  · rw [hturn]
    exact ⟨hread, nofun⟩
  · rw [hturn]
    refine ⟨hread, ?_⟩
    rintro _ ⟨⟩
    exact .inl ⟨_, rfl, .internal what⟩
  obtain ⟨hty, hdec⟩ := recvControlFrame_ok hframe
  rcases hturn with ⟨what, -, hturn⟩ | ⟨b', hfwd, hturn⟩
  · rw [hturn]
    refine ⟨hread, ?_⟩
    rintro _ ⟨⟩
    exact .inl ⟨_, rfl, .internal what⟩
  · rw [hturn]
    obtain ⟨hforward, hconn⟩ := forward_tells (P := P) hfwd
    obtain ⟨htells, hresult⟩ := hhandle b' frame message (by rw [hconn, received_response, hown])
      (by rw [messageOf, if_pos hty, hdec])
    refine ⟨(hread.trans hforward).trans htells, fun result h => ?_⟩
    exact (hresult result h).imp_right fun hended => ⟨frame, hrecv, hended⟩

/-- What ends the wait of a resize. -/
def resizedBy (C : Codec) (frame : Frame) : Except ErrorInfo Unit → Prop
  | .ok _ => isStatus C frame
  | .error e => errorIn C frame = some e

def leadsBy (C : Codec) (own : ClientId) (frame : Frame) : Except ErrorInfo Unit → Prop
  | .ok _ => namesLeader C own frame
  | .error e => errorIn C frame = some e

theorem resizeMessage_tells (b : Bridge) (frame : Frame) (message : ControlMessage)
    (h : messageOf C frame = some message) :
    Tells P b (b.resizeMessage message).2 ∧
      ∀ result, (b.resizeMessage message).1 = some result →
        (∃ e, result = .error e ∧ OwnError e) ∨ resizedBy C frame result := by
  unfold Bridge.resizeMessage
  split
  · refine ⟨.refl b, ?_⟩
    rintro _ ⟨⟩
    exact .inr (by simp [resizedBy, isStatus, h])
  · refine ⟨.refl b, ?_⟩
    rintro _ ⟨⟩
    exact .inr (by simp [resizedBy, errorIn, h])
  · exact ⟨.refl b, nofun⟩

theorem leaderMessage_tells (b : Bridge) (frame : Frame) (message : ControlMessage)
    (hown : b.conn.response.clientId = own) (h : messageOf C frame = some message) :
    Tells P b (b.leaderMessage message).2 ∧
      ∀ result, (b.leaderMessage message).1 = some result →
        (∃ e, result = .error e ∧ OwnError e) ∨ leadsBy C own frame result := by
  unfold Bridge.leaderMessage
  split
  · split
    · exact ⟨.refl b, nofun⟩
    · rename_i mode _
      have hset : Tells P b (b.setMode mode) := .of_eq rfl rfl rfl
      dsimp only
      split
      · refine ⟨hset, ?_⟩
        rintro _ ⟨⟩
        exact .inl ⟨_, rfl, .internal _⟩
      · rename_i hsent
        exact ⟨hset.trans (.emit rfl hsent), nofun⟩
  · rename_i clientId
    have hset : Tells P b (b.setLeader clientId) := .of_eq rfl rfl rfl
    dsimp only
    split
    · refine ⟨hset, ?_⟩
      rintro _ ⟨⟩
      exact .inl ⟨_, rfl, .internal _⟩
    · rename_i b₁ hsent
      have htells : Tells P b b₁ := hset.trans (.emit rfl hsent)
      split
      · rename_i hleader
        refine ⟨htells, ?_⟩
        rintro _ ⟨⟩
        refine .inr ?_
        rw [emit_conn hsent] at hleader
        have hnamed : clientId = some own := by simpa [Bridge.setLeader, hown] using hleader
        simp [leadsBy, namesLeader, h, hnamed]
      · exact ⟨htells, nofun⟩
  · refine ⟨.refl b, ?_⟩
    rintro _ ⟨⟩
    exact .inr (by simp [leadsBy, errorIn, h])
  · exact ⟨.refl b, nofun⟩

end Waits

end Bridge

/-- Leading is reached, and the result waits for the resize. -/
def Phase.leads : Phase → Bool
  | .leading .. | .awaitingResize (.leader _) .. => true
  | _ => false

namespace Bridge

/-! ## One step -/

/-- What a step does for the requests, when `ended` is what has ended the waits of the one under way. -/
structure Moved (C : Codec) (own : ClientId) (ended : List Delivery) (b : Bridge) (e : Event) (b' : Bridge) : Prop where
  tells : Tells (fun result => Fits C own ended result ∧ (b.phase.asks = none → b.starts e ≠ none))
    { b with conn := b.connAfter C e } b'
  asks : ∀ leader', b'.phase.asks = some leader' →
    ∃ leader, (b.phase.asks = some leader ∨ (b.starts e).map PendingControl.asksLeader = some leader) ∧
      (leader' = true → leader = true)
  leads : b'.phase.leads = true → ∃ d ∈ ended, namesLeader C own d.frame

section Moving
variable {C : Codec} {own : ClientId} {ended : List Delivery} {b b' : Bridge} {e : Event}

/-- No phase outside a request waits for the resize of a leader. -/
theorem leads_asks {phase : Phase} (h : phase.leads = true) : phase.asks = some false := by
  cases phase with
  | leading | awaitingResize => rfl
  | _ => cases h

theorem Moved.closes
    (h : Closes (fun result => Fits C own ended result ∧ (b.phase.asks = none → b.starts e ≠ none))
      { b with conn := b.connAfter C e } b') : b.Moved C own ended e b' := by
  refine ⟨h.1, fun leader' hasks => ?_, fun hleads => ?_⟩
  · rw [h.2] at hasks
    cases hasks
  · have hasks := leads_asks hleads
    rw [h.2] at hasks
    cases hasks

/-- The next request of a drain. -/
theorem onControls_moved (a : Answers) {rest : List PendingControl} {shutdown : Bool}
    (hphase : b.phase = .controls rest shutdown) :
    b.Moved C own ended (.control a) (b.onControls C a rest shutdown) := by
  have hasks : b.phase.asks = none := by rw [hphase]; rfl
  cases rest with
  | nil =>
    refine .closes ?_
    cases shutdown with
    | true => exact ⟨.phase b _, rfl⟩
    | false => exact ⟨.phase b _, rfl⟩
  | cons control rest =>
    have hstarts : b.starts (.control a) = some control := by simp only [starts, hphase]
    have himp : ∀ result, Fits C own ended result →
        Fits C own ended result ∧ (b.phase.asks = none → b.starts (.control a) ≠ none) := by
      intro result h
      exact ⟨h, fun _ => by rw [hstarts]; nofun⟩
    cases control with
    | resize requestId cols rows =>
      have hgrid : Tells (Fits C own ended) b
          (if cols > 0 ∧ rows > 0 then { b with latestGrid := some (cols, rows) } else b) := by
        split
        · exact .of_eq rfl rfl rfl
        · exact .refl b
      obtain ⟨htells, hafter⟩ := resizeOnConnection_tells C own ended
        (if cols > 0 ∧ rows > 0 then { b with latestGrid := some (cols, rows) } else b)
        (.resize requestId) cols rows a rest shutdown
      have htells := (hgrid.trans htells).mono himp
      rcases hafter with hnone | hwaits
      · exact .closes ⟨htells, hnone⟩
      · refine ⟨htells, fun leader' h => ⟨false, .inr (by rw [hstarts]; rfl), ?_⟩, fun h => ?_⟩
        · rw [onControls, hwaits] at h
          cases h
          exact id
        · rw [onControls, hwaits] at h
          cases h
    | leaderRequest requestId =>
      obtain ⟨htells, hafter⟩ := leaderOnConnection_tells C own ended b requestId a rest shutdown
      have htells := htells.mono himp
      rcases hafter with hnone | hwaits
      · exact .closes ⟨htells, hnone⟩
      · refine ⟨htells, fun leader' _ => ⟨true, .inr (by rw [hstarts]; rfl), fun _ => rfl⟩, fun h => ?_⟩
        rw [onControls, hwaits] at h
        cases h

/-- The resize of a leader request. -/
theorem leading_moved (a : Answers) {requestId cols rows : Nat} {rest : List PendingControl} {shutdown : Bool}
    (hphase : b.phase = .leading requestId cols rows rest shutdown)
    (hnamed : ∃ d ∈ ended, namesLeader C own d.frame) :
    b.Moved C own ended (.control a) (b.resizeOnConnection C (.leader requestId) cols rows a rest shutdown) := by
  have hasks : b.phase.asks = some false := by rw [hphase]; rfl
  obtain ⟨htells, hafter⟩ := resizeOnConnection_tells C own ended b (.leader requestId) cols rows a rest
    shutdown
  have htells := htells.mono fun result h =>
    (⟨h, fun hnone => by rw [hasks] at hnone; cases hnone⟩ :
      Fits C own ended result ∧ (b.phase.asks = none → b.starts (.control a) ≠ none))
  rcases hafter with hnone | hwaits
  · exact .closes ⟨htells, hnone⟩
  · refine ⟨htells, fun leader' h => ⟨false, .inl hasks, ?_⟩, fun _ => hnamed⟩
    rw [hwaits] at h
    cases h
    exact id

/-- A turn of a wait, when `ended` holds what it received for its answer. -/
theorem onReceive_moved {read : Except FrameError Frame} {clear : Except IoError Unit}
    (hs : b.onReceive C read clear = some b') (hown : b.conn.response.clientId = own)
    (hended : ∀ frame leader, (b.conn.recvFrame read).1 = .ok frame → b.phase.asks = some leader →
      awaited C own leader frame = true → ∃ d ∈ ended, d.frame = frame)
    (hnamed : b.phase.leads = true → ∃ d ∈ ended, namesLeader C own d.frame) :
    b.Moved C own ended (.receive read clear) b' := by
  have himp : ∀ leader, b.phase.asks = some leader → ∀ result, Fits C own ended result →
      Fits C own ended result ∧ (b.phase.asks = none → b.starts (.receive read clear) ≠ none) := by
    intro leader hasks result h
    exact ⟨h, fun hnone => by rw [hasks] at hnone; cases hnone⟩
  unfold onReceive at hs
  split at hs
  · rename_i asked raw rest shutdown hphase
    have hasks : b.phase.asks = some false := by rw [hphase]; rfl
    obtain ⟨htells, hends⟩ := waitTurn_tells (P := Fits C own ended) C "resize" raw read hown
      fun b frame message _ h => resizeMessage_tells b frame message h
    split at hs
    · rename_i b₁ raw₁ heq
      rw [heq] at htells
      cases hs
      have hsame : (Phase.awaitingResize asked raw₁ rest shutdown).leads = b.phase.leads := by
        rw [hphase]
        cases asked <;> rfl
      refine ⟨(htells.trans (.phase b₁ _)).mono (himp false hasks), ?_, ?_⟩
      · rintro _ ⟨⟩
        exact ⟨false, .inl hasks, id⟩
      · rw [hsame]
        exact hnamed
    · rename_i result b₁ raw₁ heq
      rw [heq] at htells hends
      cases hs
      have hfounded : Founded C own ended asked result := by
        rcases hends result rfl with ⟨e, rfl, he⟩ | ⟨frame, hrecv, hby⟩
        · exact .ofOwn he
        cases result with
        | ok u =>
          cases asked with
          | resize requestId =>
            have hin : isStatus C frame = true := hby
            obtain ⟨d, hd, rfl⟩ := hended frame false hrecv hasks (by simp [awaited, hin])
            exact ⟨d, hd, hin⟩
          | leader requestId => exact hnamed (by rw [hphase]; rfl)
        | error e =>
          have hin : errorIn C frame = some e := hby
          obtain ⟨d, hd, rfl⟩ := hended frame false hrecv hasks (by simp [awaited, hin])
          exact .inr ⟨d, hd, hin⟩
      obtain ⟨hends, hnone⟩ := endResize_tells (b := b₁) hfounded clear rest shutdown
      exact .closes ⟨(htells.trans hends).mono (himp false hasks), hnone⟩
  · rename_i requestId raw rest shutdown hphase
    have hasks : b.phase.asks = some true := by rw [hphase]; rfl
    obtain ⟨htells, hends⟩ := waitTurn_tells (P := Fits C own ended) C "leader.request" raw read hown
      leaderMessage_tells
    split at hs
    · rename_i b₁ raw₁ heq
      rw [heq] at htells
      cases hs
      refine ⟨(htells.trans (.phase b₁ _)).mono (himp true hasks), ?_, nofun⟩
      rintro _ ⟨⟩
      exact ⟨true, .inl hasks, id⟩
    · rename_i result b₁ raw₁ heq
      rw [heq] at htells hends
      cases hs
      have hfounded : Founded C own ended (.leader requestId) result := by
        rcases hends result rfl with ⟨e, rfl, he⟩ | ⟨frame, hrecv, hby⟩
        · exact .ofOwn he
        cases result with
        | ok u =>
          have hin : namesLeader C own frame = true := hby
          obtain ⟨d, hd, rfl⟩ := hended frame true hrecv hasks (by simp [awaited, hin])
          exact ⟨d, hd, hin⟩
        | error e =>
          have hin : errorIn C frame = some e := hby
          obtain ⟨d, hd, rfl⟩ := hended frame true hrecv hasks (by simp [awaited, hin])
          exact .inr ⟨d, hd, hin⟩
      obtain ⟨hends, hafter⟩ := endLeader_tells (b := b₁) hfounded clear rest shutdown
      have htells := (htells.trans hends).mono (himp true hasks)
      rcases hafter with hnone | ⟨⟨u, rfl⟩, cols, rows, hleading⟩
      · exact .closes ⟨htells, hnone⟩
      · refine ⟨htells, fun leader' _ => ⟨true, .inl hasks, fun _ => rfl⟩, fun _ => hfounded⟩
  · cases hs

/-- What the browser sends, and either end going. -/
theorem Moved.same (hlog : b'.log = b.log) (hconn : b'.conn = b.connAfter C e) (hphase : b'.phase = b.phase)
    (hnamed : b.phase.leads = true → ∃ d ∈ ended, namesLeader C own d.frame) : b.Moved C own ended e b' := by
  refine ⟨.of_eq hlog (by rw [hconn]) (by rw [hconn]), fun leader' h => ⟨leader', .inl (hphase ▸ h), id⟩, ?_⟩
  rw [hphase]
  exact hnamed

theorem step_moved (hs : b.step C e = some b') (hown : b.conn.response.clientId = own)
    (hended : ∀ read clear, e = .receive read clear → ∀ frame leader, (b.conn.recvFrame read).1 = .ok frame →
      b.phase.asks = some leader → awaited C own leader frame = true → ∃ d ∈ ended, d.frame = frame)
    (hnamed : b.phase.leads = true → ∃ d ∈ ended, namesLeader C own d.frame) : b.Moved C own ended e b' := by
  cases e with
  | browser cmd =>
    simp only [step, Option.ite_none_left_eq_some, Option.some.injEq] at hs
    obtain ⟨-, rfl⟩ := hs
    exact .same rfl rfl rfl hnamed
  | readerGone | writerGone =>
    cases hs
    exact .same rfl rfl rfl hnamed
  | poll p read w =>
    simp only [step, Option.ite_none_right_eq_some, Option.some.injEq] at hs
    obtain ⟨htop, rfl⟩ := hs
    exact .closes (onPoll_closes (by rw [htop]; rfl) p read w)
  | ackWait e =>
    simp only [step] at hs
    split at hs
    · rename_i rest shutdown hphase
      cases hs
      exact .closes (onAckWait_closes (by rw [hphase]; rfl) e rest shutdown)
    · cases hs
  | control a =>
    simp only [step] at hs
    split at hs
    · rename_i rest shutdown hphase
      cases hs
      exact onControls_moved a hphase
    · rename_i requestId cols rows rest shutdown hphase
      cases hs
      exact leading_moved a hphase (hnamed (by rw [hphase]; rfl))
    · cases hs
  | receive read clear => exact onReceive_moved hs hown (hended read clear rfl) hnamed

end Moving

end Bridge

end Hyoui.Web
