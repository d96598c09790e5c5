import Hyoui.Auth.Families
import Hyoui.Web.Moves
/-!
# Authenticated WebSockets

A connection keeps the family that opened it and the expiry of the access token it was shown last. The
reader task takes the browser's messages and waits for the end of the authentication, the writer task
sends what the bridge and the reader put into its queue. A step is what a task does between two awaits.

`lost` is one poll of the future of that name: the select polls its two branches in an order of its own.
The JSON of the text frames and the daemon's side are parameters.
-/

namespace Hyoui.Auth

open Hyoui.Lib Hyoui.Protocol

/-! ## The authentication of a connection -/

/-- An HTTP answer that refuses a request. -/
structure Failure where
  status : Nat
  code : String
  message : String
  deriving DecidableEq

/-- Who a request is from. -/
structure Identity where
  sub : String
  endpoint : Endpoint
  familyId : String
  accessExpiresAtMs : Nat
  deriving DecidableEq

/-- The middleware of `/api/*` and of the WebSocket; `none` is a file that cannot be read. -/
def requireAuth (file : Option AuthFile) (presented : Option String) (nowMs : Nat) : Except Failure Identity :=
  let required : Failure := ⟨401, "auth-required", "this endpoint requires an authenticated session"⟩
  match presented with
  | none => .error required
  | some presented =>
    match file with
    | none => .error ⟨500, "internal-error", "authentication state is unreadable"⟩
    | some file =>
      match file.findLiveFamilyByAccess presented nowMs with
      | none => .error required
      | some family =>
        .ok {
          sub := family.sub
          endpoint := family.endpoint
          familyId := family.id
          accessExpiresAtMs := family.access.expiresAtMs }

/-- Why the authentication of a connection ended. -/
inductive AuthLoss
  | expired
  | revoked
  | rejected
  deriving DecidableEq, Repr

def AuthLoss.closeReason : AuthLoss → String
  | expired => "access expired"
  | revoked => "access revoked"
  | rejected => "access rejected"

/-- Revoked, or gone; a file that cannot be read counts as revoked. -/
def familyIsRevoked (file : Option AuthFile) (endpoint : Endpoint) (familyId : String) : Bool :=
  match file with
  | none => true
  | some file => (file.family endpoint familyId).all (·.isTombstoned)

/-- `anchor` is one moment on the clock of the timers and in unix milliseconds; `seen` is the number of
revocation signals the connection has taken note of, and none before its first look. -/
structure WsAuth where
  endpoint : Endpoint
  familyId : String
  expiresAtMs : Nat
  anchor : Nat × Nat
  seen : Option Nat
  deriving DecidableEq

namespace WsAuth

def new (identity : Identity) (instantMs nowMs : Nat) : WsAuth where
  endpoint := identity.endpoint
  familyId := identity.familyId
  expiresAtMs := identity.accessExpiresAtMs
  anchor := (instantMs, nowMs)
  seen := none

/-- `auth.extend`: only the access token the connection's own family holds now extends it. -/
def extendAt (auth : WsAuth) (file : Option AuthFile) (presented : String) (nowMs : Nat) :
    Except AuthLoss Nat × WsAuth :=
  match file with
  | none => (.error .rejected, auth)
  | some file =>
    match file.family auth.endpoint auth.familyId with
    | none => (.error .revoked, auth)
    | some family =>
      if family.isTombstoned then
        (.error .revoked, auth)
      else if !family.holdsLiveAccess presented nowMs then
        (.error .rejected, auth)
      else
        (.ok family.access.expiresAtMs, { auth with expiresAtMs := family.access.expiresAtMs })

def deadline (auth : WsAuth) : Nat := auth.anchor.1 + (auth.expiresAtMs - auth.anchor.2)

/-- The timer's branch of the select, where it is ready. -/
def expired (auth : WsAuth) (instantMs : Nat) : Bool := auth.deadline ≤ instantMs

/-- One poll of `lost` after `sent` signals. A change is taken note of before the file is read. -/
def lost (auth : WsAuth) (file : Option AuthFile) (instantMs sent : Nat) (timerFirst : Bool) :
    Option AuthLoss × WsAuth :=
  if auth.expired instantMs && timerFirst then
    (some .expired, auth)
  else if auth.seen ≠ some sent then
    let auth := { auth with seen := some sent }
    if familyIsRevoked file auth.endpoint auth.familyId then (some .revoked, auth)
    else if auth.expired instantMs then (some .expired, auth)
    else (none, auth)
  else if auth.expired instantMs then
    (some .expired, auth)
  else
    (none, auth)

end WsAuth

/-! ## A connection and its tasks -/

inductive ClientFrame
  | resize (requestId cols rows : Nat)
  | leaderRequest (requestId : Nat)
  | authExtend (requestId : Nat) (accessToken : String)
  deriving DecidableEq

inductive Message
  | binary (bytes : Bytes)
  | text (text : String)
  | ping
  | pong
  | close
  deriving DecidableEq

/-- What `ws_rx.next()` gives. -/
inductive Incoming
  | message (message : Message)
  | failed
  | ended
  deriving DecidableEq

/-- The access token of an `auth.extend`. -/
def Incoming.extension (decode : String → Except String ClientFrame) : Incoming → Option String
  | .message (.text text) =>
    match decode text with
    | .ok (.authExtend _ accessToken) => some accessToken
    | _ => none
  | _ => none

structure CloseFrame where
  code : Nat
  reason : String
  deriving DecidableEq

def authEnded : Nat := 4401

/-- What the writer's queue holds. The expiry in `extendResult` is not formatted yet. -/
inductive Output
  | bridge (o : Web.BridgeOutput)
  | extendResult (requestId : Nat) (ok : Bool) (expiresAt : Option Nat) (error : Option Web.ErrorInfo)
  | error (requestId : Option Nat) (error : Web.ErrorInfo)
  | close (frame : CloseFrame)
  deriving DecidableEq

/-- What is handed to the socket. -/
inductive Sent
  | message (o : Output)
  | close (frame : Option CloseFrame)
  deriving DecidableEq

/-- `fed` are all commands that were put into the bridge's queue, `wire` all that was handed to the socket. -/
structure Connection where
  auth : WsAuth
  bridge : Web.Bridge
  reading : Bool := true
  lost : Option AuthLoss := none
  fed : List Web.BridgeCmd := []
  queue : List Output := []
  writing : Bool := true
  wire : List Sent := []

/-- What a connection sees of the process and the machine it runs on. -/
structure Sight where
  file : AuthFile
  unixMs : Nat
  instantMs : Nat
  sent : Nat

namespace Connection

def start (G : Web.Gateway) (response : HandshakeResponse) (auth : WsAuth) : Connection where
  auth := auth
  bridge := .start G response
  queue := (Web.Bridge.start G response).log.filterMap fun
    | .output o => some (.bridge o)
    | _ => none

def bridgeDone (c : Connection) : Bool :=
  match c.bridge.phase with
  | .done _ => true
  | _ => false

/-- Puts a frame into the writer's queue; it is lost when the writer has gone. -/
def put (c : Connection) (o : Output) : Connection := if c.writing then { c with queue := c.queue ++ [o] } else c

/-- Puts a command into the bridge's queue; it is lost when the bridge has gone. -/
def feed (c : Connection) (cmd : Web.BridgeCmd) : Connection :=
  if c.bridgeDone then c
  else { c with bridge := { c.bridge with input := c.bridge.input ++ [cmd] }, fed := c.fed ++ [cmd] }

/-- The close frame of a lost authentication. -/
def announce (c : Connection) (lost : Option AuthLoss) : Connection :=
  match lost with
  | some loss => c.put (.close ⟨authEnded, loss.closeReason⟩)
  | none => c

/-- The reader's loop ends. -/
def stop (c : Connection) (lost : Option AuthLoss) : Connection :=
  let c := ({ c with lost, reading := false }.announce lost).feed .shutdown
  { c with bridge := { c.bridge with inputClosed := true } }

/-- A command for the daemon. -/
def command (c : Connection) (cmd : Web.BridgeCmd) : Connection := if c.bridgeDone then c.stop none else c.feed cmd

/-- A frame of the reader's own, after which it goes on; without a writer it stops. -/
def reply (c : Connection) (o : Output) : Connection := if c.writing then c.put o else c.stop none

def extend (c : Connection) (file : Option AuthFile) (nowMs requestId : Nat) (accessToken : String) : Connection :=
  let (extended, auth) := c.auth.extendAt file accessToken nowMs
  let c := { c with auth }
  if !c.writing then
    c.stop none
  else
    match extended with
    | .ok expiresAtMs => c.put (.extendResult requestId true (some expiresAtMs) none)
    | .error loss =>
      (c.put (.extendResult requestId false none
        (some ⟨"auth-failed", "the authenticated session is no longer valid"⟩))).stop (some loss)

/-- The reader has taken what came from the browser. -/
def receive (decode : String → Except String ClientFrame) (c : Connection) (file : Option AuthFile) (nowMs : Nat) :
    Incoming → Connection
  | .ended | .failed | .message .close => c.stop none
  | .message .ping | .message .pong => c
  | .message (.binary bytes) => c.command (.bytes bytes)
  | .message (.text text) =>
    match decode text with
    | .ok (.resize requestId cols rows) => c.command (.resize requestId cols rows)
    | .ok (.leaderRequest requestId) => c.command (.leaderRequest requestId)
    | .ok (.authExtend requestId accessToken) => c.extend file nowMs requestId accessToken
    | .error e => c.reply (.error none ⟨"unknown-kind", "unrecognized WS text frame: " ++ e⟩)

/-- The reader polls `lost`. -/
def poll (c : Connection) (file : Option AuthFile) (instantMs sent : Nat) (timerFirst : Bool) : Connection :=
  match c.auth.lost file instantMs sent timerFirst with
  | (some loss, auth) => { c with auth }.stop (some loss)
  | (none, auth) => { c with auth }

/-- Hands messages to the socket. -/
def hand (c : Connection) (sent : List Sent) : Connection := { c with wire := c.wire ++ sent }

/-- The writer has gone. -/
def closeWriter (c : Connection) : Connection :=
  { c with writing := false, bridge := { c.bridge with writerOpen := false } }

/-- The writer takes the next output, `ok` when the socket takes it too. After a close, or a failure, it
sends the close frame of the socket and ends; so it does when nobody is left to put anything into the queue. -/
def write (c : Connection) (ok : Bool) : Option Connection :=
  match c.queue with
  | .close frame :: queue => some ({ c with queue }.hand [.close (some frame)]).closeWriter
  | o :: queue =>
    if ok then some ({ c with queue }.hand [.message o])
    else some ({ c with queue }.hand [.message o, .close none]).closeWriter
  | [] => if c.reading || !c.bridgeDone then none else some (c.hand [.close none]).closeWriter

/-- What the bridge puts out goes into the writer's queue. -/
def output (c : Connection) : Web.Act → Connection
  | .output o => c.put (.bridge o)
  | _ => c

/-- A step of the bridge thread. -/
def onBridge (C : Client.Codec) (c : Connection) (e : Web.Bridge.Event) : Option Connection :=
  match e with
  | .browser _ | .readerGone | .writerGone => none
  | e => (c.bridge.step C e).map fun bridge => (bridge.log.drop c.bridge.log.length).foldl output { c with bridge }

/-- What can happen to a connection. `readable` is whether a read of the file succeeds, `nowMs` a reading of
the unix clock; `abort` and `timeout` are the end of the reader and of the writer after that of the bridge. -/
inductive Move
  | poll (readable timerFirst : Bool)
  | receive (readable : Bool) (nowMs : Nat) (incoming : Incoming)
  | bridge (e : Web.Bridge.Event)
  | abort
  | write (ok : Bool)
  | timeout

def step (C : Client.Codec) (decode : String → Except String ClientFrame) (v : Sight) (c : Connection) :
    Move → Option Connection
  | .poll readable timerFirst =>
    if c.reading then some (c.poll (if readable then some v.file else none) v.instantMs v.sent timerFirst) else none
  | .receive readable nowMs incoming =>
    if c.reading ∧ nowMs ≤ v.unixMs then
      some (c.receive decode (if readable then some v.file else none) nowMs incoming)
    else
      none
  | .bridge e => c.onBridge C e
  | .abort => if c.reading ∧ c.bridgeDone then some { c with reading := false } else none
  | .write ok => if c.writing then c.write ok else none
  | .timeout => if !c.reading ∧ c.bridgeDone ∧ c.writing then some c.closeWriter else none

end Connection

/-! ## What a poll and an extension come to -/

namespace WsAuth

variable {auth : WsAuth} {file : Option AuthFile} {instantMs sent : Nat}

/-- From the deadline on every poll ends the connection. -/
theorem lost_of_expired (h : auth.expired instantMs = true) (timerFirst : Bool) :
    ∃ loss, (auth.lost file instantMs sent timerFirst).1 = some loss := by
  have hseen : ({ auth with seen := some sent } : WsAuth).expired instantMs = true := h
  simp only [lost, h, hseen, Bool.true_and, if_true]
  split
  · exact ⟨_, rfl⟩
  · split
    · split <;> exact ⟨_, rfl⟩
    · exact ⟨_, rfl⟩

/-- With a signal not taken note of, and the family revoked, a poll ends the connection. -/
theorem lost_of_revoked (hseen : auth.seen ≠ some sent)
    (hrevoked : familyIsRevoked file auth.endpoint auth.familyId = true) (timerFirst : Bool) :
    ∃ loss, (auth.lost file instantMs sent timerFirst).1 = some loss := by
  unfold lost
  split
  · exact ⟨_, rfl⟩
  · dsimp only
    rw [if_pos hrevoked]
    exact ⟨_, rfl⟩

/-- A poll changes nothing but what the connection has taken note of. -/
theorem lost_auth (auth : WsAuth) (file : Option AuthFile) (instantMs sent : Nat) (timerFirst : Bool) :
    (auth.lost file instantMs sent timerFirst).2 = auth ∨
      (auth.lost file instantMs sent timerFirst).2 = { auth with seen := some sent } := by
  simp only [lost]
  split
  · exact Or.inl rfl
  · split
    · refine Or.inr ?_
      split
      · rfl
      · split <;> rfl
    · split <;> exact Or.inl rfl

/-- What extends a connection is the access token its family holds, and the family is not revoked. -/
theorem extendAt_auth (auth : WsAuth) (file : Option AuthFile) (presented : String) (nowMs : Nat) :
    (auth.extendAt file presented nowMs).2 = auth ∨ ∃ file' family, file = some file' ∧
      file'.family auth.endpoint auth.familyId = some family ∧ family.isTombstoned = false ∧ family.access.value = presented ∧
      (auth.extendAt file presented nowMs).2 = { auth with expiresAtMs := family.access.expiresAtMs } := by
  unfold extendAt
  split
  · exact Or.inl rfl
  · rename_i file'
    split
    · exact Or.inl rfl
    · rename_i family hf
      split
      · exact Or.inl rfl
      · rename_i htomb
        split
        · exact Or.inl rfl
        · rename_i hlive
          simp only [FamilyRecord.holdsLiveAccess, Bool.not_eq_true', Bool.not_eq_false, Bool.and_eq_true,
            constantTimeEq_bytesOf] at hlive
          exact Or.inr ⟨file', family, rfl, hf, by simpa using htomb, hlive.2, rfl⟩

/-- No extension succeeds on a revoked family. -/
theorem extendAt_revoked {presented : String} {nowMs : Nat}
    (h : familyIsRevoked file auth.endpoint auth.familyId = true) :
    ∃ loss, (auth.extendAt file presented nowMs).1 = .error loss := by
  unfold extendAt
  cases file with
  | none => exact ⟨_, rfl⟩
  | some file =>
    simp only [familyIsRevoked] at h ⊢
    cases hf : file.family auth.endpoint auth.familyId with
    | none => exact ⟨_, rfl⟩
    | some family =>
      simp only [hf, Option.all_some] at h
      simp [h]

end WsAuth

/-! ## What a step of a connection does -/

namespace Connection

variable {C : Client.Codec} {decode : String → Except String ClientFrame} {v : Sight} {c c' : Connection} {move : Move}

/-- What the reader's calls leave alone. -/
structure Reads (c c' : Connection) : Prop where
  auth : c'.auth = c.auth
  writing : c'.writing = c.writing
  wire : c'.wire = c.wire
  input : c.bridge.input <:+ c.fed → c'.bridge.input <:+ c'.fed
  halt : c'.reading = false ∨ c'.reading = c.reading ∧ c'.lost = c.lost

theorem Reads.trans {c'' : Connection} (h : c.Reads c') (h' : c'.Reads c'') : c.Reads c'' := by
  refine ⟨h'.auth.trans h.auth, h'.writing.trans h.writing, h'.wire.trans h.wire, h'.input ∘ h.input, ?_⟩
  rcases h'.halt with hhalt | ⟨hreading, hlost⟩
  · exact Or.inl hhalt
  · rw [hreading, hlost]
    exact h.halt

theorem put_eq (c : Connection) (o : Output) : ∃ queue, c.put o = { c with queue } := by
  unfold put
  split <;> exact ⟨_, rfl⟩

theorem put_reads (c : Connection) (o : Output) : c.Reads (c.put o) := by
  obtain ⟨queue, hput⟩ := c.put_eq o
  rw [hput]
  exact ⟨rfl, rfl, rfl, id, Or.inr ⟨rfl, rfl⟩⟩

theorem announce_eq (c : Connection) (lost : Option AuthLoss) : ∃ queue, c.announce lost = { c with queue } := by
  cases lost with
  | none => exact ⟨c.queue, rfl⟩
  | some loss => exact c.put_eq _

theorem feed_eq (c : Connection) (cmd : Web.BridgeCmd) : ∃ bridge fed, c.feed cmd = { c with bridge, fed } ∧
    (c.bridge.input <:+ c.fed → bridge.input <:+ fed) := by
  unfold feed
  split
  · exact ⟨c.bridge, c.fed, rfl, id⟩
  · refine ⟨_, _, rfl, fun h => ?_⟩
    obtain ⟨taken, htaken⟩ := h
    exact ⟨taken, by simp [← htaken]⟩

theorem feed_reads (c : Connection) (cmd : Web.BridgeCmd) : c.Reads (c.feed cmd) := by
  obtain ⟨bridge, fed, hfeed, hinput⟩ := c.feed_eq cmd
  rw [hfeed]
  exact ⟨rfl, rfl, rfl, hinput, Or.inr ⟨rfl, rfl⟩⟩

/-- The reader has gone, and why is known. -/
theorem stop_eq (c : Connection) (lost : Option AuthLoss) :
    ∃ bridge queue fed, c.stop lost = { c with lost, reading := false, bridge, queue, fed } ∧
      (c.bridge.input <:+ c.fed → bridge.input <:+ fed) := by
  obtain ⟨queue, hqueue⟩ := announce_eq { c with lost, reading := false } lost
  obtain ⟨bridge, fed, hfeed, hinput⟩ := feed_eq { c with lost, reading := false, queue } .shutdown
  exact ⟨{ bridge with inputClosed := true }, queue, fed, by rw [stop, hqueue, hfeed], hinput⟩

theorem stop_reads (c : Connection) (lost : Option AuthLoss) : c.Reads (c.stop lost) := by
  obtain ⟨bridge, queue, fed, hstop, hinput⟩ := c.stop_eq lost
  rw [hstop]
  exact ⟨rfl, rfl, rfl, hinput, Or.inl rfl⟩

theorem stop_lost (c : Connection) (lost : Option AuthLoss) : (c.stop lost).lost = lost := by
  obtain ⟨bridge, queue, fed, hstop, -⟩ := c.stop_eq lost
  rw [hstop]

theorem command_reads (c : Connection) (cmd : Web.BridgeCmd) : c.Reads (c.command cmd) := by
  unfold command
  split
  · exact c.stop_reads none
  · exact c.feed_reads cmd

theorem reply_reads (c : Connection) (o : Output) : c.Reads (c.reply o) := by
  unfold reply
  split
  · exact c.put_reads o
  · exact c.stop_reads none

theorem extend_reads (c : Connection) (file : Option AuthFile) (nowMs requestId : Nat) (accessToken : String) :
    Reads { c with auth := (c.auth.extendAt file accessToken nowMs).2 } (c.extend file nowMs requestId accessToken) := by
  unfold extend
  generalize c.auth.extendAt file accessToken nowMs = extended
  obtain ⟨result, auth⟩ := extended
  dsimp only
  split
  · exact stop_reads _ none
  · cases result with
    | ok expiresAtMs => exact put_reads _ _
    | error loss => exact (put_reads _ _).trans (stop_reads _ _)

theorem poll_reads (c : Connection) (file : Option AuthFile) (instantMs sent : Nat) (timerFirst : Bool) :
    Reads { c with auth := (c.auth.lost file instantMs sent timerFirst).2 } (c.poll file instantMs sent timerFirst) := by
  unfold poll
  generalize c.auth.lost file instantMs sent timerFirst = lost
  obtain ⟨loss, auth⟩ := lost
  cases loss with
  | none => exact ⟨rfl, rfl, rfl, id, Or.inr ⟨rfl, rfl⟩⟩
  | some loss => exact stop_reads _ _

/-- The authentication changes with an `auth.extend` only. -/
theorem receive_reads (decode : String → Except String ClientFrame) (c : Connection) (file : Option AuthFile)
    (nowMs : Nat) (incoming : Incoming) :
    ∃ auth, Reads { c with auth } (c.receive decode file nowMs incoming) ∧ (auth = c.auth ∨
      ∃ presented, incoming.extension decode = some presented ∧ auth = (c.auth.extendAt file presented nowMs).2) := by
  cases incoming with
  | failed | ended => exact ⟨c.auth, c.stop_reads none, Or.inl rfl⟩
  | message message =>
    cases message with
    | close => exact ⟨c.auth, c.stop_reads none, Or.inl rfl⟩
    | ping | pong => exact ⟨c.auth, ⟨rfl, rfl, rfl, id, Or.inr ⟨rfl, rfl⟩⟩, Or.inl rfl⟩
    | binary bytes => exact ⟨c.auth, c.command_reads _, Or.inl rfl⟩
    | text text =>
      simp only [receive, Incoming.extension]
      cases decode text with
      | error e => exact ⟨c.auth, c.reply_reads _, Or.inl rfl⟩
      | ok frame =>
        cases frame with
        | resize | leaderRequest => exact ⟨c.auth, c.command_reads _, Or.inl rfl⟩
        | authExtend requestId presented =>
          exact ⟨_, c.extend_reads file nowMs requestId presented, Or.inr ⟨presented, rfl, rfl⟩⟩

theorem output_eq (c : Connection) (act : Web.Act) : ∃ queue, c.output act = { c with queue } := by
  cases act with
  | output o => exact c.put_eq _
  | _ => exact ⟨c.queue, rfl⟩

theorem foldl_output_eq (acts : List Web.Act) (c : Connection) :
    ∃ queue, acts.foldl output c = { c with queue } := by
  induction acts generalizing c with
  | nil => exact ⟨c.queue, rfl⟩
  | cons act acts ih =>
    obtain ⟨queue, hqueue⟩ := c.output_eq act
    obtain ⟨queue', hqueue'⟩ := ih (c.output act)
    exact ⟨queue', by rw [List.foldl_cons, hqueue', hqueue]⟩

/-- A step of the bridge takes from the front of its queue, and adds to the writer's. -/
theorem onBridge_some {e : Web.Bridge.Event} (h : c.onBridge C e = some c') :
    ∃ bridge queue, c' = { c with bridge, queue } ∧ bridge.input <:+ c.bridge.input := by
  have hstep : ∃ bridge, c.bridge.step C e = some bridge ∧
      c' = (bridge.log.drop c.bridge.log.length).foldl output { c with bridge } ∧ ∀ cmd, e ≠ .browser cmd := by
    cases e with
    | browser | readerGone | writerGone => cases h
    | poll | ackWait | control | receive =>
      simp only [onBridge, Option.map_eq_some_iff] at h
      obtain ⟨bridge, hbridge, rfl⟩ := h
      exact ⟨bridge, hbridge, rfl, fun cmd he => by cases he⟩
  obtain ⟨bridge, hbridge, rfl, he⟩ := hstep
  obtain ⟨queue, hqueue⟩ := foldl_output_eq (bridge.log.drop c.bridge.log.length) { c with bridge }
  exact ⟨bridge, queue, hqueue, Web.Bridge.step_input hbridge he⟩

/-- What the writer hands to the socket: after a close it has gone. -/
theorem write_some {ok : Bool} (h : c.write ok = some c') :
    ∃ queue sent, (c' = { c with queue }.hand sent ∧ ∃ o, sent = [.message o]) ∨
      c' = ({ c with queue }.hand sent).closeWriter ∧
        ∀ pre frame suf, sent = pre ++ .close frame :: suf → suf = [] := by
  unfold write at h
  split at h
  · refine ⟨_, _, Or.inr ⟨(Option.some.inj h).symm, ?_⟩⟩
    intro pre frame suf hsent
    cases pre <;> simp_all
  · split at h
    · exact ⟨_, _, Or.inl ⟨(Option.some.inj h).symm, _, rfl⟩⟩
    · refine ⟨_, _, Or.inr ⟨(Option.some.inj h).symm, ?_⟩⟩
      intro pre frame suf hsent
      rcases pre with _ | ⟨_, _ | _⟩ <;> simp_all
  · split at h
    · cases h
    · refine ⟨c.queue, _, Or.inr ⟨(Option.some.inj h).symm, ?_⟩⟩
      intro pre frame suf hsent
      cases pre <;> simp_all

/-- A poll that is ready leaves the loss behind. -/
theorem poll_lost {file : Option AuthFile} {instantMs sent : Nat} {timerFirst : Bool} {loss : AuthLoss}
    (h : (c.auth.lost file instantMs sent timerFirst).1 = some loss) :
    (c.poll file instantMs sent timerFirst).lost = some loss := by
  unfold poll
  generalize c.auth.lost file instantMs sent timerFirst = lost at h
  obtain ⟨loss', auth⟩ := lost
  subst h
  exact stop_lost _ _

/-- What a step does to the authentication of a connection. -/
inductive Turned (decode : String → Except String ClientFrame) (v : Sight) (auth : WsAuth) : Move → WsAuth → Prop
  | same {m : Move} : Turned decode v auth m auth
  | seen {readable timerFirst} : Turned decode v auth (.poll readable timerFirst) { auth with seen := some v.sent }
  | extended {readable nowMs incoming presented family} :
      Incoming.extension decode incoming = some presented →
      v.file.family auth.endpoint auth.familyId = some family → family.isTombstoned = false →
      family.access.value = presented →
      Turned decode v auth (.receive readable nowMs incoming) { auth with expiresAtMs := family.access.expiresAtMs }

theorem Turned.same_family {auth auth' : WsAuth} (h : Turned decode v auth move auth') :
    auth'.endpoint = auth.endpoint ∧ auth'.familyId = auth.familyId ∧ auth'.anchor = auth.anchor := by
  cases h <;> exact ⟨rfl, rfl, rfl⟩

theorem step_turned (h : c.step C decode v move = some c') : Turned decode v c.auth move c'.auth := by
  cases move with
  | poll readable timerFirst =>
    simp only [step, Option.ite_none_right_eq_some, Option.some.injEq] at h
    rw [← h.2, (poll_reads ..).auth]
    rcases c.auth.lost_auth (if readable then some v.file else none) v.instantMs v.sent timerFirst with he | he
    · rw [he]
      exact .same
    · rw [he]
      exact .seen
  | receive readable nowMs incoming =>
    simp only [step, Option.ite_none_right_eq_some, Option.some.injEq] at h
    obtain ⟨auth, hreads, hauth⟩ := receive_reads decode c (if readable then some v.file else none) nowMs incoming
    rw [← h.2, hreads.auth]
    rcases hauth with rfl | ⟨presented, hpresented, rfl⟩
    · exact .same
    · rcases c.auth.extendAt_auth (if readable then some v.file else none) presented nowMs with
        he | ⟨file, family, hfile, hf, htomb, hvalue, he⟩
      · rw [he]
        exact .same
      · rw [he]
        simp only [Option.ite_none_right_eq_some, Option.some.injEq] at hfile
        rw [← hfile.2] at hf
        exact .extended hpresented hf htomb hvalue
  | bridge e =>
    obtain ⟨bridge, queue, rfl, -⟩ := onBridge_some h
    exact .same
  | abort =>
    simp only [step, Option.ite_none_right_eq_some, Option.some.injEq] at h
    rw [← h.2]
    exact .same
  | write ok =>
    simp only [step, Option.ite_none_right_eq_some] at h
    obtain ⟨queue, sent, ⟨rfl, -⟩ | ⟨rfl, -⟩⟩ := write_some h.2 <;> exact .same
  | timeout =>
    simp only [step, Option.ite_none_right_eq_some, Option.some.injEq] at h
    rw [← h.2]
    exact .same

/-- The bridge takes from what it was fed, and nothing follows a close frame. -/
structure Fit (c : Connection) : Prop where
  input : c.bridge.input <:+ c.fed
  wire : ∀ pre frame suf, c.wire = pre ++ .close frame :: suf → suf = [] ∧ c.writing = false
  ended : c.lost ≠ none → c.reading = false

theorem Fit.start (G : Web.Gateway) (response : HandshakeResponse) (auth : WsAuth) : (start G response auth).Fit := by
  refine ⟨List.suffix_refl _, fun pre frame suf h => ?_, fun h => absurd rfl h⟩
  cases pre <;> cases h

theorem Fit.reads (h : c.Fit) {auth : WsAuth} (hr : Reads { c with auth } c') : c'.Fit := by
  refine ⟨hr.input h.input, ?_, fun hlost => ?_⟩
  · rw [hr.wire, hr.writing]
    exact h.wire
  · rcases hr.halt with hhalt | ⟨hreading, hsame⟩
    · exact hhalt
    · rw [hreading]
      exact h.ended (hsame ▸ hlost)

theorem Fit.write (h : c.Fit) (hwriting : c.writing = true) {ok : Bool} (hw : c.write ok = some c') : c'.Fit := by
  have hopen : ∀ frame, .close frame ∉ c.wire := by
    intro frame hmem
    obtain ⟨pre, suf, hsplit⟩ := List.append_of_mem hmem
    rw [(h.wire _ _ _ hsplit).2] at hwriting
    cases hwriting
  -- A close frame on the wire is one the writer has just sent.
  have hnew : ∀ {sent pre frame suf}, c.wire ++ sent = pre ++ .close frame :: suf →
      ∃ pre', sent = pre' ++ .close frame :: suf := by
    intro sent pre frame suf hsplit
    rcases List.append_eq_append_iff.1 hsplit with ⟨pre', -, hsent⟩ | ⟨rest, hwire, hrest⟩
    · exact ⟨pre', hsent⟩
    · cases rest with
      | nil => exact ⟨[], hrest.symm⟩
      | cons x rest =>
        simp only [List.cons_append, List.cons.injEq] at hrest
        exact absurd (by rw [hwire, ← hrest.1]; simp) (hopen frame)
  obtain ⟨queue, sent, ⟨rfl, o, rfl⟩ | ⟨rfl, hlast⟩⟩ := write_some hw
  · refine ⟨h.input, fun pre frame suf hsplit => ?_, h.ended⟩
    obtain ⟨pre', hpre'⟩ := hnew hsplit
    rcases pre' with _ | ⟨_, _ | _⟩ <;> simp at hpre'
  · refine ⟨h.input, fun pre frame suf hsplit => ?_, h.ended⟩
    obtain ⟨pre', hpre'⟩ := hnew hsplit
    exact ⟨hlast _ _ _ hpre', rfl⟩

theorem Fit.step (h : c.Fit) (hs : c.step C decode v move = some c') : c'.Fit := by
  cases move with
  | poll readable timerFirst =>
    simp only [Connection.step, Option.ite_none_right_eq_some, Option.some.injEq] at hs
    rw [← hs.2]
    exact h.reads (poll_reads ..)
  | receive readable nowMs incoming =>
    simp only [Connection.step, Option.ite_none_right_eq_some, Option.some.injEq] at hs
    obtain ⟨auth, hreads, -⟩ := receive_reads decode c (if readable then some v.file else none) nowMs incoming
    rw [← hs.2]
    exact h.reads hreads
  | bridge e =>
    obtain ⟨bridge, queue, rfl, hinput⟩ := onBridge_some hs
    exact ⟨hinput.trans h.input, h.wire, h.ended⟩
  | abort =>
    simp only [Connection.step, Option.ite_none_right_eq_some, Option.some.injEq] at hs
    rw [← hs.2]
    exact ⟨h.input, h.wire, fun _ => rfl⟩
  | write ok =>
    simp only [Connection.step, Option.ite_none_right_eq_some] at hs
    exact h.write hs.1 hs.2
  | timeout =>
    simp only [Connection.step, Option.ite_none_right_eq_some, Option.some.injEq] at hs
    rw [← hs.2]
    exact ⟨h.input, fun pre frame suf hsplit => ⟨(h.wire _ _ _ hsplit).1, rfl⟩, h.ended⟩

/-- Once the reader has gone, nothing more is fed to the bridge. -/
theorem step_halted (hs : c.step C decode v move = some c') (h : c.reading = false) :
    c'.reading = false ∧ c'.lost = c.lost ∧ c'.fed = c.fed := by
  cases move with
  | poll | receive | abort => simp [Connection.step, h] at hs
  | bridge e =>
    obtain ⟨bridge, queue, rfl, -⟩ := onBridge_some hs
    exact ⟨h, rfl, rfl⟩
  | write ok =>
    simp only [Connection.step, Option.ite_none_right_eq_some] at hs
    obtain ⟨queue, sent, ⟨rfl, -⟩ | ⟨rfl, -⟩⟩ := write_some hs.2 <;> exact ⟨h, rfl, rfl⟩
  | timeout =>
    simp only [Connection.step, Option.ite_none_right_eq_some, Option.some.injEq] at hs
    rw [← hs.2]
    exact ⟨h, rfl, rfl⟩

end Connection

end Hyoui.Auth
