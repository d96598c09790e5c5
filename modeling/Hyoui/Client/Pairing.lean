import Hyoui.Client.Exchange
/-!
# Acks and frames on one connection

An ack carries no number: that the k-th `send_raw_bytes` reports the k-th ack rests on reading the
socket frame by frame, on setting every other frame aside in order, and on giving the connection up
when an ack may still be under way. `Paired` is what follows from that; it holds as long as no read
fails in the middle of a frame (`acks_pair_with_sends`).
-/

namespace Hyoui.Client

open Hyoui.Lib Hyoui.Protocol

/-! ## What a run shows -/

/-- An answer by the daemon: success or a refusal. -/
def isAnswer : Except Error Unit → Bool
  | .ok _ => true
  | .error e => e.isRemote

namespace Call

/-- The result of a `send_raw_bytes` that put its frame on the wire. -/
def answer : Call → Option (Except Error Unit)
  | .sendRawBytes _ true result => some result
  | _ => none

/-- A `send_raw_bytes` that failed, but was not refused. -/
def failed : Call → Bool
  | .sendRawBytes _ _ result => !isAnswer result
  | _ => false

def put : Call → Bool
  | .sendRawBytes _ put _ | .sendControl _ put _ => put
  | .recvFrame _ => false

def received : Call → Option Frame
  | .recvFrame (.ok frame) => some frame
  | _ => none

end Call

namespace Exchange

/-- What the calls that sent a `raw_data` frame reported. -/
def answers (x : Exchange) : List (Except Error Unit) := x.calls.filterMap Call.answer

/-- What `recv_frame` returned. -/
def received (x : Exchange) : List Frame := x.calls.filterMap Call.received

/-- The whole frames that are still to be read. -/
def unread (x : Exchange) : List Frame := (decodeStream x.inbox).1

structure Paired (C : Codec) (x : Exchange) : Prop where
  /-- The k-th send that is answered reports the k-th ack. -/
  answered : ∀ (k : Nat) (result : Except Error Unit), x.answers[k]? = some result → isAnswer result →
    ∃ ack, x.acks[k]? = some ack ∧ result = ackOutcome ack
  /-- Of the acks, exactly those have been read. -/
  consumed : x.conn.poisoned = false →
    (x.unread.filter Frame.isRawAck).map (C.decodeAck ·.body) = (x.acks.drop x.answers.length).map some
  /-- Every other frame has been returned, is set aside, or is still to be read, in the order it came.
  Frames are lost only when the connection is given up, and then the last ones. -/
  returned : ∃ lost, x.others =
    (x.received ++ x.conn.pendingFrames ++ x.unread).filter (!Frame.isRawAck ·) ++ lost ∧
      (x.conn.poisoned = false → lost = [])
  /-- `recv_frame` returns no ack while the connection is good. -/
  own : x.conn.poisoned = false → ∀ f ∈ x.received ++ x.conn.pendingFrames, f.isRawAck = false
  /-- After a send that failed and was not refused, nothing is put on the wire. -/
  silent : x.calls.Pairwise (fun a b => a.failed → b.put = false) ∧
    (x.awaiting.isSome → ∀ c ∈ x.calls, c.failed = false)

end Exchange

/-- No read of the socket fails in the middle of a frame. -/
def Whole (_ : Exchange) : Move → Prop
  | .awaitRead (.fails _ consumed) | .recvFrame (.fails _ consumed) => consumed = 0
  | _ => True

instance (x : Exchange) : DecidablePred (Whole x) := fun m => by
  unfold Whole
  split <;> infer_instance

/-! ## A read that is cut -/

def ackCodec : Codec where
  encode _ := none
  decode _ := none
  decodeAck body := if body = RawAck.ok.cbor then some .ok else none

/-- Output of the child whose bytes are those of an ack frame. -/
def ackLookalike : Frame := .rawData (toLeBytes (RawAck.ok.cbor.length + 1) ++ typeRawAck :: RawAck.ok.cbor)

def plainResponse : HandshakeResponse :=
  { caps := [], sessionId := "s", clientId := 1, leader := false, mode := .rw, childStopped := false }

/-- A read timeout is set, as the gateway does for a resize, and `recv_frame` times out after the header
of a frame. -/
def cutRead : List Move := [
  .setReadTimeout (some 5000), .daemonSends ackLookalike,
  .recvFrame (.fails { kind := .timedOut, message := "Resource temporarily unavailable" } 5), .setReadTimeout none,
  .sendRawBytes [0x61] (.ok ()), .awaitRead .complete]

/-- The send after that reports the success of an ack that the daemon never sent, and the frame that
was cut is never returned. -/
theorem cut_read_forges_an_ack : ∃ x, (exchange ackCodec false).Reachable x ∧ ¬ x.Paired ackCodec := by
  have hinit : (exchange ackCodec false).Reachable { conn := { response := plainResponse } } := .init ⟨_, _, rfl⟩
  obtain ⟨x, hx, hans, hacks⟩ := hinit.exists_run cutRead
    (p := fun x => x.answers[0]?.any isAnswer ∧ x.acks = []) (by decide +kernel)
  refine ⟨x, hx, fun hp => ?_⟩
  obtain ⟨result, hr, hok⟩ := (Option.any_eq_true _ _).1 hans
  obtain ⟨ack, hack, -⟩ := hp.answered 0 result hr hok
  rw [hacks] at hack
  cases hack

/-! ## The bytes on the socket -/

def wire (f : Frame) : Bytes := toLeBytes (f.body.length + 1) ++ f.ty :: f.body

theorem encodeTo_ok {f : Frame} {bytes : Bytes} (h : f.encodeTo = .ok bytes) : f.Fits ∧ bytes = wire f := by
  have hfits : f.Fits := by
    simp only [Frame.encodeTo] at h
    split at h
    · cases h
    · split at h
      · cases h
      · unfold Frame.Fits
        omega
  rw [Frame.encodeTo_fits hfits] at h
  cases h
  exact ⟨hfits, rfl⟩

theorem decodeFrom_wire {f : Frame} (hk : f.Known) (hf : f.Fits) (ys : Bytes) :
    Frame.decodeFrom (wire f ++ ys) = .ok (f, ys) := by
  have hspec := decodeFrom_spec (wire f ++ ys)
  rw [wire, frameLook_encode hk hf] at hspec
  rw [wire, hspec]
  simp [toLeBytes]

/-- The socket carries these whole frames, and a part of one more only after the daemon closed. -/
def Carries (inbox : Bytes) (peerOpen : Bool) (frames : List Frame) : Prop :=
  (∀ f ∈ frames, f.Known ∧ f.Fits) ∧
    ∃ part, inbox = frames.flatMap wire ++ part ∧ frameLook part = .more ∧ (peerOpen → part = [])

namespace Carries

variable {inbox inbox' : Bytes} {peerOpen : Bool} {frames : List Frame}

theorem nil (peerOpen : Bool) : Carries [] peerOpen [] := ⟨by simp, [], rfl, rfl, fun _ => rfl⟩

theorem decoded (h : Carries inbox peerOpen frames) : (decodeStream inbox).1 = frames := by
  obtain ⟨hfit, part, rfl, hmore, -⟩ := h
  induction frames with
  | nil => rw [List.flatMap_nil, List.nil_append, decodeStream_eq_drain, frameScanner.drain_more hmore]
  | cons f frames ih =>
    obtain ⟨hk, hf⟩ := hfit f List.mem_cons_self
    rw [List.flatMap_cons, List.append_assoc, wire, decodeStream_encode_append hk hf]
    simp only [ih fun g hg => hfit g (List.mem_cons_of_mem _ hg)]

theorem push (h : Carries inbox true frames) {f : Frame} (hk : f.Known) (hf : f.Fits) :
    Carries (inbox ++ wire f) true (frames ++ [f]) := by
  obtain ⟨hfit, part, rfl, -, hpart⟩ := h
  obtain rfl := hpart rfl
  refine ⟨?_, [], by simp, rfl, fun _ => rfl⟩
  intro g hg
  rcases List.mem_append.1 hg with hg | hg
  · exact hfit g hg
  · obtain rfl := List.mem_singleton.1 hg
    exact ⟨hk, hf⟩

theorem close (h : Carries inbox true frames) {part : Bytes} (hmore : frameLook part = .more) :
    Carries (inbox ++ part) false frames := by
  obtain ⟨hfit, part', rfl, -, hpart⟩ := h
  obtain rfl := hpart rfl
  exact ⟨hfit, part, by simp, hmore, by simp⟩

/-- A read that is not cut takes the first frame or leaves all of them. -/
theorem read (h : Carries inbox peerOpen frames) {timed closed : Bool} {r : Reading}
    {result : Except FrameError Frame} (hr : ∀ e consumed, r = .fails e consumed → consumed = 0)
    (hread : socketRead timed closed inbox r = some (result, inbox')) :
    (∃ f rest, frames = f :: rest ∧ result = .ok f ∧ Carries inbox' peerOpen rest) ∨
      (∃ e, result = .error e) ∧ Carries inbox' peerOpen frames := by
  cases r with
  | fails e consumed =>
    obtain rfl := hr e consumed rfl
    simp only [socketRead, Option.ite_none_right_eq_some, Option.some.injEq, Prod.mk.injEq] at hread
    obtain ⟨-, rfl, rfl⟩ := hread
    exact .inr ⟨⟨_, rfl⟩, h⟩
  | complete =>
    obtain ⟨hfit, part, rfl, hmore, hpart⟩ := h
    cases frames with
    | nil =>
      have hspec := decodeFrom_spec part
      rw [hmore] at hspec
      obtain ⟨what, hspec⟩ := hspec
      simp only [socketRead, List.flatMap_nil, List.nil_append, hspec, Option.ite_none_right_eq_some,
        Option.some.injEq, Prod.mk.injEq] at hread
      obtain ⟨-, rfl, rfl⟩ := hread
      exact .inr ⟨⟨_, rfl⟩, .nil peerOpen⟩
    | cons f rest =>
      obtain ⟨hk, hf⟩ := hfit f List.mem_cons_self
      rw [List.flatMap_cons, List.append_assoc] at hread
      simp only [socketRead, decodeFrom_wire hk hf, Option.some.injEq, Prod.mk.injEq] at hread
      obtain ⟨rfl, rfl⟩ := hread
      exact .inl ⟨f, rest, rfl, rfl, fun g hg => hfit g (List.mem_cons_of_mem _ hg), part, rfl, hmore, hpart⟩

end Carries

/-! ## What every step keeps -/

namespace Exchange

@[simp] theorem filterMap_answer (c : Call) : [c].filterMap Call.answer = c.answer.toList := by
  cases h : c.answer <;> simp [h]

@[simp] theorem filterMap_received (c : Call) : [c].filterMap Call.received = c.received.toList := by
  cases h : c.received <;> simp [h]

/-- `frames` are on the socket; `lost` were there when the connection was given up. -/
structure Flow (C : Codec) (x : Exchange) (frames lost : List Frame) : Prop where
  carries : Carries x.inbox x.peerOpen frames
  others : x.others = (x.received ++ x.conn.pendingFrames ++ frames).filter (!Frame.isRawAck ·) ++ lost
  kept : x.conn.poisoned = false → lost = []
  own : x.conn.poisoned = false → ∀ f ∈ x.received ++ x.conn.pendingFrames, f.isRawAck = false
  consumed : x.conn.poisoned = false →
    (frames.filter Frame.isRawAck).map (C.decodeAck ·.body) = (x.acks.drop x.answers.length).map some
  sent : x.conn.poisoned = false → x.written.countP Frame.isRawData = x.answers.length + x.awaiting.toList.length
  within : x.conn.poisoned = false → x.answers.length ≤ x.acks.length
  owed : x.acks.length ≤ x.written.countP Frame.isRawData
  answered : ∀ (k : Nat) (result : Except Error Unit), x.answers[k]? = some result → isAnswer result →
    ∃ ack, x.acks[k]? = some ack ∧ result = ackOutcome ack
  idle : x.conn.poisoned = true → x.awaiting = none
  failed : ∀ c ∈ x.calls, c.failed = true → x.conn.poisoned = true
  silent : x.calls.Pairwise fun a b => a.failed → b.put = false

namespace Flow

variable {C : Codec} {discards : Bool} {x : Exchange} {frames lost : List Frame}

theorem paired (h : x.Flow C frames lost) : x.Paired C where
  answered := h.answered
  consumed := by simpa only [unread, h.carries.decoded] using h.consumed
  returned := ⟨lost, by simpa only [unread, h.carries.decoded] using h.others, h.kept⟩
  own := h.own
  silent := by
    refine ⟨h.silent, fun hw c hc => ?_⟩
    cases hf : c.failed with
    | false => rfl
    | true =>
      rw [h.idle (h.failed c hc hf)] at hw
      cases hw

theorem start (response : HandshakeResponse) (readDeadline : Option Nat) :
    ({ conn := { response, readDeadline } } : Exchange).Flow C [] [] where
  carries := .nil true
  others := by simp [received]
  kept := fun _ => rfl
  own := by simp [received]
  consumed := by simp
  sent := by simp [answers]
  within := by simp [answers]
  owed := by simp
  answered := by simp [answers]
  idle := fun _ => rfl
  failed := by simp
  silent := .nil

/-- A call that put nothing on the wire after the connection was given up. -/
theorem silent_concat (h : x.Flow C frames lost) {call : Call} (hput : x.conn.poisoned = true → call.put = false) :
    (x.calls ++ [call]).Pairwise fun a b => a.failed → b.put = false := by
  rw [List.pairwise_append]
  refine ⟨h.silent, List.pairwise_singleton _ _, fun a ha b hb hf => ?_⟩
  obtain rfl := List.mem_singleton.1 hb
  exact hput (h.failed a ha hf)

theorem failed_concat (h : x.Flow C frames lost) {call : Call} {poisoned : Bool}
    (hx : x.conn.poisoned = true → poisoned = true) (hf : call.failed = true → poisoned = true) :
    ∀ c ∈ x.calls ++ [call], c.failed = true → poisoned = true := by
  intro c hc hfail
  rcases List.mem_append.1 hc with hc | hc
  · exact hx (h.failed c hc hfail)
  · obtain rfl := List.mem_singleton.1 hc
    exact hf hfail

/-- A call that is no answered send and receives no frame. -/
theorem plain (h : x.Flow C frames lost) {call : Call} {written : List Frame} (hans : call.answer = none)
    (hrec : call.received = none) (hf : call.failed = true → x.conn.poisoned = true)
    (hput : x.conn.poisoned = true → call.put = false)
    (hw : written.countP Frame.isRawData = x.written.countP Frame.isRawData) :
    ({ x with written }.returned call).Flow C frames lost where
  carries := h.carries
  others := by simpa [received, Exchange.returned, hrec] using h.others
  kept := h.kept
  own := by simpa [received, Exchange.returned, hrec] using h.own
  consumed := by simpa [answers, Exchange.returned, hans] using h.consumed
  sent := by simpa [answers, Exchange.returned, hans, hw] using h.sent
  within := by simpa [answers, Exchange.returned, hans] using h.within
  owed := by simpa [Exchange.returned, hw] using h.owed
  answered := by simpa [answers, Exchange.returned, hans] using h.answered
  idle := h.idle
  failed := h.failed_concat id hf
  silent := h.silent_concat hput

/-- A send fails and the connection is given up. -/
theorem giveUp (h : x.Flow C frames lost) (discards : Bool) {call : Call} (hrec : call.received = none)
    (hans : ∀ r, call.answer = some r → isAnswer r = false) (hput : x.conn.poisoned = true → call.put = false) :
    ∃ frames lost, (({ x with awaiting := none }.withConn discards x.conn.poison).returned call).Flow C frames lost := by
  have hanswered : ∀ (k : Nat) (result : Except Error Unit),
      (x.answers ++ call.answer.toList)[k]? = some result → isAnswer result →
      ∃ ack, x.acks[k]? = some ack ∧ result = ackOutcome ack := by
    intro k result hk hr
    rcases Nat.lt_or_ge k x.answers.length with hlt | hge
    · rw [List.getElem?_append_left hlt] at hk
      exact h.answered k result hk hr
    · rw [List.getElem?_append_right hge] at hk
      rw [hans result (Option.mem_toList.1 (List.mem_of_getElem? hk))] at hr
      cases hr
  by_cases hd : (discards && !x.conn.poisoned) = true
  · refine ⟨[], frames.filter (!Frame.isRawAck ·) ++ lost, ?_⟩
    refine ⟨?_, ?_, nofun, nofun, nofun, nofun, nofun, h.owed, ?_, fun _ => rfl, ?_, ?_⟩
    · simp only [Exchange.returned, withConn, ClientConnection.poison_poisoned, Bool.and_true]
      rw [if_pos hd]
      exact .nil x.peerOpen
    · simpa [Exchange.returned, withConn, received, hrec] using h.others
    · simpa [answers, Exchange.returned, withConn] using hanswered
    · exact h.failed_concat (fun _ => rfl) fun _ => rfl
    · exact h.silent_concat hput
  · refine ⟨frames, lost, ?_⟩
    refine ⟨?_, ?_, nofun, nofun, nofun, nofun, nofun, h.owed, ?_, fun _ => rfl, ?_, ?_⟩
    · simp only [Exchange.returned, withConn, ClientConnection.poison_poisoned, Bool.and_true]
      rw [if_neg hd]
      exact h.carries
    · simpa [Exchange.returned, withConn, received, hrec] using h.others
    · simpa [answers, Exchange.returned, withConn] using hanswered
    · exact h.failed_concat (fun _ => rfl) fun _ => rfl
    · exact h.silent_concat hput

/-- A frame that is no ack is read while the ack is awaited. -/
theorem setAside {f : Frame} {rest : List Frame} {inbox : Bytes} (h : x.Flow C (f :: rest) lost)
    (hp : x.conn.poisoned = false) (hc : Carries inbox x.peerOpen rest) (hf : f.isRawAck = false) :
    ({ x with inbox, conn.pendingFrames := x.conn.pendingFrames ++ [f] } : Exchange).Flow C rest lost where
  carries := hc
  others := by simpa [received] using h.others
  kept := h.kept
  own := by
    intro _ g hg
    rcases List.mem_append.1 hg with hg | hg
    · exact h.own hp g (List.mem_append_left _ hg)
    · rcases List.mem_append.1 hg with hg | hg
      · exact h.own hp g (List.mem_append_right _ hg)
      · obtain rfl := List.mem_singleton.1 hg
        exact hf
  consumed := by simpa [answers, hf] using h.consumed
  sent := h.sent
  within := h.within
  owed := h.owed
  answered := h.answered
  idle := h.idle
  failed := h.failed
  silent := h.silent

/-- The ack at the front of the socket is the next one the daemon sent. -/
theorem nextAck {f : Frame} {rest : List Frame} (h : x.Flow C (f :: rest) lost) (hp : x.conn.poisoned = false)
    (hf : f.isRawAck = true) :
    ∃ ack, C.decodeAck f.body = some ack ∧ x.acks[x.answers.length]? = some ack ∧
      (rest.filter Frame.isRawAck).map (C.decodeAck ·.body) = (x.acks.drop (x.answers.length + 1)).map some := by
  have hc := h.consumed hp
  rw [List.filter_cons_of_pos hf, List.map_cons] at hc
  cases hd : x.acks.drop x.answers.length with
  | nil =>
    rw [hd] at hc
    cases hc
  | cons ack acks =>
    rw [hd, List.map_cons, List.cons.injEq] at hc
    refine ⟨ack, hc.1, ?_, ?_⟩
    · rw [← List.head?_drop, hd, List.head?_cons]
    · rw [hc.2, ← List.drop_drop, hd, List.drop_one, List.tail_cons]

/-- The ack of the send that waits is read. -/
theorem acked {f : Frame} {rest : List Frame} {inbox bytes : Bytes} {ack : RawAck} (h : x.Flow C (f :: rest) lost)
    (hw : x.awaiting = some bytes) (hc : Carries inbox x.peerOpen rest) (hf : f.isRawAck = true)
    (hack : C.decodeAck f.body = some ack) :
    (({ x with inbox, awaiting := none } : Exchange).returned (.sendRawBytes bytes true (ackOutcome ack))).Flow C rest
      lost := by
  have hp : x.conn.poisoned = false := by
    cases hp : x.conn.poisoned with
    | false => rfl
    | true =>
      rw [h.idle hp] at hw
      cases hw
  obtain ⟨ack', hdec, hk, hrest⟩ := h.nextAck hp hf
  obtain rfl : ack = ack' := Option.some.inj (hack.symm.trans hdec)
  have hok : isAnswer (ackOutcome ack) = true := by
    cases hr : ack.result <;> simp [ackOutcome, hr, isAnswer, Error.isRemote]
  have hgood : (Call.sendRawBytes bytes true (ackOutcome ack)).failed = false := by simp [Call.failed, hok]
  refine ⟨hc, ?_, h.kept, ?_, fun _ => ?_, fun _ => ?_, fun _ => ?_, h.owed, ?_, fun _ => rfl, ?_, ?_⟩
  · have hothers := h.others
    rw [List.append_cons] at hothers
    simpa [received, Exchange.returned, Call.received, hf] using hothers
  · simpa [received, Exchange.returned, Call.received] using h.own
  · simpa [answers, Exchange.returned, Call.answer] using hrest
  · have := h.sent hp
    simpa [answers, Exchange.returned, Call.answer, hw] using this
  · simpa [answers, Exchange.returned, Call.answer] using (List.getElem?_eq_some_iff.1 hk).1
  · intro k result hres hr
    simp only [answers, Exchange.returned, List.filterMap_append, filterMap_answer, Call.answer,
      Option.toList_some] at hres
    rcases Nat.lt_or_ge k (x.calls.filterMap Call.answer).length with hlt | hge
    · rw [List.getElem?_append_left hlt] at hres
      exact h.answered k result hres hr
    · rw [List.getElem?_append_right hge, List.getElem?_singleton] at hres
      split at hres
      · cases hres
        exact ⟨ack, by rw [show k = x.answers.length by simp only [answers]; omega]; exact hk, rfl⟩
      · cases hres
  · refine h.failed_concat id fun hfail => ?_
    rw [hgood] at hfail
    cases hfail
  · refine h.silent_concat fun hpt => ?_
    rw [hp] at hpt
    cases hpt

/-- No ack is under way while no send waits. -/
theorem noAcks (h : x.Flow C frames lost) (hp : x.conn.poisoned = false) (hw : x.awaiting = none) :
    ∀ f ∈ frames, f.isRawAck = false := by
  have hsent := h.sent hp
  rw [hw, Option.toList_none, List.length_nil, Nat.add_zero] at hsent
  have hnone : frames.filter Frame.isRawAck = [] := by
    have hc := h.consumed hp
    rw [List.drop_eq_nil_of_le (by have := h.owed; omega), List.map_nil] at hc
    exact List.map_eq_nil_iff.1 hc
  intro f hf
  simpa using List.filter_eq_nil_iff.1 hnone f hf

/-- `recv_frame` returns a frame that was set aside. -/
theorem pop {f : Frame} {rest : List Frame} (h : x.Flow C frames lost) (hpend : x.conn.pendingFrames = f :: rest) :
    (({ x with conn.pendingFrames := rest } : Exchange).returned (.recvFrame (.ok f))).Flow C frames lost where
  carries := h.carries
  others := by simpa [received, Exchange.returned, Call.received, hpend] using h.others
  kept := h.kept
  own := by simpa [received, Exchange.returned, Call.received, hpend, or_assoc] using h.own
  consumed := by simpa [answers, Exchange.returned, Call.answer] using h.consumed
  sent := by simpa [answers, Exchange.returned, Call.answer] using h.sent
  within := by simpa [answers, Exchange.returned, Call.answer] using h.within
  owed := h.owed
  answered := by simpa [answers, Exchange.returned, Call.answer] using h.answered
  idle := h.idle
  failed := h.failed_concat id nofun
  silent := h.silent_concat fun _ => rfl

/-- `recv_frame` reads a frame from the socket. -/
theorem receive {f : Frame} {rest : List Frame} {inbox : Bytes} (h : x.Flow C (f :: rest) lost)
    (hw : x.awaiting = none) (hpend : x.conn.pendingFrames = []) (hc : Carries inbox x.peerOpen rest) :
    (({ x with inbox } : Exchange).returned (.recvFrame (.ok f))).Flow C rest lost where
  carries := hc
  others := by simpa [received, Exchange.returned, Call.received, hpend] using h.others
  kept := h.kept
  own := by
    intro hp g hg
    have hown := h.own hp
    have hf := h.noAcks hp hw f List.mem_cons_self
    simp only [received, Exchange.returned, List.filterMap_append, filterMap_received, Call.received, hpend,
      List.append_nil, Option.toList_some, List.mem_append, List.mem_singleton] at hg hown
    rcases hg with hg | rfl
    · exact hown g hg
    · exact hf
  consumed := by
    intro hp
    have hf := h.noAcks hp hw f List.mem_cons_self
    simpa [answers, Exchange.returned, Call.answer, hf] using h.consumed hp
  sent := by simpa [answers, Exchange.returned, Call.answer] using h.sent
  within := by simpa [answers, Exchange.returned, Call.answer] using h.within
  owed := h.owed
  answered := by simpa [answers, Exchange.returned, Call.answer] using h.answered
  idle := h.idle
  failed := h.failed_concat id nofun
  silent := h.silent_concat fun _ => rfl

/-- The daemon sends a frame. -/
theorem deliver {f : Frame} (h : x.Flow C frames lost) (hopen : x.closed = false) (hk : f.Known)
    (hf : f.Fits) (hack : f.isRawAck = false) :
    ({ x with others := x.others ++ [f], inbox := x.inbox ++ wire f } : Exchange).Flow C (frames ++ [f]) lost := by
  simp only [closed, Bool.or_eq_false_iff, Bool.not_eq_false'] at hopen
  obtain ⟨hpeer, hp⟩ := hopen
  obtain rfl := h.kept hp
  have hcarries := h.carries
  rw [hpeer] at hcarries
  have hpush := hcarries.push hk hf
  rw [← hpeer] at hpush
  refine { h with carries := hpush, others := ?_, consumed := ?_, kept := fun _ => rfl }
  · simp [received, hack, h.others]
  · simpa [answers, hack] using h.consumed

/-- The daemon acks a `raw_data` frame it has not acked yet. -/
theorem daemonAcks {body : Bytes} {ack : RawAck} (h : x.Flow C frames lost) (hopen : x.closed = false)
    (hf : (Frame.rawAck body).Fits) (hdec : C.decodeAck body = some ack)
    (howed : x.acks.length < x.written.countP Frame.isRawData) :
    ({ x with acks := x.acks ++ [ack], inbox := x.inbox ++ wire (.rawAck body) } : Exchange).Flow C
      (frames ++ [.rawAck body]) lost := by
  simp only [closed, Bool.or_eq_false_iff, Bool.not_eq_false'] at hopen
  obtain ⟨hpeer, hp⟩ := hopen
  have hcarries := h.carries
  rw [hpeer] at hcarries
  have hpush := hcarries.push (f := .rawAck body) rfl hf
  rw [← hpeer] at hpush
  have hack : (Frame.rawAck body).isRawAck = true := rfl
  have hle := h.within hp
  refine { h with carries := hpush, others := ?_, consumed := fun hp => ?_, within := fun hp => ?_, owed := ?_, answered := ?_ }
  · simpa [received, hack] using h.others
  · have hc := h.consumed hp
    rw [List.filter_append, List.map_append, hc]
    have hbody : C.decodeAck (Frame.rawAck body).body = some ack := hdec
    simp only [answers] at hle ⊢
    simp [List.drop_append_of_le_length hle, hack, hbody]
  · simp only [answers, List.length_append, List.length_singleton] at hle ⊢
    omega
  · simpa using howed
  · intro k result hk hr
    obtain ⟨a, ha, hout⟩ := h.answered k result hk hr
    exact ⟨a, by rw [List.getElem?_append_left (List.getElem?_eq_some_iff.1 ha).1]; exact ha, hout⟩

/-- A send is awaited only on a good connection. -/
theorem good (h : x.Flow C frames lost) {bytes : Bytes} (hw : x.awaiting = some bytes) : x.conn.poisoned = false := by
  cases hp : x.conn.poisoned with
  | false => rfl
  | true =>
    rw [h.idle hp] at hw
    cases hw

end Flow

/-! ## What a send can do -/

/-- A connection that was not given up by the call keeps what is on the socket. -/
theorem withConn_kept (discards : Bool) (x : Exchange) {conn : ClientConnection}
    (hp : conn.poisoned = x.conn.poisoned) : x.withConn discards conn = { x with conn } := by
  have hkeep : ¬ (discards && conn.poisoned && !x.conn.poisoned) = true := by
    rw [hp]
    cases x.conn.poisoned <;> simp
  rw [withConn, if_neg hkeep]

theorem sendRawBytes_cases (conn : ClientConnection) (bytes : Bytes) (w : Except IoError Unit) :
    (∃ result, conn.sendRawBytes bytes w = (.returned result, conn) ∧ reachesSocket conn bytes = false ∧
        (conn.poisoned = false → isAnswer result = true)) ∨
      (∃ result, conn.sendRawBytes bytes w = (.returned result, conn.poison) ∧ isAnswer result = false ∧
        conn.poisoned = false) ∨
      conn.sendRawBytes bytes w = (.awaiting (.rawData bytes), conn) ∧ conn.poisoned = false := by
  unfold ClientConnection.sendRawBytes
  by_cases hp : conn.poisoned = true
  · rw [if_pos hp]
    exact .inl ⟨_, rfl, by simp [reachesSocket, hp], by simp [hp]⟩
  rw [if_neg hp]
  have hgood : conn.poisoned = false := by simpa using hp
  by_cases hb : bytes = []
  · rw [if_pos hb]
    exact .inl ⟨_, rfl, by simp [reachesSocket, hb], fun _ => rfl⟩
  rw [if_neg hb]
  cases (Frame.rawData bytes).encodeTo with
  | error e => exact .inr (.inl ⟨_, rfl, rfl, hgood⟩)
  | ok wire =>
    dsimp only
    cases conn.write w with
    | error io =>
      refine .inr (.inl ⟨_, rfl, ?_, hgood⟩)
      simp only [isAnswer, frameWriteIoError]
      split <;> rfl
    | ok _ => exact .inr (.inr ⟨rfl, hgood⟩)

/-- A turn of the wait gives the connection up, or goes on, or reads the ack. -/
theorem awaitAck_failed (C : Codec) (conn : ClientConnection) {e : ClientConnection.AckWait}
    (he : e ≠ .pollInterrupted ∧ ∀ frame, e ≠ .read (.ok frame)) :
    ∃ result, conn.awaitAck C e = (some result, conn.poison) ∧ isAnswer result = false := by
  cases e with
  | deadline => exact ⟨_, rfl, rfl⟩
  | pollTimeout => exact ⟨_, rfl, rfl⟩
  | pollInterrupted => exact absurd rfl he.1
  | pollFailed message => exact ⟨_, rfl, rfl⟩
  | read r =>
    cases r with
    | ok frame => exact absurd rfl (he.2 frame)
    | error e =>
      have hremote : (frameReadError "frame decode failed while waiting raw_ack" e).isRemote = false := by
        unfold frameReadError
        split
        · rfl
        · split <;> rfl
        · rfl
      have hans : isAnswer (.error (frameReadError "frame decode failed while waiting raw_ack" e)) = false := hremote
      refine ⟨_, ?_, hans⟩
      simp [ClientConnection.awaitAck, ClientConnection.recvRawAckInner, ClientConnection.settleSend, hremote]

theorem awaitAck_other {C : Codec} {conn : ClientConnection} {f : Frame} (hf : f.isRawAck = false) :
    conn.awaitAck C (.read (.ok f)) = (none, { conn with pendingFrames := conn.pendingFrames ++ [f] }) := by
  simp only [Frame.isRawAck, decide_eq_false_iff_not] at hf
  simp [ClientConnection.awaitAck, ClientConnection.recvRawAckInner, hf]

theorem awaitAck_ack {C : Codec} {conn : ClientConnection} {f : Frame} {ack : RawAck} (hf : f.isRawAck = true)
    (hdec : C.decodeAck f.body = some ack) :
    conn.awaitAck C (.read (.ok f)) = (some (ackOutcome ack), conn) := by
  simp only [Frame.isRawAck, decide_eq_true_eq] at hf
  simp only [ClientConnection.awaitAck, ClientConnection.recvRawAckInner, if_pos hf, hdec]
  cases hr : ack.result <;> simp [ackOutcome, hr, ClientConnection.settleSend, Error.isRemote]

/-! ## Every step -/

section Steps

variable {C : Codec} {discards : Bool} {x x' : Exchange} {frames lost : List Frame}

theorem Flow.sendRawBytes (h : x.Flow C frames lost) {bytes : Bytes} {w : Except IoError Unit}
    (hs : x.step C discards (.sendRawBytes bytes w) = some x') : ∃ frames lost, x'.Flow C frames lost := by
  simp only [step, Option.ite_none_left_eq_some, Bool.not_eq_true, Option.isSome_eq_false_iff,
    Option.isNone_iff_eq_none] at hs
  obtain ⟨hw, hs⟩ := hs
  rcases sendRawBytes_cases x.conn bytes w with ⟨result, hsend, hput, hans⟩ | ⟨result, hsend, hans, hp⟩ | ⟨hsend, hp⟩
  · rw [hsend] at hs
    simp only [Option.some.injEq, withConn_kept discards x rfl, hput] at hs
    subst hs
    refine ⟨frames, lost, h.plain rfl rfl (fun hfail => ?_) (fun _ => rfl) rfl⟩
    cases hp : x.conn.poisoned with
    | true => rfl
    | false => simp [Call.failed, hans hp] at hfail
  · rw [hsend] at hs
    simp only [Option.some.injEq] at hs
    subst hs
    have hx : ({ x with awaiting := none } : Exchange) = x := by rw [← hw]
    have hgive : ∃ frames lost, (({ x with awaiting := none }.withConn discards x.conn.poison).returned
        (.sendRawBytes bytes (reachesSocket x.conn bytes) result)).Flow C frames lost := h.giveUp discards rfl ?_ ?_
    · rwa [hx] at hgive
    · intro r hr
      cases hput : reachesSocket x.conn bytes <;> rw [hput] at hr <;> cases hr
      exact hans
    · rw [hp]
      exact nofun
  · rw [hsend] at hs
    simp only [Option.some.injEq, withConn_kept discards x rfl] at hs
    subst hs
    refine ⟨frames, lost, { h with sent := fun _ => ?_, owed := ?_, idle := fun hpt => ?_ }⟩
    · have := h.sent hp
      rw [hw] at this
      simpa [List.countP_append, Frame.rawData, Frame.isRawData, answers] using this
    · rw [List.countP_append]
      exact Nat.le_add_right_of_le h.owed
    · rw [hp] at hpt
      cases hpt

/-- The wait for an ack ends without an answer. -/
theorem Flow.awaitFailed (h : x.Flow C frames lost) {bytes : Bytes} {e : ClientConnection.AckWait}
    (hw : x.awaiting = some bytes) (he : e ≠ .pollInterrupted ∧ ∀ frame, e ≠ .read (.ok frame)) :
    ∃ frames lost, (x.awaitTurn C discards bytes e).Flow C frames lost := by
  obtain ⟨result, hturn, hans⟩ := awaitAck_failed C x.conn he
  have hp := h.good hw
  simp only [awaitTurn, hturn]
  refine h.giveUp discards rfl (fun r hr => ?_) fun hpt => ?_
  · cases hr
    exact hans
  · rw [hp] at hpt
    cases hpt

theorem Flow.awaitRead (h : x.Flow C frames lost) {r : Reading} (hr : ∀ e consumed, r = .fails e consumed → consumed = 0)
    (hs : x.step C discards (.awaitRead r) = some x') : ∃ frames lost, x'.Flow C frames lost := by
  simp only [step] at hs
  split at hs
  · rename_i bytes result inbox hw hread
    simp only [Option.some.injEq] at hs
    subst hs
    rcases h.carries.read hr hread with ⟨f, rest, rfl, rfl, hc⟩ | ⟨⟨e, rfl⟩, hc⟩
    · cases hf : f.isRawAck with
      | false =>
        refine ⟨rest, lost, ?_⟩
        simp only [awaitTurn, awaitAck_other hf]
        rw [withConn_kept]
        · exact h.setAside (h.good hw) hc hf
        · rfl
      | true =>
        obtain ⟨ack, hdec, -, -⟩ := h.nextAck (h.good hw) hf
        refine ⟨rest, lost, ?_⟩
        simp only [awaitTurn, awaitAck_ack hf hdec]
        rw [withConn_kept]
        · exact h.acked hw hc hf hdec
        · rfl
    · have h' : ({ x with inbox } : Exchange).Flow C frames lost := { h with carries := hc }
      exact h'.awaitFailed hw ⟨nofun, nofun⟩
  · cases hs

theorem Flow.recvFrame (h : x.Flow C frames lost) {r : Reading} (hr : ∀ e consumed, r = .fails e consumed → consumed = 0)
    (hs : x.step C discards (.recvFrame r) = some x') : ∃ frames lost, x'.Flow C frames lost := by
  simp only [step, Option.ite_none_left_eq_some, Bool.not_eq_true, Option.isSome_eq_false_iff,
    Option.isNone_iff_eq_none] at hs
  obtain ⟨hw, hs⟩ := hs
  split at hs
  · rename_i f rest hpend
    simp only [Option.some.injEq] at hs
    subst hs
    exact ⟨frames, lost, h.pop hpend⟩
  · rename_i hpend
    simp only [Option.map_eq_some_iff, Prod.exists] at hs
    obtain ⟨result, inbox, hread, rfl⟩ := hs
    rcases h.carries.read hr hread with ⟨f, rest, rfl, rfl, hc⟩ | ⟨⟨e, rfl⟩, hc⟩
    · refine ⟨rest, lost, ?_⟩
      have := h.receive hw hpend hc
      simpa [ClientConnection.recvFrame, hpend, Except.mapError] using this
    · refine ⟨frames, lost, ?_⟩
      have h' : ({ x with inbox } : Exchange).Flow C frames lost := { h with carries := hc }
      have hplain : (({ x with inbox } : Exchange).returned
          (.recvFrame (.error (frameReadError "frame decode failed" e)))).Flow C frames lost :=
        h'.plain rfl rfl nofun (fun _ => rfl) rfl
      simpa [ClientConnection.recvFrame, hpend, Except.mapError] using hplain

theorem Flow.sendControl (h : x.Flow C frames lost) {msg : ControlMessage} {w : Except IoError Unit}
    (hs : x.step C discards (.sendControl msg w) = some x') : x'.Flow C frames lost := by
  simp only [step, Option.ite_none_left_eq_some, Option.some.injEq] at hs
  obtain ⟨-, rfl⟩ := hs
  refine h.plain rfl rfl nofun (fun hp => by simp [Call.put, hp]) ?_
  have hframe : ∀ f ∈ (x.conn.sendControl C msg w).2.toList, f.isRawData = false := by
    intro f hf
    rw [Option.mem_toList] at hf
    unfold ClientConnection.sendControl at hf
    split at hf
    · cases hf
    · split at hf
      · cases hf
      · split at hf <;> cases hf
        rfl
  have hzero : (x.conn.sendControl C msg w).2.toList.countP Frame.isRawData = 0 :=
    List.countP_eq_zero.2 fun f hf => by simp [hframe f hf]
  rw [List.countP_append, hzero, Nat.add_zero]

theorem deliver_eq {f : Frame} (hs : x.deliver f = some x') :
    x.closed = false ∧ f.Fits ∧ x' = { x with inbox := x.inbox ++ wire f } := by
  unfold deliver at hs
  split at hs
  · rename_i bytes henc
    obtain ⟨hfits, rfl⟩ := encodeTo_ok henc
    simp only [Option.ite_none_left_eq_some, Bool.not_eq_true, Option.some.injEq] at hs
    exact ⟨hs.1, hfits, hs.2.symm⟩
  · cases hs

theorem Flow.step (h : x.Flow C frames lost) {m : Move} (hm : Whole x m) (hs : x.step C discards m = some x') :
    ∃ frames lost, x'.Flow C frames lost := by
  cases m with
  | sendRawBytes bytes w => exact h.sendRawBytes hs
  | await e =>
    by_cases hread : ∃ r, e = .read r
    · obtain ⟨r, rfl⟩ := hread
      cases hs
    by_cases hint : e = .pollInterrupted
    · subst hint
      obtain ⟨bytes, hw, rfl⟩ := Option.map_eq_some_iff.1 hs
      refine ⟨frames, lost, ?_⟩
      simpa only [awaitTurn, ClientConnection.awaitAck, ClientConnection.recvRawAckInner, withConn_kept discards x rfl]
        using h
    have hs' : x.awaiting.map (x.awaitTurn C discards · e) = some x' := by
      cases e with
      | read r => exact absurd ⟨r, rfl⟩ hread
      | _ => exact hs
    obtain ⟨bytes, hw, rfl⟩ := Option.map_eq_some_iff.1 hs'
    exact h.awaitFailed hw ⟨hint, fun f he => hread ⟨_, he⟩⟩
  | awaitRead r =>
    refine h.awaitRead ?_ hs
    rintro e consumed rfl
    exact hm
  | recvFrame r =>
    refine h.recvFrame ?_ hs
    rintro e consumed rfl
    exact hm
  | sendControl msg w => exact ⟨_, _, h.sendControl hs⟩
  | setReadTimeout dur =>
    simp only [Exchange.step, Option.ite_none_left_eq_some, Option.some.injEq] at hs
    obtain ⟨-, rfl⟩ := hs
    exact ⟨frames, lost, { h with }⟩
  | daemonAcks body =>
    simp only [Exchange.step] at hs
    split at hs
    · rename_i ack hdec
      split at hs
      · rename_i howed
        obtain ⟨hopen, hfits, rfl⟩ := deliver_eq hs
        exact ⟨_, _, h.daemonAcks hopen hfits hdec howed⟩
      · cases hs
    · cases hs
  | daemonSends f =>
    simp only [Exchange.step, Option.ite_none_right_eq_some] at hs
    obtain ⟨⟨hk, hack⟩, hs⟩ := hs
    obtain ⟨hopen, hfits, rfl⟩ := deliver_eq hs
    exact ⟨_, _, h.deliver hopen hk hfits hack⟩
  | daemonCloses part =>
    simp only [Exchange.step, Option.ite_none_right_eq_some, Option.some.injEq] at hs
    obtain ⟨⟨hopen, hmore⟩, rfl⟩ := hs
    simp only [closed, Bool.or_eq_false_iff, Bool.not_eq_false'] at hopen
    have hcarries := h.carries
    rw [hopen.1] at hcarries
    exact ⟨frames, lost, { h with carries := hcarries.close hmore }⟩

end Steps

end Exchange

/-- Whatever the daemon sends between its acks, and in whatever order the calls are made: while no read
fails in the middle of a frame, the k-th send reports the k-th ack, every other frame is received once
and in order, and a send that failed is the last thing on the wire. -/
theorem acks_pair_with_sends (C : Codec) (discards : Bool) {x : Exchange}
    (h : (exchange C discards).Reach Whole x) : x.Paired C := by
  have hflow : ∃ frames lost, x.Flow C frames lost := by
    refine h.inv (fun x => ∃ frames lost, x.Flow C frames lost) ?_ ?_
    · rintro _ ⟨response, readDeadline, rfl⟩
      exact ⟨[], [], .start response readDeadline⟩
    · rintro x m x' - ⟨frames, lost, hx⟩ hm hstep
      exact hx.step hm hstep
  obtain ⟨frames, lost, hx⟩ := hflow
  exact hx.paired

/-- Output comes in between a send and its ack, and the output is received after it. -/
def outputBetween : List Move := [
  .sendRawBytes [0x61] (.ok ()), .daemonSends (.rawData [0x24]), .daemonAcks RawAck.ok.cbor, .awaitRead .complete,
  .awaitRead .complete, .recvFrame .complete]

theorem acks_pair_with_sends_between : ∃ x : Exchange,
    (exchange ackCodec false).Reach Whole x ∧ x.received = [.rawData [0x24]] ∧ x.Paired ackCodec := by
  have hinit : (exchange ackCodec false).Reach Whole { conn := { response := plainResponse } } := .init ⟨_, _, rfl⟩
  obtain ⟨x, hx, hrec⟩ := hinit.exists_run outputBetween (p := fun x => x.received = [.rawData [0x24]])
    (by decide +kernel)
  exact ⟨x, hx, hrec, acks_pair_with_sends ackCodec false hx⟩

end Hyoui.Client
