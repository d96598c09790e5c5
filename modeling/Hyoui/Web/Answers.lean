import Hyoui.Web.Telling
/-!
# Every result from its own answers

The invariant of the bridge and the daemon beside it: while a request is under way, whatever can end its waits
answers a message written for it. `answered_by_own` reads the results off it, for the runs where nothing
is left over from before when a request starts.
-/

namespace Hyoui.Web

open Hyoui.Lib Hyoui.Protocol Hyoui.Client

/-! ## What is on its way -/

namespace Wire

variable {C : Codec} {b : Bridge} {w w' : Wire} {cut : Bool} {e : Bridge.Event} {taken : Option Delivery}

/-- `w'` is `w` after `taken` left it: nothing new is on its way. -/
structure Leaves (w w' : Wire) (taken : Option Delivery) : Prop where
  taken : ∀ d ∈ taken, d ∈ w.flight
  flight : ∀ d ∈ w'.flight, d ∈ w.flight
  cut : w.cut = true → w'.cut = true

theorem Leaves.refl (w : Wire) : w.Leaves w none := ⟨nofun, fun _ hd => hd, id⟩

/-- A read of the socket takes its first delivery, or fails. -/
theorem read_cases {read : Except FrameError Frame} (h : w.read cut read = some (taken, w')) :
    (∃ d rest, read = .ok d.frame ∧ w.inbox = d :: rest ∧ taken = some d ∧ w' = { w with inbox := rest }) ∨
      ∃ e, read = .error e ∧ taken = none ∧ w'.aside = w.aside ∧ w.Leaves w' none := by
  unfold Wire.read at h
  split at h
  · rename_i e
    cases h
    refine .inr ⟨e, rfl, rfl, by split <;> rfl, ?_⟩
    split
    · rename_i hcut
      refine ⟨nofun, fun d hd => ?_, fun _ => hcut⟩
      simp only [flight, List.append_nil] at hd
      exact List.mem_append_left _ hd
    · exact .refl w
  · split at h
    · rename_i frame d rest hinbox
      simp only [Option.ite_none_right_eq_some, Option.some.injEq, Prod.mk.injEq] at h
      obtain ⟨rfl, rfl, rfl⟩ := h
      exact .inl ⟨d, rest, rfl, hinbox, rfl, rfl⟩
    · cases h

theorem Leaves.inbox {d : Delivery} {rest : List Delivery} (h : w.inbox = d :: rest) :
    w.Leaves { w with inbox := rest } (some d) := by
  refine ⟨?_, fun x hx => ?_, id⟩
  · rintro _ ⟨⟩
    simp [Wire.flight, h]
  · rw [Wire.flight, h]
    exact (List.mem_append.1 hx).elim (List.mem_append_left _) fun hx =>
      List.mem_append_right _ (List.mem_cons_of_mem _ hx)

/-- `recv_frame` and the wire agree on what is received. -/
theorem recv_spec {read : Except FrameError Frame} (h : w.recv cut read = some (taken, w'))
    (hpaired : w.aside.map (·.frame) = b.conn.pendingFrames) :
    w.Leaves w' taken ∧ w'.aside.map (·.frame) = (b.conn.recvFrame read).2.pendingFrames ∧
      ∀ frame, (b.conn.recvFrame read).1 = .ok frame → ∃ d, taken = some d ∧ d.frame = frame := by
  unfold Wire.recv at h
  split at h
  · rename_i d rest haside
    cases h
    rw [haside, List.map_cons] at hpaired
    refine ⟨⟨?_, fun x hx => ?_, id⟩, ?_, fun frame hf => ⟨d, rfl, ?_⟩⟩
    · rintro _ ⟨⟩
      simp [flight, haside]
    · rw [flight, haside]
      exact List.mem_cons_of_mem _ hx
    · simp only [ClientConnection.recvFrame, ← hpaired]
    · simp only [ClientConnection.recvFrame, ← hpaired, Except.ok.injEq] at hf
      exact hf
  · rename_i haside
    rw [haside, List.map_nil] at hpaired
    have hconn : b.conn.recvFrame read = (read.mapError (frameReadError "frame decode failed"), b.conn) := by
      rw [ClientConnection.recvFrame, ← hpaired]
    rw [hconn]
    rcases read_cases h with ⟨d, rest, rfl, hinbox, rfl, rfl⟩ | ⟨e, rfl, rfl, hkept, hleaves⟩
    · refine ⟨.inbox hinbox, by rw [haside, ← hpaired]; rfl, fun frame hf => ⟨d, rfl, ?_⟩⟩
      cases hf
      rfl
    · refine ⟨hleaves, by rw [hkept, haside, ← hpaired]; rfl, fun frame hf => ?_⟩
      cases hf

/-- The wait for an ack sets aside every frame but an ack. -/
theorem awaitAck_aside (C : Codec) (conn : ClientConnection) (frame : Frame) :
    (conn.awaitAck C (.read (.ok frame))).2.pendingFrames =
      if frame.ty = typeRawAck then conn.pendingFrames else conn.pendingFrames ++ [frame] := by
  unfold ClientConnection.awaitAck ClientConnection.recvRawAckInner
  by_cases hack : frame.ty = typeRawAck
  · simp only [if_pos hack]
    cases C.decodeAck frame.body with
    | none => rfl
    | some ack => exact (Bridge.settleSend_conn ..).2
  · simp only [if_neg hack]

theorem setAside_spec {read : Except FrameError Frame} (h : w.read cut read = some (taken, w'))
    (hpaired : w.aside.map (·.frame) = b.conn.pendingFrames) :
    w.Leaves (w'.setAside taken) none ∧
      (w'.setAside taken).aside.map (·.frame) = (b.conn.awaitAck C (.read read)).2.pendingFrames := by
  rcases read_cases h with ⟨d, rest, rfl, hinbox, rfl, rfl⟩ | ⟨e, rfl, rfl, hkept, hleaves⟩
  · obtain ⟨-, hflight, -⟩ := Leaves.inbox hinbox
    rw [awaitAck_aside, Wire.setAside]
    split
    · exact ⟨⟨nofun, hflight, id⟩, hpaired⟩
    · refine ⟨⟨nofun, fun x hx => ?_, id⟩, by simp [hpaired]⟩
      simp only [flight, List.mem_append, List.mem_singleton, or_assoc] at hx
      simp only [flight, hinbox, List.mem_append, List.mem_cons]
      exact hx
  · refine ⟨hleaves, ?_⟩
    rw [Wire.setAside, hkept, hpaired]
    rcases (Bridge.awaitAck_conn C b.conn (.read (.error e))).2 with hsame | ⟨frame, hframe, -⟩
    · exact hsame.symm
    · cases hframe

theorem deliver_spec (h : w.deliver cut e = some (taken, w'))
    (hpaired : w.aside.map (·.frame) = b.conn.pendingFrames) :
    w.Leaves w' taken ∧ w'.aside.map (·.frame) = (b.connAfter C e).pendingFrames ∧
      ∀ read clear, e = .receive read clear → ∀ frame, (b.conn.recvFrame read).1 = .ok frame →
        ∃ d, taken = some d ∧ d.frame = frame := by
  have hnothing : w.deliver cut e = some (none, w) → (b.connAfter C e).pendingFrames = b.conn.pendingFrames →
      w.Leaves w' taken ∧ w'.aside.map (·.frame) = (b.connAfter C e).pendingFrames := by
    intro hnone hconn
    rw [h] at hnone
    cases hnone
    exact ⟨.refl w, hpaired.trans hconn.symm⟩
  cases e with
  | browser | readerGone | writerGone | control => exact ⟨(hnothing rfl rfl).1, (hnothing rfl rfl).2, nofun⟩
  | poll p read wr =>
    cases p with
    | interrupted | failed => exact ⟨(hnothing rfl rfl).1, (hnothing rfl rfl).2, nofun⟩
    | ready reader wake =>
      cases reader with
      | false => exact ⟨(hnothing rfl rfl).1, (hnothing rfl rfl).2, nofun⟩
      | true =>
        obtain ⟨hleaves, hpair, -⟩ := recv_spec h hpaired
        exact ⟨hleaves, hpair, nofun⟩
  | receive read clear =>
    obtain ⟨hleaves, hpair, htaken⟩ := recv_spec h hpaired
    refine ⟨hleaves, hpair, ?_⟩
    rintro _ _ ⟨⟩
    exact htaken
  | ackWait a =>
    cases a with
    | read read =>
      obtain ⟨⟨taken₁, w₁⟩, hread, heq⟩ := Option.map_eq_some_iff.1 h
      cases heq
      obtain ⟨hleaves, hpair⟩ := setAside_spec (C := C) hread hpaired
      exact ⟨hleaves, hpair, nofun⟩
    | deadline | pollTimeout | pollInterrupted | pollFailed =>
      exact ⟨(hnothing rfl rfl).1, (hnothing rfl rfl).2, nofun⟩

end Wire

/-! ## Only its own answers -/

theorem Delivery.Replies.mono {C : Codec} {written written' : List Frame} {since upTo upTo' : Nat} {d : Delivery}
    (h : d.Replies C written since upTo) (hlen : upTo ≤ written.length) (hpre : written <+: written')
    (hle : upTo ≤ upTo') : d.Replies C written' since upTo' := by
  obtain ⟨i, hi, hsince, hupTo, hquery⟩ := h
  obtain ⟨more, rfl⟩ := hpre
  refine ⟨i, hi, hsince, by omega, fun hstatus => ?_⟩
  rw [List.getElem?_append_left (by omega)]
  exact hquery hstatus

theorem awaited_mono {C : Codec} {own : ClientId} {leader leader' : Bool} {f : Frame}
    (h : awaited C own leader' f = true) (himp : leader' = true → leader = true) : awaited C own leader f = true := by
  cases leader with
  | true => cases leader' <;> simp_all [awaited]
  | false =>
    cases leader' with
    | true => cases himp rfl
    | false => exact h

theorem Bridge.starts_asks {b : Bridge} {e : Bridge.Event} {control : PendingControl} (h : b.starts e = some control) :
    b.phase.asks = none := by
  unfold Bridge.starts at h
  split at h
  · split at h
    · rename_i hphase
      rw [hphase]
      rfl
    · cases h
  · cases h

namespace Link

variable {C : Codec} {own : ClientId} {s s' : Link}

/-- While a request is under way, what can end it answers it. -/
structure Asking (C : Codec) (own : ClientId) (s : Link) (leader : Bool) : Prop where
  fresh : s.wire.cut = true ∨ s.since ≤ s.handled
  flight : ∀ d ∈ s.wire.flight, awaited C own leader d.frame = true → ∃ i, d.answers = some i ∧ s.since ≤ i
  ended : ∀ d ∈ s.ended, d.Replies C s.bridge.written s.since s.bridge.written.length

structure Inv (C : Codec) (own : ClientId) (s : Link) : Prop where
  client : s.bridge.conn.response.clientId = own
  paired : s.wire.aside.map (·.frame) = s.bridge.conn.pendingFrames
  handled : s.handled ≤ s.bridge.written.length
  flight : ∀ d ∈ s.wire.flight, ∀ i, d.answers = some i →
    i < s.handled ∧ (isStatus C d.frame → s.bridge.written[i]? = queryFrame C)
  asking : ∀ leader, s.bridge.phase.asks = some leader → s.Asking C own leader
  leads : s.bridge.phase.leads = true → ∃ d ∈ s.ended, namesLeader C own d.frame
  told : s.settled.map (·.result) = s.bridge.results
  settled : ∀ x ∈ s.settled, x.upTo ≤ s.bridge.written.length ∧ x.Answered C own s.bridge.written

theorem Inv.init {G : Gateway} {response : HandshakeResponse} :
    Inv C response.clientId { bridge := .start G response } where
  client := rfl
  paired := rfl
  handled := Nat.zero_le _
  flight := nofun
  asking := nofun
  leads := nofun
  told := rfl
  settled := nofun

theorem Inv.answer {frames : List Frame} (h : s.Inv C own) (hs : s.step C own (.answer frames) = some s') :
    s'.Inv C own := by
  simp only [Link.step] at hs
  split at hs
  · cases hs
  rename_i message hmessage
  simp only [Option.ite_none_right_eq_some, Option.some.injEq] at hs
  obtain ⟨⟨hcut, hstatus⟩, rfl⟩ := hs
  have hlt : s.handled < s.bridge.written.length := (List.getElem?_eq_some_iff.1 hmessage).1
  have hflight : ∀ d,
      d ∈ s.wire.aside ++ (s.wire.inbox ++ frames.map fun frame => { frame, answers := some s.handled }) →
        d ∈ s.wire.flight ∨ ∃ frame ∈ frames, d = { frame, answers := some s.handled } := by
    intro d hd
    rw [← List.append_assoc] at hd
    rcases List.mem_append.1 hd with hd | hd
    · exact .inl hd
    · obtain ⟨frame, hframe, rfl⟩ := List.mem_map.1 hd
      exact .inr ⟨frame, hframe, rfl⟩
  refine ⟨h.client, h.paired, hlt, fun d hd i hi => ?_, fun leader hasks => ⟨?_, fun d hd hawaited => ?_, ?_⟩,
    h.leads, h.told, h.settled⟩
  · rcases hflight d hd with hd | ⟨frame, hframe, rfl⟩
    · obtain ⟨hlt', hquery⟩ := h.flight d hd i hi
      exact ⟨Nat.lt_succ_of_lt hlt', hquery⟩
    · cases hi
      exact ⟨Nat.lt_succ_self _, fun hst => hmessage.trans (hstatus frame hframe hst)⟩
  · exact (h.asking leader hasks).fresh.imp_right Nat.le_succ_of_le
  · rcases hflight d hd with hd | ⟨frame, -, rfl⟩
    · exact (h.asking leader hasks).flight d hd hawaited
    · rcases (h.asking leader hasks).fresh with hcut' | hsince
      · rw [hcut] at hcut'
        cases hcut'
      · exact ⟨_, rfl, hsince⟩
  · exact (h.asking leader hasks).ended

theorem Inv.announce {frame : Frame} (h : s.Inv C own) (htimely : s.Timely C own (.announce frame))
    (hs : s.step C own (.announce frame) = some s') : s'.Inv C own := by
  simp only [Link.step, Option.ite_none_right_eq_some, Option.some.injEq] at hs
  obtain ⟨-, rfl⟩ := hs
  have hflight : ∀ d, d ∈ s.wire.aside ++ (s.wire.inbox ++ [Delivery.mk frame none]) →
      d ∈ s.wire.flight ∨ d = .mk frame none := by
    intro d hd
    rw [← List.append_assoc] at hd
    exact (List.mem_append.1 hd).imp_right List.mem_singleton.1
  refine ⟨h.client, h.paired, h.handled, fun d hd i hi => ?_, fun leader hasks => ⟨(h.asking leader hasks).fresh,
    fun d hd hawaited => ?_, (h.asking leader hasks).ended⟩, h.leads, h.told, h.settled⟩
  · rcases hflight d hd with hd | rfl
    · exact h.flight d hd i hi
    · cases hi
  · rcases hflight d hd with hd | rfl
    · exact (h.asking leader hasks).flight d hd hawaited
    · rw [htimely leader hasks] at hawaited
      cases hawaited

theorem mem_ending {phase : Phase} {leader : Bool} {taken : Option Delivery} {d : Delivery}
    (hasks : phase.asks = some leader) :
    d ∈ ending C own phase taken ↔ taken = some d ∧ awaited C own leader d.frame = true := by
  simp [ending, hasks]

/-- What a wait received for its answer answers the request. -/
theorem Inv.request {e : Bridge.Event} {taken : Option Delivery} {wire : Wire} {written' : List Frame} (h : s.Inv C own)
    (hleaves : s.wire.Leaves wire taken) (hpre : s.bridge.written <+: written')
    (hunder : s.bridge.phase.asks = none → s.bridge.starts e ≠ none) :
    ∀ d ∈ (s.request C own e taken).2, d.Replies C written' (s.request C own e taken).1 written'.length := by
  unfold Link.request
  split
  · nofun
  rename_i hstarts
  intro d hd
  cases hasks : s.bridge.phase.asks with
  | none => exact absurd hstarts (hunder hasks)
  | some leader =>
    have hasking := h.asking leader hasks
    rcases List.mem_append.1 hd with hd | hd
    · exact (hasking.ended d hd).mono (Nat.le_refl _) hpre hpre.length_le
    · obtain ⟨rfl, hawaited⟩ := (mem_ending hasks).1 hd
      have hin := hleaves.taken d rfl
      obtain ⟨i, hi, hsince⟩ := hasking.flight d hin hawaited
      obtain ⟨hlt, hquery⟩ := h.flight d hin i hi
      have hreplies : d.Replies C s.bridge.written s.since s.bridge.written.length :=
        ⟨i, hi, hsince, hlt.trans_le h.handled, hquery⟩
      exact hreplies.mono (Nat.le_refl _) hpre hpre.length_le

/-- The request stays under way, or one starts with nothing left over. -/
theorem Inv.onBridge_asking {e : Bridge.Event} {cut : Bool} {taken : Option Delivery} {wire : Wire} {b : Bridge}
    {leader' : Bool} {settled : List Settled} (h : s.Inv C own) (htimely : s.Timely C own (.bridge e cut))
    (hleaves : s.wire.Leaves wire taken) (hpre : s.bridge.written <+: b.written)
    (hmoved : s.bridge.Moved C own (s.request C own e taken).2 e b) (hasks' : b.phase.asks = some leader') :
    Asking C own
      { s with
        bridge := b
        wire
        since := (s.request C own e taken).1
        ended := (s.request C own e taken).2
        settled } leader' := by
  obtain ⟨leader, hfrom, himp⟩ := hmoved.asks leader' hasks'
  have hended : ∀ d ∈ (s.request C own e taken).2,
      d.Replies C b.written (s.request C own e taken).1 b.written.length := by
    refine h.request hleaves hpre fun hnone hstarts => ?_
    rw [hnone, hstarts] at hfrom
    rcases hfrom with hfrom | hfrom <;> cases hfrom
  cases hstarts : s.bridge.starts e with
  | none =>
    have hasks : s.bridge.phase.asks = some leader := by
      rcases hfrom with hfrom | hfrom
      · exact hfrom
      · rw [hstarts] at hfrom
        cases hfrom
    have hasking := h.asking leader hasks
    have hsince : (s.request C own e taken).1 = s.since := by simp only [Link.request, hstarts]
    refine ⟨?_, fun d hd hawaited => ?_, hended⟩
    · rw [hsince]
      exact hasking.fresh.imp_left hleaves.cut
    · rw [hsince]
      exact hasking.flight d (hleaves.flight d hd) (awaited_mono hawaited himp)
  | some control =>
    obtain rfl : control.asksLeader = leader := by
      rcases hfrom with hfrom | hfrom
      · rw [Bridge.starts_asks hstarts] at hfrom
        cases hfrom
      · rw [hstarts] at hfrom
        exact Option.some.inj hfrom
    have hclear := htimely control hstarts
    refine ⟨?_, fun d hd hawaited => ?_, hended⟩
    · have hsince : (s.request C own e taken).1 = s.bridge.written.length := by simp only [Link.request, hstarts]
      rw [hsince]
      by_cases hcut : s.wire.cut = true
      · exact .inl (hleaves.cut hcut)
      · exact .inr (Nat.le_of_not_lt fun hlt => hclear (.inl ⟨Bool.eq_false_iff.2 hcut, hlt⟩))
    · exact absurd (.inr ⟨d, hleaves.flight d hd, awaited_mono hawaited himp⟩) hclear

theorem Inv.bridge {e : Bridge.Event} {cut : Bool} (h : s.Inv C own) (htimely : s.Timely C own (.bridge e cut))
    (hs : s.step C own (.bridge e cut) = some s') : s'.Inv C own := by
  simp only [Link.step, onBridge] at hs
  split at hs
  rotate_left
  · cases hs
  rename_i b taken wire hstep hdeliver
  cases hs
  obtain ⟨hleaves, hpaired, htaken⟩ := s.wire.deliver_spec (C := C) hdeliver h.paired
  have hmoved : s.bridge.Moved C own (s.request C own e taken).2 e b := by
    refine Bridge.step_moved hstep h.client ?_ fun hleads => ?_
    · rintro read clear rfl frame leader hrecv hasks hawaited
      obtain ⟨d, rfl, rfl⟩ := htaken read clear rfl frame hrecv
      exact ⟨d, List.mem_append_right _ ((mem_ending hasks).2 ⟨rfl, hawaited⟩), rfl⟩
    · obtain ⟨d, hd, hnames⟩ := h.leads hleads
      cases hstarts : s.bridge.starts e with
      | none =>
        simp only [Link.request, hstarts]
        exact ⟨d, List.mem_append_left _ hd, hnames⟩
      | some control =>
        have hasks := Bridge.leads_asks hleads
        rw [Bridge.starts_asks hstarts] at hasks
        cases hasks
  obtain ⟨acts, hlog, hresults⟩ := hmoved.tells.acts
  have hpre : s.bridge.written <+: b.written := by
    refine ⟨acts.filterMap Act.frameWritten, ?_⟩
    rw [Bridge.written, Bridge.written, hlog, List.filterMap_append]
  have htold : (b.log.drop s.bridge.log.length).filterMap Act.result = acts.filterMap Act.result := by
    rw [hlog, List.drop_left]
  refine ⟨hmoved.tells.client.trans ?_, hpaired.trans hmoved.tells.pending.symm, h.handled.trans hpre.length_le,
    fun d hd i hi => ?_, fun leader' hasks' => h.onBridge_asking htimely hleaves hpre hmoved hasks', hmoved.leads, ?_,
    ?_⟩
  · rw [Bridge.connAfter_response, h.client]
  · obtain ⟨hlt, hquery⟩ := h.flight d (hleaves.flight d hd) i hi
    refine ⟨hlt, fun hstatus => ?_⟩
    obtain ⟨more, hmore⟩ := hpre
    rw [← hmore, List.getElem?_append_left (hlt.trans_le h.handled)]
    exact hquery hstatus
  · rw [List.map_append, h.told, List.map_map, htold, Bridge.results, Bridge.results, hlog, List.filterMap_append]
    congr 1
    exact List.map_id _
  · intro x hx
    rcases List.mem_append.1 hx with hx | hx
    · obtain ⟨hle, hanswered⟩ := h.settled x hx
      exact ⟨hle.trans hpre.length_le, hanswered.fits,
        fun d hd => (hanswered.replies d hd).mono hle hpre (Nat.le_refl _)⟩
    · obtain ⟨result, hresult, rfl⟩ := List.mem_map.1 hx
      rw [htold] at hresult
      obtain ⟨hfits, hunder⟩ := hresults result hresult
      exact ⟨Nat.le_refl _, hfits, h.request hleaves hpre hunder⟩

instance (C : Codec) (own : ClientId) (s : Link) (control : PendingControl) : Decidable (s.leftOver C own control) := by
  unfold leftOver
  infer_instance

instance (C : Codec) (own : ClientId) (s : Link) : DecidablePred (s.Timely C own)
  | .bridge e _ => decidable_of_iff (∀ control ∈ s.bridge.starts e, ¬ s.leftOver C own control) Iff.rfl
  | .answer _ => .isTrue trivial
  | .announce frame => decidable_of_iff (∀ leader ∈ s.bridge.phase.asks, awaited C own leader frame = false) Iff.rfl

end Link

/-- When every request starts with nothing left over from before, and the daemon sends nothing unasked that a
request under way would take for its answer, each result tells what the daemon answered to its own
request: a resize succeeds after the status its own query asked for, a leader request after a notice, and
an error is the bridge's own or came in an answer to the request. -/
theorem answered_by_own (C : Codec) (G : Gateway) (response : HandshakeResponse) {s : Link}
    (h : (link C G response).Reach (Link.Timely C response.clientId) s) :
    s.settled.map (·.result) = s.bridge.results ∧
      ∀ x ∈ s.settled, x.Answered C response.clientId s.bridge.written := by
  have hinv : s.Inv C response.clientId := by
    refine h.inv (Link.Inv C response.clientId) ?_ ?_
    · rintro _ rfl
      exact .init
    · intro s l s' _ hinv htimely hstep
      cases l with
      | bridge e cut => exact hinv.bridge htimely hstep
      | answer frames => exact hinv.answer hstep
      | announce frame => exact hinv.announce htimely hstep
  exact ⟨hinv.told, fun x hx => (hinv.settled x hx).2⟩

/-! ## A status that is late -/

/-- The status of a session without clients. -/
def sampleStatus : StatusResponse :=
  { sessionId := "s", childPid := some 12, childPgid := some 12, daemonPid := 11, childStopped := false,
    childState := .running, clients := [], scrollbackBytes := 0, lockHolder := none, cwd := "/", argv := ["sh"],
    onChildSuspend := none, daemonVersion := "0.1.0", tags := [] }

def statusBody : Bytes := cborMap [
  ("kind", cborText "status.response"), ("session-id", cborText "s"), ("child-pid", cborUint 12),
  ("child-pgid", cborUint 12), ("daemon-pid", cborUint 11), ("child-stopped", cborBool false),
  ("child-state", cborMap [("state", cborText "running")]), ("clients", cborArray []),
  ("scrollback-bytes", cborUint 0), ("cwd", cborText "/"), ("argv", cborArray [cborText "sh"]),
  ("daemon-version", cborText "0.1.0")]

/-- The codec, on a resize, the query behind it and the status that answers. -/
def resizeCodec : Codec where
  encode
    | .resize cols rows =>
      some (cborMap [("kind", cborText "resize"), ("cols", cborUint cols), ("rows", cborUint rows)])
    | .statusQuery => some (cborMap [("kind", cborText "status.query")])
    | message => message.cbor
  decode body := if body = statusBody then some (.statusResponse sampleStatus) else none
  decodeAck _ := none

/-- The browser's window is resized, and the bridge is woken for it. -/
def resizeTo (requestId cols rows : Nat) : List Link.Label := [
  .bridge (.browser (.resize requestId cols rows)) false,
  .bridge (.poll (.ready false true) (.error (.protocol (.unexpectedEof ""))) (.ok ())) false]

def statusArrives : Link.Label := .bridge (.receive (.ok (.cborControl statusBody)) (.ok ())) false

/-- The daemon handles the resize and the query, and the bridge receives the status. -/
def resizedInTime : List Link.Label :=
  resizeTo 1 80 24 ++ [.bridge (.control {}) false, .answer [], .answer [.cborControl statusBody], statusArrives]

theorem answered_by_own_resize : ∃ s : Link,
    (link resizeCodec sampleGateway sampleResponse).Reach (Link.Timely resizeCodec 1) s ∧
      s.bridge.results = [.resizeResult 1 true none] ∧
      s.settled.map (·.result) = s.bridge.results ∧
        ∀ x ∈ s.settled, x.Answered resizeCodec 1 s.bridge.written := by
  have hinit : (link resizeCodec sampleGateway sampleResponse).Reach (Link.Timely resizeCodec 1)
      { bridge := .start sampleGateway sampleResponse } := .init rfl
  obtain ⟨s, hs, hresults⟩ := hinit.exists_run resizedInTime
    (p := fun s => s.bridge.results = [.resizeResult 1 true none]) (by decide +kernel)
  exact ⟨s, hs, hresults, answered_by_own resizeCodec sampleGateway sampleResponse hs⟩

/-- The first resize is not answered within the timeout; its status comes when the window is resized again. -/
def resizedTwice : List Link.Label :=
  resizeTo 1 80 24 ++
    [.bridge (.control {}) false, .bridge (.receive (.error (.io { kind := .timedOut, message := "" })) (.ok ())) false,
      .bridge (.control {}) false] ++
    resizeTo 2 100 30 ++ [.answer [], .answer [.cborControl statusBody], .bridge (.control {}) false, statusArrives]

/-- The second resize is reported done before the daemon has handled it. -/
theorem late_status_completes_next : ∃ s : Link,
    (link resizeCodec sampleGateway sampleResponse).Reachable s ∧ s.handled = 2 ∧
      ∃ x ∈ s.settled, x.result = .resizeResult 2 true none ∧ x.since = 2 ∧
        ¬ x.Answered resizeCodec 1 s.bridge.written := by
  have hinit : (link resizeCodec sampleGateway sampleResponse).Reachable
      { bridge := .start sampleGateway sampleResponse } := .init rfl
  obtain ⟨s, hs, hhandled, x, hx, hresult, hsince, hended⟩ := hinit.exists_run resizedTwice
    (p := fun s => s.handled = 2 ∧ ∃ x ∈ s.settled, x.result = .resizeResult 2 true none ∧ x.since = 2 ∧
      Delivery.mk (.cborControl statusBody) (some 1) ∈ x.ended) (by decide +kernel)
  refine ⟨s, hs, hhandled, x, hx, hresult, hsince, fun hanswered => ?_⟩
  obtain ⟨i, hi, hle, -⟩ := hanswered.replies _ hended
  cases hi
  rw [hsince] at hle
  exact absurd hle (by decide)

end Hyoui.Web
