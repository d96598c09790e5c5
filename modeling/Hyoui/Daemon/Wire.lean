import Hyoui.Daemon.Dealings
import Hyoui.Daemon.Pristine
/-!
# What an attached client can count on

A client is only ever offered what it negotiated (`offers_negotiated`). And `wired` is the loop with
the bytes it puts on every client's socket beside it: in every run, a client that decodes what has
arrived on its socket finds the frames the daemon sent it, in order, and none of them torn or mixed
with another client's (`wire_tells_offers`).
-/

namespace Hyoui.Daemon

open Hyoui.Protocol Hyoui.Lib

/-! ## What every client keeps -/

section Clients

variable {W : World} {cfg : Config} {ok : State → Move → Prop} {st : State}

/-- The loop starts with nobody attached. -/
theorem loop_init_clients (h : (loop W cfg).init st) : st.sess.clients = [] := by
  obtain ⟨e, nowMs, resumeScrollback, child, -, rfl⟩ := h
  have hdeals : Deals W [] [] _ (enterServeLoop W cfg e (Session.initial cfg nowMs resumeScrollback child)).sess :=
    enterServeLoop_deals cfg e _
  refine List.eq_nil_iff_forall_not_mem.2 fun ch hch => ?_
  rcases hdeals.clients ch hch with ⟨ch₀, hch₀, -⟩ | ⟨ch₀, hnew, -⟩
  · cases hch₀
  · obtain ⟨req, hreq, -⟩ := hnew.handshake
    cases hreq

/-- What newcomers have and neither a pass of writes nor a dealing nor a read takes away. -/
structure Lasting (W : World) (polls : List HandshakePoll → Prop) (P : ClientHandle → Prop) : Prop where
  newcomer : ∀ {hs ch}, polls hs → Newcomer hs ch → P ch
  flush : ∀ {ch} script, P ch → P (ch.flushSend script)
  dealing : ∀ {ch ch'}, Dealing W ch ch' → P ch → P ch'
  receive : ∀ {ch} decoder, P ch → P { ch with decoder }

theorem Lasting.dealt {polls : List HandshakePoll → Prop} {P : ClientHandle → Prop} (hP : Lasting W polls P)
    {ch ch' : ClientHandle} (h : Dealt W ch ch') (hch : P ch) : P ch' := by
  induction h with
  | refl => exact hch
  | tail _ hdeal ih => exact hP.dealing hdeal ih

theorem Lasting.happened {polls : List HandshakePoll → Prop} {P : ClientHandle → Prop} (hP : Lasting W polls P)
    {ch ch' : ClientHandle} (h : Happened W ch ch') (hch : P ch) : P ch' := by
  induction h with
  | refl => exact hch
  | tail _ hstep ih =>
    cases hstep with
    | dealing hdeal => exact hP.dealing hdeal ih
    | receive decoder => exact hP.receive decoder ih

/-- In every run whose handshakes are such, every attached client has it. -/
theorem clients_last {polls : List HandshakePoll → Prop} {P : ClientHandle → Prop} (hP : Lasting W polls P)
    (h : (loop W cfg).Reach (fun _ mv => polls mv.input.handshakes) st) : ∀ ch ∈ st.sess.clients, P ch := by
  refine h.inv (fun st => ∀ ch ∈ st.sess.clients, P ch) (fun st hinit ch hch => ?_) ?_
  · rw [loop_init_clients hinit] at hch
    cases hch
  · intro st mv st' hreach hall hpolls hstep ch' hch'
    rcases (loop_happens (loop_ok hreach) hstep).clients ch' hch' with ⟨ch, hch, hdealt⟩ | ⟨ch, hnew, -, -, hdealt⟩
    · obtain ⟨ch₀, hch₀, rfl⟩ := List.mem_map.1 hch
      refine hP.happened hdealt ?_
      split
      · exact hall ch₀ hch₀
      · exact hP.flush _ (hall ch₀ hch₀)
    · exact hP.happened hdealt (hP.newcomer hpolls hnew)

end Clients

/-! ## Only what was negotiated -/

/-- All a client was offered it negotiated; and it follows the tail only if it did. -/
structure ClientHandle.Negotiated (ch : ClientHandle) : Prop where
  offers : ∀ o ∈ ch.offers, (∀ cap, o.item.capNeeded = some cap → cap ∈ ch.negotiatedCaps) ∧ o.item.isExitNotice = false
  follows : ch.subscription ≠ .raw → .tailV1 ∈ ch.negotiatedCaps

theorem ClientHandle.Negotiated.fitting {ch : ClientHandle} (h : ch.Negotiated) {item : Outgoing} (fits : item.Fitting ch) :
    (∀ cap, item.capNeeded = some cap → cap ∈ ch.negotiatedCaps) ∧ item.isExitNotice = false := by
  refine ⟨fun cap hneeds => ?_, fits.exit⟩
  rcases fits.cap cap hneeds with hcap | ⟨rfl, hfollows⟩
  · exact hcap
  · exact h.follows hfollows

theorem negotiated_snoc {ch ch' : ClientHandle} (h : ch.Negotiated) {item : Outgoing} {outcome : EnqueueOutcome}
    (fits : item.Fitting ch) (hoffers : ch'.offers = ch.offers ++ [⟨item, outcome⟩])
    (hcaps : ch'.negotiatedCaps = ch.negotiatedCaps) (hsub : ch'.subscription = ch.subscription) : ch'.Negotiated := by
  refine ⟨fun o ho => ?_, fun hne => ?_⟩
  · rw [hoffers] at ho
    rw [hcaps]
    rcases List.mem_append.1 ho with ho | ho
    · exact h.offers o ho
    · rw [List.mem_singleton.1 ho]
      exact h.fitting fits
  · rw [hcaps]
    exact h.follows (hsub ▸ hne)

theorem negotiated_lasts (W : World) : Lasting W (fun _ => True) ClientHandle.Negotiated where
  newcomer _ hnew :=
    { offers := fun o ho => by
        rw [hnew.offers] at ho
        cases ho
      follows := fun hne => absurd hnew.subscription hne }
  flush _ h := ⟨h.offers, h.follows⟩
  dealing hdeal h := by
    cases hdeal with
    | enqueue hframe fits => exact negotiated_snoc h fits rfl rfl rfl
    | enqueueIgnoringLimit hframe fits => exact negotiated_snoc h fits rfl rfl rfl
    | role _ => exact ⟨h.offers, h.follows⟩
    | follow hasked =>
      refine ⟨h.offers, fun hne => ?_⟩
      rcases hasked with hsub | hcap
      · exact h.follows (hsub ▸ hne)
      · exact hcap
  receive _ h := ⟨h.offers, h.follows⟩

/-- In every run, no attached client was ever offered a message of a capability it had not negotiated, unless that is
`data` or `lock`, nor the notice of the session's exit; and no client without the tail's capability follows the tail. -/
theorem offers_negotiated {W : World} {cfg : Config} {st : State} (h : (loop W cfg).Reachable st) {ch : ClientHandle}
    (hch : ch ∈ st.sess.clients) :
    (∀ o ∈ ch.offers, (∀ cap, o.item.cap = some cap → cap = .data ∨ cap = .lock ∨ cap ∈ ch.negotiatedCaps) ∧
      o.item.isExitNotice = false) ∧ (ch.subscription ≠ .raw → .tailV1 ∈ ch.negotiatedCaps) := by
  have hneg : ch.Negotiated := clients_last (negotiated_lasts W) (h.mono fun _ _ _ => trivial) ch hch
  refine ⟨fun o ho => ⟨fun cap hcap => ?_, (hneg.offers o ho).2⟩, hneg.follows⟩
  by_cases hfree : cap ≠ .data ∧ cap ≠ .lock
  · exact .inr (.inr ((hneg.offers o ho).1 cap (Option.filter_eq_some_iff.2 ⟨hcap, decide_eq_true hfree⟩)))
  · rw [not_and_or, not_not, not_not] at hfree
    exact hfree.imp_right .inl

/-- The client that takes the lock has not negotiated `data`, and is offered the screen all the same. -/
theorem offers_negotiated_lock : ∃ ch : ClientHandle, ch.negotiatedCaps = [.lock] ∧
    (ch.offers.map (·.item.cap)).contains (some .data) ∧
    ∀ o ∈ ch.offers, (∀ cap, o.item.cap = some cap → cap = .data ∨ cap = .lock ∨ cap ∈ ch.negotiatedCaps) ∧
      o.item.isExitNotice = false := by
  obtain ⟨st, hreach, hst⟩ := (pristineStart_reach {} {} fun _ _ => True).exists_run
    (attachMoves .rw [.lock] ++ [.turn (lockInput 0)])
    (p := fun st => st.sess.clients.map (fun ch => (ch.negotiatedCaps, (ch.offers.map (·.item.cap)).contains (some .data))) =
      [([.lock], true)]) (by decide +kernel)
  obtain ⟨ch, hch, heq⟩ := List.map_eq_singleton_iff.1 hst
  obtain ⟨hcaps, hdata⟩ := Prod.mk.inj heq
  exact ⟨ch, hcaps, hdata, (offers_negotiated hreach (hch ▸ List.mem_singleton_self ch)).1⟩

/-! ## The frames of the offers -/

/-- The frame an item is sent in, before it is encoded. -/
def Outgoing.frame (W : World) : Outgoing → Option Frame
  | .control msg => (W.encode msg).map Frame.cborControl
  | .rawAck ack => (W.encodeAck ack).map Frame.rawAck
  | .output bytes => some (Frame.rawData bytes)
  | .redraw screen => some (Frame.rawData (W.attachRedraw screen))

/-- The frame of an offer that was enqueued. -/
def Offer.sentFrame (W : World) (o : Offer) : Option Frame := if o.outcome = .sent then o.item.frame W else none

def ClientHandle.sentFrames (W : World) (ch : ClientHandle) : List Frame := ch.offers.filterMap (·.sentFrame W)

theorem encodeTo_toOption {f : Frame} {payload : Bytes} (h : f.encodeTo.toOption = some payload) :
    f.encodeTo = .ok payload := by
  cases hf : f.encodeTo with
  | error e =>
    rw [hf] at h
    cases h
  | ok wire =>
    rw [hf] at h
    exact congrArg Except.ok (Option.some.inj h)

theorem payload_frame {W : World} {item : Outgoing} {payload : Bytes} (h : item.payload W = some payload) :
    ∃ f, item.frame W = some f ∧ f.Known ∧ f.encodeTo = .ok payload := by
  cases item with
  | control msg =>
    obtain ⟨body, hbody, hwire⟩ := Option.bind_eq_some_iff.1 h
    exact ⟨_, congrArg (Option.map Frame.cborControl) hbody, rfl, encodeTo_toOption hwire⟩
  | rawAck ack =>
    obtain ⟨body, hbody, hwire⟩ := Option.bind_eq_some_iff.1 h
    exact ⟨_, congrArg (Option.map Frame.rawAck) hbody, rfl, encodeTo_toOption hwire⟩
  | output bytes => exact ⟨_, rfl, rfl, encodeTo_toOption h⟩
  | redraw screen => exact ⟨_, rfl, rfl, encodeTo_toOption h⟩

/-! ## The loop and its sockets -/

/-- What the pass of writes that opens a turn puts on a client's socket. -/
def State.writtenTo (inp : IterInput) (st : State) (id : ClientId) : Bytes :=
  match st.sess.clients.find? (·.id = id) with
  | none => []
  | some ch => if ch.sendSettled then [] else (ch.send.writeTo writeBudgetPerPass (inp.flush id)).2.2

/-- The loop, and what it has put on every attached client's socket. -/
structure Wired where
  state : State
  wire : ClientId → Bytes

def wired (W : World) (cfg : Config) : System Wired Move where
  init p := (loop W cfg).init p.state ∧ p.wire = fun _ => []
  step p mv := ((loop W cfg).step p.state mv).map fun st' =>
    { state := st', wire := fun id => p.wire id ++ p.state.writtenTo mv.input id }

/-- The client's queue and its socket hold the encodings of the frames it was sent, in order. -/
structure Carries (W : World) (wire : Bytes) (ch : ClientHandle) (accepted : List Bytes) : Prop where
  link : Link.Inv { queue := ch.send, written := wire, accepted }
  frames : Frame.Wires (ch.sentFrames W) accepted

section Wired

variable {W : World} {cfg : Config} {p : Wired} {ch ch' : ClientHandle} {wire : Bytes} {accepted : List Bytes}

theorem wired_step {mv : Move} {p' : Wired} (h : (wired W cfg).step p mv = some p') :
    (loop W cfg).step p.state mv = some p'.state ∧ p'.wire = fun id => p.wire id ++ p.state.writtenTo mv.input id := by
  obtain ⟨st', hstep, rfl⟩ := Option.map_eq_some_iff.1 h
  exact ⟨hstep, rfl⟩

/-- The wires do not touch the loop. -/
theorem wired_reachable (h : (wired W cfg).Reachable p) : (loop W cfg).Reachable p.state := by
  induction h with
  | init hinit => exact .init hinit.1
  | step _ _ hstep ih => exact .step ih trivial (wired_step hstep).1

theorem Carries.enqueued (h : Carries W wire ch accepted) {item : Outgoing} {payload : Bytes} {outcome : EnqueueOutcome}
    (hframe : item.payload W = some payload) (hoffers : ch'.offers = ch.offers ++ [⟨item, outcome⟩])
    (hlink : Link.Inv
      { queue := ch'.send, written := wire, accepted := if outcome = .sent then accepted ++ [payload] else accepted }) :
    ∃ accepted', Carries W wire ch' accepted' := by
  obtain ⟨f, hf, hknown, hencode⟩ := payload_frame hframe
  refine ⟨_, hlink, ?_⟩
  unfold ClientHandle.sentFrames
  rw [hoffers, List.filterMap_append]
  by_cases hsent : outcome = .sent
  · have hlast : [(⟨item, outcome⟩ : Offer)].filterMap (·.sentFrame W) = [f] := by
      simp only [List.filterMap_cons, List.filterMap_nil, Offer.sentFrame, if_pos hsent, hf]
    rw [hlast, if_pos hsent]
    exact List.rel_append h.frames (.cons ⟨hknown, hencode⟩ .nil)
  · have hlast : [(⟨item, outcome⟩ : Offer)].filterMap (·.sentFrame W) = [] := by
      simp only [List.filterMap_cons, List.filterMap_nil, Offer.sentFrame, if_neg hsent]
    rw [hlast, List.append_nil, if_neg hsent]
    exact h.frames

theorem Carries.dealing (h : Carries W wire ch accepted) (hdeal : Dealing W ch ch') :
    ∃ accepted', Carries W wire ch' accepted' := by
  cases hdeal with
  | enqueue hframe fits =>
    rename_i item payload
    have hlink := Link.inv_step ch.bufferLimit h.link (.enqueue payload)
    exact h.enqueued hframe rfl hlink
  | enqueueIgnoringLimit hframe fits =>
    rename_i item payload
    refine h.enqueued hframe rfl ?_
    have hlink := Link.inv_ignoringLimit h.link payload
    cases hfailed : ch.send.failed with
    | false =>
      rw [hfailed] at hlink
      rw [ClientHandle.enqueueIgnoringLimit]
      simpa [hfailed] using hlink
    | true => simpa [hfailed, ClientHandle.enqueueIgnoringLimit] using hlink
  | role _ => exact ⟨accepted, h.link, h.frames⟩
  | follow _ => exact ⟨accepted, h.link, h.frames⟩

theorem Carries.happened (h : Carries W wire ch accepted) (hhappened : Happened W ch ch') :
    ∃ accepted', Carries W wire ch' accepted' := by
  induction hhappened with
  | refl => exact ⟨accepted, h⟩
  | tail _ hstep ih =>
    obtain ⟨accepted', h'⟩ := ih
    cases hstep with
    | dealing hdeal => exact h'.dealing hdeal
    | receive _ => exact ⟨accepted', h'.link, h'.frames⟩

theorem newcomer_carries {polls : List HandshakePoll} (h : Newcomer polls ch) : Carries W [] ch [] where
  link := by
    rw [h.send]
    exact runLink_inv 0 []
  frames := by
    unfold ClientHandle.sentFrames
    rw [h.offers]
    exact .nil

theorem Carries.flushed (h : Carries W wire ch accepted) (script : List WriteResult) :
    Carries W (wire ++ (ch.send.writeTo writeBudgetPerPass script).2.2) (ch.flushSend script) accepted where
  link := Link.inv_step ch.bufferLimit h.link (.write writeBudgetPerPass script)
  frames := h.frames

/-- Every attached client's socket carries what it was sent, and nothing was written for those to come. -/
structure Wired.Ok (W : World) (p : Wired) : Prop where
  carries : ∀ ch ∈ p.state.sess.clients, ∃ accepted, Carries W (p.wire ch.id) ch accepted
  fresh : ∀ id, p.state.sess.nextClientId ≤ id → p.wire id = []

theorem State.Ok.ids_nodup {st : State} (h : st.Ok) : (st.sess.clients.map (·.id)).Nodup := by
  have hids := h.mid.sound.ids
  rwa [Session.registry, List.map_map] at hids

theorem State.Ok.id_lt {st : State} (h : st.Ok) (hch : ch ∈ st.sess.clients) : ch.id < st.sess.nextClientId :=
  h.mid.sound.fresh ch.member (List.mem_map_of_mem hch)

/-- What the pass of writes does for one client. -/
theorem flush_carries {st : State} (hok : st.Ok) (inp : IterInput) (hch : ch ∈ st.sess.clients)
    (h : Carries W wire ch accepted) :
    Carries W (wire ++ st.writtenTo inp ch.id) (if ch.sendSettled then ch else ch.flushSend (inp.flush ch.id)) accepted := by
  rw [State.writtenTo, find?_key hok.ids_nodup hch]
  dsimp only
  split
  · rwa [List.append_nil]
  · exact h.flushed _

theorem writtenTo_fresh {st : State} (hok : st.Ok) (inp : IterInput) {id : ClientId} (hid : st.sess.nextClientId ≤ id) :
    st.writtenTo inp id = [] := by
  rw [State.writtenTo, List.find?_eq_none.2]
  intro ch hch heq
  have hlt := hok.id_lt hch
  exact absurd (of_decide_eq_true heq ▸ hid) (Nat.not_le.2 hlt)

theorem wired_ok (h : (wired W cfg).Reachable p) : p.Ok W := by
  refine h.inv (Wired.Ok W) (fun p hinit => ⟨fun ch hch => ?_, fun id _ => congrFun hinit.2 id⟩) ?_
  · rw [loop_init_clients hinit.1] at hch
    cases hch
  · intro p mv p' hreach hp _ hstep
    obtain ⟨hturn, hwire⟩ := wired_step hstep
    have hok := loop_ok (wired_reachable hreach)
    have hdeals := loop_happens hok hturn
    refine ⟨fun ch' hch' => ?_, fun id hid => ?_⟩
    all_goals rw [hwire]
    · rcases hdeals.clients ch' hch' with ⟨ch, hch, hdealt⟩ | ⟨ch, hnew, hle, -, hdealt⟩
      · obtain ⟨ch₀, hch₀, rfl⟩ := List.mem_map.1 hch
        obtain ⟨accepted, hcarries⟩ := hp.carries ch₀ hch₀
        have hflushed := flush_carries hok mv.input hch₀ hcarries
        have hid : ch'.id = ch₀.id := by
          rw [hdealt.same.2]
          split <;> rfl
        rw [hid]
        exact hflushed.happened hdealt
      · have hnone : p.wire ch'.id ++ p.state.writtenTo mv.input ch'.id = [] := by
          rw [hdealt.same.2, hp.fresh _ hle, writtenTo_fresh hok _ hle]
          rfl
        dsimp only
        rw [hnone]
        exact (newcomer_carries hnew).happened hdealt
    · have hle := le_trans hdeals.nextId hid
      dsimp only
      rw [hp.fresh id hle, writtenTo_fresh hok _ hle]
      rfl

/-- In every run, what has arrived on an attached client's socket, in whatever pieces, decodes without an error to the
first of the frames the daemon sent it; and to all of them once its queue is empty and all has arrived. -/
theorem wire_tells_offers (alloc : Nat → Nat → Nat) (h : (wired W cfg).Reachable p) (hch : ch ∈ p.state.sess.clients)
    (chunks : List Bytes) (harrived : chunks.flatten <+: p.wire ch.id) :
    (decodeChunks alloc chunks).1 <+: ch.sentFrames W ∧ (∀ e, (decodeChunks alloc chunks).2 ≠ .failed e) ∧
      (ch.send.failed = false → ch.send.frames = [] → chunks.flatten = p.wire ch.id →
        decodeChunks alloc chunks = (ch.sentFrames W, .finished)) := by
  obtain ⟨accepted, hcarries⟩ := (wired_ok h).carries ch hch
  rw [decodeChunks_eq_decodeStream]
  obtain ⟨hfirst, hnoerr⟩ := hcarries.frames.decode_front (harrived.trans hcarries.link.front)
  refine ⟨hfirst, hnoerr, fun hfailed hempty hall => ?_⟩
  have hwhole : p.wire ch.id ++ ch.send.unwritten = accepted.flatten := hcarries.link.whole hfailed
  have hnone : SendQueue.unwritten ch.send = [] := by rw [SendQueue.unwritten, hempty]
  rw [hnone, List.append_nil] at hwhole
  rw [hall, hwhole]
  exact hcarries.frames.decode

/-- A client attaches; it asks for the lock in the turn that writes the first bytes to it, and the turn after that
writes the rest. -/
def wiredMoves : List Move := attachMoves .rw [.lock] ++
  [.turn { lockInput 0 with flush := fun _ => [.ok 3] }, .turn { flush := fun _ => .ok 7 :: List.replicate 5 (.ok 1000) }]

theorem wired_run : ∃ p, (wired World.pristine {}).Reachable p ∧ (p.wire 0).length > 0 ∧
    p.state.sess.clients.map (fun ch => (ch.id, ch.send.failed, ch.send.frames.length, ch.offers.length)) = [(0, false, 0, 5)] := by
  have hstart : (wired World.pristine {}).Reach (fun _ _ => True) { state := pristineStart {} {}, wire := fun _ => [] } :=
    .init ⟨⟨{}, 0, [], {}, rfl, rfl⟩, rfl⟩
  obtain ⟨p, hreach, hp⟩ := hstart.exists_run wiredMoves (p := fun p : Wired => (p.wire 0).length > 0 ∧
    p.state.sess.clients.map (fun ch => (ch.id, ch.send.failed, ch.send.frames.length, ch.offers.length)) = [(0, false, 0, 5)])
    (by decide +kernel)
  exact ⟨p, hreach, hp⟩

/-- Its socket has carried its five frames, and nothing else. -/
theorem wire_tells_offers_lock : ∃ (p : Wired) (ch : ClientHandle), p.state.sess.clients = [ch] ∧
    ch.offers.length = 5 ∧ p.wire 0 ≠ [] ∧
    decodeChunks (fun _ need => need) [p.wire 0] = (ch.sentFrames World.pristine, .finished) := by
  obtain ⟨p, hreach, hwire, hclients⟩ := wired_run
  obtain ⟨ch, hch, heq⟩ := List.map_eq_singleton_iff.1 hclients
  simp only [Prod.mk.injEq] at heq
  obtain ⟨hid, hfailed, hframes, hoffers⟩ := heq
  have hmem : ch ∈ p.state.sess.clients := hch ▸ List.mem_singleton_self ch
  have hall : [p.wire 0].flatten = p.wire ch.id := by rw [List.flatten_singleton, hid]
  exact ⟨p, ch, hch, hoffers, List.length_pos_iff.1 hwire,
    (wire_tells_offers (fun _ need => need) hreach hmem [p.wire 0] (hall ▸ List.prefix_refl _)).2.2 hfailed
      (List.length_eq_zero_iff.1 hframes) hall⟩

end Wired

end Hyoui.Daemon
