import Hyoui.Pieces
import Hyoui.Daemon.Output
import Hyoui.Daemon.Resume
/-!
# Followers that asked for plain text

A tail follower with `strip_ansi` is sent its snapshot stripped, and then every chunk stripped on its own: nothing
is carried over a cut, whether two reads or the snapshot and the first read meet there. What comes of it is
`strip_ansi` of the whole exactly where the cuts agree with what follows them.
-/

namespace Hyoui.Daemon

open Hyoui.Protocol Hyoui.Lib Hyoui.Strip

/-- The chunks that were read since the answer to a tail request began. -/
def Session.since (s : Session) (t : TailStart) : List Bytes := chunks (s.screen.drop t.fed)

/-- The output that the answer to a tail request covers. -/
def Session.segment (s : Session) (t : TailStart) : Bytes := t.asked ++ (s.since t).flatten

/-- Of each byte of the segment, whether it is copied where the snapshot and the chunks are stripped one by one. -/
def Session.copied (s : Session) (t : TailStart) : List Bool := copies t.asked ++ (s.since t).flatMap copies

/-- What the daemon of this world relies on: the stripper, and an encoder of tail data that takes a chunk and a
whole scrollback. -/
structure Strips (W : World) (cfg : Config) : Prop where
  stripAnsi : W.stripAnsi = Strip.stripAnsi
  encodes : ∀ (bytes : Bytes) (tsMs : Int), bytes.length ≤ max masterReadChunk cfg.scrollbackBytes →
    (W.controlFrame (.tailData bytes tsMs)).isSome = true

/-- What a follower that never overflowed was sent since its request. -/
structure Tails (s : Session) (ch : ClientHandle) : Prop where
  offered : ∀ t ∈ ch.tail, t.offered ≤ ch.offers.length
  fed : ∀ t ∈ ch.tail, t.fed ≤ s.screen.length
  asked : ∀ t ∈ ch.tail, t.asked <:+ output (s.screen.take t.fed)
  stripped : ∀ t ∈ ch.tail, ch.subscription = .tailFollow true → t.stripAnsi = true →
    ch.tailed t = Strip.stripAnsi t.asked ++ (s.since t).flatMap Strip.stripAnsi

/-- The invariant of a run. -/
structure Tailed (cfg : Config) (s : Session) : Prop where
  scrolled : Scrolled s
  ring : Ring cfg.scrollbackBytes s.scrollback
  clients : ∀ ch ∈ s.clients, ch.overflowed = false → Tails s ch

section Steps

variable {W : World} {cfg : Config} {inp : IterInput} {top : Screen} {s s' : Session} {ch ch' : ClientHandle}
  {C : List Outgoing → Prop}

theorem chunks_append (screen more : Screen) : chunks (screen ++ more) = chunks screen ++ chunks more :=
  List.filterMap_append

theorem since_append {t : TailStart} (hfed : t.fed ≤ s.screen.length) {more : Screen}
    (h : s'.screen = s.screen ++ more) : s'.since t = s.since t ++ chunks more := by
  rw [Session.since, h, List.drop_append_of_le_length hfed, chunks_append]
  rfl

/-! ## One client -/

/-- A follower is sent on, if what it was sent are the stripped chunks that were read. -/
theorem Tails.after (h : Tails s ch) (hgot : Got C ch ch') (ho : ch'.overflowed = false) {read : Screen}
    (hs : s'.screen = s.screen ++ read) (hdata : ∀ items, C items → ch.subscription = .tailFollow true →
      (items.filterMap (·.tailBytes)).flatten = (chunks read).flatMap Strip.stripAnsi) : Tails s' ch' := by
  obtain ⟨more, hmore, hC⟩ := hgot.offers
  refine ⟨fun t ht => ?_, fun t ht => ?_, fun t ht => ?_, fun t ht hsub hstrip => ?_⟩
  all_goals rw [hgot.tail] at ht
  · rw [hmore, List.length_append]
    exact Nat.le_add_right_of_le (h.offered t ht)
  · rw [hs, List.length_append]
    exact Nat.le_add_right_of_le (h.fed t ht)
  · rw [hs, List.take_append_of_le_length (h.fed t ht)]
    exact h.asked t ht
  · rw [hgot.subscription] at hsub
    rw [tailed_append hmore (h.offered t ht), h.stripped t ht hsub hstrip, hdata _ (hC ho) hsub,
      since_append (h.fed t ht) hs, List.flatMap_append, List.append_assoc]

/-- Nothing is read. -/
theorem Tails.still (h : Tails s ch) (hgot : Got C ch ch') (ho : ch'.overflowed = false) (hs : s'.screen = s.screen)
    (hdata : ∀ items, C items → items.filterMap (·.tailBytes) = []) : Tails s' ch' := by
  refine h.after hgot ho (hs.trans (List.append_nil _).symm) fun items hitems _ => ?_
  rw [hdata items hitems]
  rfl

theorem Tails.murmur (h : Tails s ch) {screen : Screen} (hgot : Got (Murmur screen) ch ch')
    (ho : ch'.overflowed = false) (hs : s'.screen = s.screen) : Tails s' ch' :=
  h.still hgot ho hs fun _ hitems => (murmur_seen hitems).2

/-- The next chunk, stripped. -/
theorem Tails.read (h : Tails s ch) (hW : Strips W cfg) {bytes : Bytes} (short : bytes.length ≤ masterReadChunk)
    (hgot : Got (Delivered W bytes ch.subscription) ch ch') (ho : ch'.overflowed = false)
    (hs : s'.screen = s.screen ++ [.process bytes]) : Tails s' ch' := by
  refine h.after hgot ho hs fun items hitems hsub => ?_
  rw [hsub] at hitems
  obtain ⟨tsMs, hitems⟩ := hitems
  have hchunk : tailChunk W true bytes tsMs = .tailData (Strip.stripAnsi bytes) tsMs := by
    rw [tailChunk, if_pos rfl, hW.stripAnsi]
  have hsent : (W.controlFrame (.tailData (Strip.stripAnsi bytes) tsMs)).isSome = true :=
    hW.encodes _ _ ((stripAnsi_length_le bytes).trans (short.trans (Nat.le_max_left _ _)))
  rw [hchunk, if_pos hsent] at hitems
  rw [hitems]
  simp only [List.filterMap_cons, List.filterMap_nil, Outgoing.tailBytes, chunks, ScreenOp.output, List.flatMap_cons,
    List.flatMap_nil, List.flatten_cons, List.flatten_nil]

theorem tailSnapshot_strip (hW : Strips W cfg) {req : TailRequest} (hstrip : req.stripAnsi = true) (bytes : Bytes) :
    tailSnapshot W req bytes = Strip.stripAnsi (tailCut req bytes) := by
  rw [tailSnapshot, if_pos hstrip, hW.stripAnsi]

/-- The snapshot arrives, or nothing is in it. -/
theorem tailSent_flatten (hW : Strips W cfg) {req : TailRequest} {bytes : Bytes}
    (hfit : (tailSnapshot W req bytes).length ≤ cfg.scrollbackBytes) (tsMs : Int) :
    (tailSent W req bytes tsMs).flatten = tailSnapshot W req bytes := by
  unfold tailSent
  split <;> rename_i hempty
  · rw [List.isEmpty_iff.1 hempty]
    rfl
  · rw [if_pos (hW.encodes _ _ (hfit.trans (Nat.le_max_right _ _))), List.flatten_singleton]

/-- The answer begins with the snapshot. -/
theorem Answered.tails (hW : Strips W cfg) (hscrolled : Scrolled s) (hring : Ring cfg.scrollbackBytes s.scrollback)
    {now : Instant} {req : TailRequest} (ha : Answered W s now req ch ch') (hs : s'.screen = s.screen) :
    Tails s' ch' := by
  obtain ⟨more, bytes, tsMs, hmore, -, hbytes, htail, hdata⟩ := ha.offers
  have hstart : ∀ t ∈ ch'.tail, t = tailStart s req bytes ch := by
    intro t ht
    rw [htail] at ht
    exact (Option.some.inj ht).symm
  have hcut : tailCut req bytes <:+ s.scrollback.stored :=
    (tailCut_suffix req bytes).trans (tailBytes_suffix hscrolled.ordered hbytes)
  refine ⟨fun t ht => ?_, fun t ht => ?_, fun t ht => ?_, fun t ht _ hstrip => ?_⟩
  all_goals rw [hstart t ht]
  · rw [hmore, List.length_append]
    exact Nat.le_add_right _ _
  · rw [hs]
    exact Nat.le_refl _
  · have hall : s'.screen.take (tailStart s req bytes ch).fed = s.screen := by
      rw [hs]
      exact List.take_length
    rw [hall]
    exact hcut.trans hscrolled.stored
  · rw [hstart t ht] at hstrip
    have hsnap : tailSnapshot W req bytes = Strip.stripAnsi (tailCut req bytes) := tailSnapshot_strip hW hstrip bytes
    have hfit : (tailSnapshot W req bytes).length ≤ cfg.scrollbackBytes := by
      rw [hsnap]
      exact (stripAnsi_length_le _).trans (hcut.length_le.trans hring.stored_le)
    have htailed : ch'.tailed (tailStart s req bytes ch) = (more.filterMap (·.item.tailBytes)).flatten := by
      rw [ClientHandle.tailed, hmore, tailStart, List.drop_left']
      rfl
    have hnone : s'.since (tailStart s req bytes ch) = [] := by
      rw [Session.since, hs, tailStart, List.drop_length]
      rfl
    rw [htailed, hdata, tailSent_flatten hW hfit, hnone, List.flatMap_nil, List.append_nil]
    exact hsnap

/-! ## One step -/

theorem Tailed.shows (h : Tailed cfg s) (hW : Strips W cfg) (hclock : ClockAhead inp s)
    (hs : Shows W inp top s s') : Tailed cfg s' := by
  refine ⟨h.scrolled.shows hclock hs, h.ring.showing (.single hs), fun ch' hch' ho => ?_⟩
  cases hs with
  | murmur hm =>
    obtain ⟨ch, hch, hgot⟩ := hm.clients ch' hch'
    exact (h.clients ch hch (hgot.before ho)).murmur hgot ho hm.screen
  | read bytes short _ clients screen _ _ =>
    obtain ⟨ch, hch, hgot⟩ := clients ch' hch'
    exact (h.clients ch hch (hgot.before ho)).read hW short hgot ho screen
  | resize rows cols clients screen _ _ =>
    have hgot : Got (· = []) ch' ch' := .same rfl rfl rfl rfl rfl
    refine (h.clients ch' (clients ▸ hch') ho).after hgot ho screen fun items hitems _ => ?_
    rw [hitems]
    rfl
  | tail now req clients screen _ _ =>
    obtain ⟨ch, hch, hgot | ha⟩ := clients ch' hch'
    · exact (h.clients ch hch (hgot.before ho)).murmur hgot ho screen
    · exact ha.tails hW h.scrolled h.ring screen
  | attach _ _ clients screen _ _ =>
    rcases clients ch' hch' with hch | hjoined
    · have hsame : Got (Murmur s.screen) ch' ch' := .refl ch'
      exact (h.clients ch' hch ho).murmur hsame ho screen
    · -- A client that has just joined has asked for nothing.
      have hnone : ∀ t, t ∉ ch'.tail := by
        intro t ht
        rw [hjoined.tail] at ht
        cases ht
      exact ⟨fun t ht => absurd ht (hnone t), fun t ht => absurd ht (hnone t), fun t ht => absurd ht (hnone t),
        fun t ht => absurd ht (hnone t)⟩
  | flush _ _ clients screen _ _ =>
    obtain ⟨ch, hch, hgot⟩ := clients ch' hch'
    refine (h.clients ch hch (hgot.before ho)).still hgot ho screen fun items hitems => ?_
    exact (murmur_seen fun item hitem => .inr (hitems.1 item hitem)).2

theorem Tailed.showing (h : Tailed cfg s) (hW : Strips W cfg) (hclock : ClockAhead inp s)
    (hs : Showing W inp top s s') : Tailed cfg s' := by
  have hboth : Tailed cfg s' ∧ ClockAhead inp s' := by
    induction hs with
    | refl => exact ⟨h, hclock⟩
    | tail _ hstep ih => exact ⟨ih.1.shows hW ih.2 hstep, ih.2.shows hstep⟩
  exact hboth.1

theorem Tailed.murmurs (h : Tailed cfg s) (hm : Murmurs s s') : Tailed cfg s' := by
  refine ⟨h.scrolled.murmurs hm, hm.scrollback ▸ h.ring, fun ch' hch' ho => ?_⟩
  obtain ⟨ch, hch, hgot⟩ := hm.clients ch' hch'
  exact (h.clients ch hch (hgot.before ho)).murmur hgot ho hm.screen

end Steps

/-! ## Runs -/

/-- The move meets a clock that has not gone back. -/
def Ticks (st : State) (mv : Move) : Prop := ClockAhead mv.input st.sess

instance (st : State) (mv : Move) : Decidable (Ticks st mv) := inferInstanceAs (Decidable (∀ _ ∈ _, _))

section Runs

variable {W : World} {cfg : Config} {st : State}

theorem loop_tailed (hW : Strips W cfg) (h : (loop W cfg).Reach Ticks st) : Tailed cfg st.sess := by
  refine h.inv (fun st => Tailed cfg st.sess) ?_ ?_
  · rintro st ⟨e, nowMs, resumeScrollback, child, -, rfl⟩
    have hinit : Tailed cfg (Session.initial cfg nowMs resumeScrollback child) :=
      ⟨initial_scrolled cfg nowMs resumeScrollback child, initial_ring cfg nowMs resumeScrollback child,
        fun ch hch => absurd hch List.not_mem_nil⟩
    exact hinit.murmurs (enterServeLoop_murmurs (W := W) cfg e _)
  · intro st mv st' hr htailed hclock hstep
    have hturn : Tailed cfg (iterate W cfg mv.input st).1.sess :=
      htailed.showing hW hclock (iterate_showing cfg mv.input (loop_ok hr))
    cases mv with
    | turn inp =>
      have hit := loop_turn hstep
      rw [Move.input, hit] at hturn
      exact hturn
    | retry inp failure e =>
      obtain ⟨st₁, hit, rfl⟩ := loop_retry hstep
      rw [Move.input, hit] at hturn
      exact hturn.murmurs (resumeServe_murmurs failure e st₁.sess)

/-- A follower was sent its segment stripped as one: what comes of the segment, up to an escape that its end cuts
off, and every byte from its own place, so that nothing of an escape is taken for text. -/
structure StrippedAsOne (s : Session) (ch : ClientHandle) (t : TailStart) : Prop where
  bytes : ch.tailed t = Strip.stripAnsi (complete (s.segment t))
  places : s.copied t = copies (s.segment t)

/-- A follower that asked for plain text was sent the bytes of the segment that the pieces copy, and they are those
of the segment stripped as one exactly where all its cuts agree. -/
theorem follower_stripped_iff (hW : Strips W cfg) (h : (loop W cfg).Reach Ticks st) {ch : ClientHandle}
    {t : TailStart} (hch : ch ∈ st.sess.clients) (ho : ch.overflowed = false) (ht : ch.tail = some t)
    (hsub : ch.subscription = .tailFollow true) (hstrip : t.stripAnsi = true) :
    st.sess.segment t <:+ output st.sess.screen ∧ ch.tailed t = select (st.sess.segment t) (st.sess.copied t) ∧
      (StrippedAsOne st.sess ch t ↔ cutsAgree t.asked (st.sess.since t) = true) := by
  have htails := (loop_tailed hW h).clients ch hch ho
  have hselect : ch.tailed t = select (st.sess.segment t) (st.sess.copied t) := by
    rw [htails.stripped t ht hsub hstrip]
    exact (select_pieces t.asked (st.sess.since t)).symm
  refine ⟨?_, hselect, ?_⟩
  · have hsplit : output st.sess.screen = output (st.sess.screen.take t.fed) ++ (st.sess.since t).flatten := by
      rw [Session.since, output, output, ← List.flatten_append, ← chunks_append, List.take_append_drop]
    obtain ⟨gone, hgone⟩ := htails.asked t ht
    exact ⟨gone, by rw [hsplit, ← hgone, List.append_assoc]; rfl⟩
  · rw [cutsAgree_iff]
    constructor
    · intro hone
      exact hone.places
    · intro hplaces
      refine ⟨?_, hplaces⟩
      rw [hselect, stripAnsi_complete, ← select_copies]
      exact congrArg (select (st.sess.segment t)) hplaces

end Runs

/-! ### Sequences that a read cuts -/

/-- Everything there is, in plain text, and what is read from now on. -/
def plainFollow : TailRequest where
  sinceMs := none
  sinceStrict := false
  follow := true
  stripAnsi := true
  lastBytes := none

def plainFollowCbor : Bytes := cborMap [
  ("kind", cborText "tail.request"), ("since-strict", cborBool false), ("follow", cborBool true),
  ("strip-ansi", cborBool true)]

/-- The world of a session with tail data that is stripped. -/
def World.plain : World :=
  { World.tailing with
    stripAnsi := Strip.stripAnsi
    decode := fun body => if body = plainFollowCbor then some (.tailRequest plainFollow) else none }

theorem plain_strips : Strips World.plain {} where
  stripAnsi := rfl
  encodes _ tsMs hshort := tailing_frame tsMs (hshort.trans (by decide))

/-- The child writes these bytes. -/
def writeMove (bytes : Bytes) : Move :=
  .turn { poll := .ready false true (fun _ => false) false, masterRead := .bytes bytes }

def followMove : Move :=
  .turn (recvInput [(0, toLeBytes (1 + plainFollowCbor.length) ++ typeCborControl :: plainFollowCbor)])

/-- A client attaches and asks between the first bytes and the others, which come in these chunks. -/
def followRun (first : Bytes) (pieces : List Bytes) : List Move :=
  attachMoves .rw [.tailV1] ++ [writeMove first, followMove] ++ pieces.map writeMove

/-- A follower that never overflowed, with its request. -/
def Follower (st : State) (ch : ClientHandle) (t : TailStart) : Prop :=
  ch ∈ st.sess.clients ∧ ch.overflowed = false ∧ ch.tail = some t ∧ ch.subscription = .tailFollow true ∧
    t.stripAnsi = true

theorem plain_reach : (loop World.plain {}).Reach Ticks
    (enterServeLoop World.plain {} {} (Session.initial {} 0 [] {})) := .init ⟨{}, 0, [], {}, rfl, rfl⟩

/-- Colours that no read cuts. -/
theorem follower_stripped_colour : ∃ st ch t, Follower st ch t ∧ ch.tailed t = [97, 98, 99] ∧
    StrippedAsOne st.sess ch t := by
  obtain ⟨st, hreach, ch, hch, t, ht, ho, hsub, hstrip, htailed, hagree⟩ := plain_reach.exists_run
    (followRun [97] [[27, 91, 51, 49, 109, 98], [27, 91, 109, 99]])
    (p := fun st => ∃ ch ∈ st.sess.clients, ∃ t ∈ ch.tail, ch.overflowed = false ∧
      ch.subscription = .tailFollow true ∧ t.stripAnsi = true ∧ ch.tailed t = [97, 98, 99] ∧
      cutsAgree t.asked (st.sess.since t) = true)
    (by decide +kernel)
  exact ⟨st, ch, t, ⟨hch, ho, ht, hsub, hstrip⟩, htailed,
    (follower_stripped_iff plain_strips hreach hch ho ht hsub hstrip).2.2.2 hagree⟩

/-- Of two colours, one cut by the request and one by a read, the rest is sent as text. -/
theorem follower_sent_escapes : ∃ st ch t, (loop World.plain {}).Reach Ticks st ∧ Follower st ch t ∧
    st.sess.segment t = [97, 27, 91, 51, 49, 109, 98, 27, 91, 109, 99] ∧
    ch.tailed t = [97, 51, 49, 109, 98, 91, 109, 99] ∧ ¬ StrippedAsOne st.sess ch t := by
  obtain ⟨st, hreach, ch, hch, t, ht, ho, hsub, hstrip, hsegment, htailed⟩ := plain_reach.exists_run
    (followRun [97, 27, 91] [[51, 49, 109, 98, 27], [91, 109, 99]])
    (p := fun st => ∃ ch ∈ st.sess.clients, ∃ t ∈ ch.tail, ch.overflowed = false ∧
      ch.subscription = .tailFollow true ∧ t.stripAnsi = true ∧
      st.sess.segment t = [97, 27, 91, 51, 49, 109, 98, 27, 91, 109, 99] ∧
      ch.tailed t = [97, 51, 49, 109, 98, 91, 109, 99])
    (by decide +kernel)
  refine ⟨st, ch, t, hreach, ⟨hch, ho, ht, hsub, hstrip⟩, hsegment, htailed, fun hone => ?_⟩
  have hbytes := hone.bytes
  rw [hsegment, htailed] at hbytes
  exact absurd hbytes (by decide +kernel)

end Hyoui.Daemon
