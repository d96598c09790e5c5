import Hyoui.Daemon.Pristine
import Hyoui.Daemon.Showing
/-!
# The clients and the output

What every attached client was shown of the PTY's output: a terminal has the screen once, as a
redraw, and every chunk since; a tail follower has an end of the output. The one event that breaks it
is a first redraw that does not fit in a frame: it is dropped, and the client is not listed as waiting.
-/

namespace Hyoui.Daemon

open Hyoui.Protocol Hyoui.Lib

/-- What the client was sent of the terminal stream. -/
def ClientHandle.stream (ch : ClientHandle) : List (Seen ScreenOp Bytes) := ch.offers.filterMap (·.item.seen)

/-- The bytes of the answer to a tail request: the snapshot, and the data that followed it. -/
def ClientHandle.tailed (ch : ClientHandle) (t : TailStart) : Bytes :=
  ((ch.offers.drop t.offered).filterMap (·.item.tailBytes)).flatten

/-- The output of the PTY. -/
def output (screen : Screen) : Bytes := (chunks screen).flatten

/-- A terminal that follows the screen, where the screen may be withheld during a synchronized update. -/
abbrev Watches (W : World) : Screen → List (Seen ScreenOp Bytes) → Bool → Prop :=
  Feed ScreenOp.output fun screen => W.syncInProgress screen = true

/-- What a client that never overflowed was shown. -/
structure Follows (W : World) (s : Session) (ch : ClientHandle) : Prop where
  stream : ch.subscription = .raw →
    ∃ caught, Watches W s.screen ch.stream caught ∧ (caught = false → ch.id ∈ s.pendingRedraws)
  answered : ch.subscription ≠ .raw → ch.tail.isSome = true
  offered : ∀ t ∈ ch.tail, t.offered ≤ ch.offers.length
  tail : ∀ t ∈ ch.tail, ch.subscription = .tailFollow false → t.stripAnsi = false → ch.tailed t <:+ output s.screen

/-- The scrollback keeps an end of the output, and every client that never overflowed follows it. -/
structure Followed (W : World) (s : Session) : Prop where
  stored : s.scrollback.stored <:+ output s.screen
  ordered : s.scrollback.Ordered
  clients : ∀ ch ∈ s.clients, ch.overflowed = false → Follows W s ch

/-- The first redraws that are due in a turn that began with this screen fit in a frame. -/
def DueFit (W : World) (inp : IterInput) (top : Screen) (s : Session) : Prop :=
  W.syncInProgress top = true ∨ redrawFits W top = true ∨
    ((∀ ch ∈ s.clients, ch.id ∉ s.pendingRedraws) ∧ ∀ poll ∈ inp.handshakes, poll.completes = false)

/-- The clock of the turn has not gone back. -/
def ClockAhead (inp : IterInput) (s : Session) : Prop := ∀ c ∈ s.scrollback.chunks, c.ts ≤ inp.readNow

/-- The data of one chunk always encodes. -/
def TailDataEncodes (W : World) : Prop :=
  ∀ (bytes : Bytes) (tsMs : Int), bytes.length ≤ masterReadChunk → (W.controlFrame (.tailData bytes tsMs)).isSome = true

section Steps

variable {W : World} {inp : IterInput} {top : Screen} {s s' : Session} {ch ch' : ClientHandle} {C : List Outgoing → Prop}

/-! ## One client -/

theorem stream_append {more : List Offer} (h : ch'.offers = ch.offers ++ more) :
    ch'.stream = ch.stream ++ (more.map (·.item)).filterMap (·.seen) := by
  rw [ClientHandle.stream, h, List.filterMap_append, List.filterMap_map]
  rfl

theorem tailed_append {more : List Offer} {t : TailStart} (h : ch'.offers = ch.offers ++ more)
    (ht : t.offered ≤ ch.offers.length) :
    ch'.tailed t = ch.tailed t ++ ((more.map (·.item)).filterMap (·.tailBytes)).flatten := by
  rw [ClientHandle.tailed, h, List.drop_append_of_le_length ht, List.filterMap_append, List.flatten_append,
    List.filterMap_map]
  rfl

/-- A client follows on, if what it was sent goes on with what happened to the screen. -/
theorem Follows.after (h : Follows W s ch) (hgot : Got C ch ch') (ho : ch'.overflowed = false)
    (hstream : ∀ items caught, C items → ch.subscription = .raw → Watches W s.screen ch.stream caught →
      (caught = false → ch.id ∈ s.pendingRedraws) → ∃ caught',
        Watches W s'.screen (ch.stream ++ items.filterMap (·.seen)) caught' ∧ (caught' = false → ch.id ∈ s'.pendingRedraws))
    (htail : ∀ items, C items → ch.subscription = .tailFollow false →
      output s'.screen = output s.screen ++ (items.filterMap (·.tailBytes)).flatten) : Follows W s' ch' := by
  obtain ⟨more, hmore, hC⟩ := hgot.offers
  have hitems := hC ho
  refine ⟨fun hraw => ?_, fun hsub => ?_, fun t ht => ?_, fun t ht hsub hstrip => ?_⟩
  · rw [hgot.subscription] at hraw
    obtain ⟨caught, hfeed, hwaits⟩ := h.stream hraw
    rw [stream_append hmore, hgot.id]
    exact hstream _ caught hitems hraw hfeed hwaits
  · rw [hgot.tail]
    exact h.answered (hgot.subscription ▸ hsub)
  · rw [hgot.tail] at ht
    rw [hmore, List.length_append]
    exact Nat.le_add_right_of_le (h.offered t ht)
  · rw [hgot.tail] at ht
    rw [hgot.subscription] at hsub
    rw [tailed_append hmore (h.offered t ht), htail _ hitems hsub]
    obtain ⟨gone, hgone⟩ := h.tail t ht hsub hstrip
    exact ⟨gone, by rw [← List.append_assoc, hgone]⟩

/-- Only the screen as it is, or nothing. -/
theorem murmur_seen {screen : Screen} {items : List Outgoing} (h : Murmur screen items) :
    (∀ x ∈ items.filterMap (·.seen), x = .state screen) ∧ items.filterMap (·.tailBytes) = [] := by
  constructor
  · intro x hx
    obtain ⟨item, hitem, hseen⟩ := List.mem_filterMap.1 hx
    rcases h item hitem with haside | rfl
    · rw [aside_seen haside] at hseen
      cases hseen
    · exact (Option.some.inj hseen).symm
  · refine List.filterMap_eq_nil_iff.2 fun item hitem => ?_
    rcases h item hitem with haside | rfl
    · exact aside_tailBytes haside
    · rfl

/-- Nothing happens to the output. -/
theorem Follows.murmur (h : Follows W s ch) (hgot : Got (Murmur s.screen) ch ch') (ho : ch'.overflowed = false)
    (hs : s'.screen = s.screen) (hp : ∀ id ∈ s.pendingRedraws, id ∈ s'.pendingRedraws) : Follows W s' ch' := by
  refine h.after hgot ho (fun items caught hitems _ hfeed hwaits => ?_) fun items hitems _ => ?_
  · rw [hs]
    obtain ⟨caught', hfeed', hcaught⟩ := hfeed.states (murmur_seen hitems).1
    exact ⟨caught', hfeed', fun hc => hp _ (hwaits (hcaught hc).1)⟩
  · rw [hs, (murmur_seen hitems).2, List.flatten_nil, List.append_nil]

/-! ## The answer to a tail request -/

theorem tailBytes_suffix {scrollback : Scrollback} {now : Instant} {req : TailRequest} {bytes : Bytes}
    (hord : scrollback.Ordered) (h : tailBytes scrollback now req = some bytes) : bytes <:+ scrollback.stored := by
  unfold tailBytes at h
  split at h
  · split at h
    · exact Scrollback.sinceStrict_suffix hord h
    · rw [← Option.some.inj h]
      exact Scrollback.since_suffix hord
  · split at h <;> rw [← Option.some.inj h] <;> exact Scrollback.lastNBytes_suffix

theorem tailCut_suffix (req : TailRequest) (bytes : Bytes) : tailCut req bytes <:+ bytes := by
  unfold tailCut
  split
  · split
    · exact List.drop_suffix _ _
    · exact List.suffix_refl _
  · exact List.suffix_refl _

theorem Answered.before {now : Instant} {req : TailRequest} (h : Answered W s now req ch ch')
    (ho : ch'.overflowed = false) : ch.overflowed = false := by
  obtain ⟨more, _, _, hmore, -⟩ := h.offers
  rw [ClientHandle.overflowed, hmore, List.any_append, Bool.or_eq_false_iff] at ho
  exact ho.1

/-- What a client was sent goes on before a tail request's answer. -/
theorem Follows.answer (h : Follows W s ch) (hstored : s.scrollback.stored <:+ output s.screen)
    (hord : s.scrollback.Ordered) {now : Instant} {req : TailRequest} (ha : Answered W s now req ch ch')
    (hs : s'.screen = s.screen) (hp : s'.pendingRedraws = s.pendingRedraws) : Follows W s' ch' := by
  obtain ⟨more, bytes, tsMs, hmore, hnone, hbytes, htail, hdata⟩ := ha.offers
  have hitems : (more.map (·.item)).filterMap (·.seen) = [] := by
    rw [List.filterMap_map]
    exact List.filterMap_eq_nil_iff.2 fun o ho => hnone o ho
  have hsub : ch'.subscription = .raw → ch.subscription = .raw := by
    intro hraw
    rw [ha.subscription] at hraw
    split at hraw
    · cases hraw
    · exact hraw
  have hstart : ∀ t ∈ ch'.tail, t = tailStart s req bytes ch := by
    intro t ht
    rw [htail] at ht
    exact (Option.some.inj ht).symm
  refine ⟨fun hraw => ?_, fun _ => ?_, fun t ht => ?_, fun t ht _ hstrip => ?_⟩
  · rw [stream_append hmore, hitems, List.append_nil, hs, hp, ha.id]
    exact h.stream (hsub hraw)
  · rw [htail]
    rfl
  · rw [hstart t ht, hmore, List.length_append]
    exact Nat.le_add_right _ _
  · rw [hstart t ht] at hstrip ⊢
    have htailed : ch'.tailed (tailStart s req bytes ch) = (more.filterMap (·.item.tailBytes)).flatten := by
      rw [ClientHandle.tailed, hmore, tailStart, List.drop_left']
      rfl
    have hplain : tailSnapshot W req bytes = tailCut req bytes := by
      have hstrip : req.stripAnsi = false := hstrip
      simp only [tailSnapshot, hstrip, Bool.false_eq_true, if_false]
    rw [htailed, hs, hdata, tailSent, hplain]
    have hcut := (tailCut_suffix req bytes).trans ((tailBytes_suffix hord hbytes).trans hstored)
    split
    · exact List.nil_suffix
    · split
      · rw [List.flatten_singleton]
        exact hcut
      · exact List.nil_suffix

/-! ## One step -/

/-- The next chunk goes to every terminal that has caught up; the others wait, and no update has ended. -/
theorem Follows.read (h : Follows W s ch) (henc : TailDataEncodes W) {bytes : Bytes}
    (short : bytes.length ≤ masterReadChunk) (hflushed : Flushed W s)
    (hgot : Got (Delivered W bytes ch.subscription) ch ch') (ho : ch'.overflowed = false)
    (hs : s'.screen = s.screen ++ [.process bytes]) (hp : s'.pendingRedraws = s.pendingRedraws) : Follows W s' ch' := by
  refine h.after hgot ho (fun items caught hitems hraw hfeed hwaits => ?_) fun items hitems hsub => ?_
  · rw [hraw] at hitems
    obtain rfl : items = [.output bytes] := hitems
    refine ⟨caught, ?_, by rw [hp]; exact hwaits⟩
    rw [hs]
    refine hfeed.emitted rfl ?_
    cases caught with
    | true => exact .inl rfl
    | false =>
      refine .inr (hflushed.resolve_right fun hnil => ?_)
      have := hwaits rfl
      rw [hnil] at this
      exact absurd this List.not_mem_nil
  · rw [hsub] at hitems
    obtain ⟨tsMs, hitems⟩ := hitems
    have hsent : (W.controlFrame (tailChunk W false bytes tsMs)).isSome = true := henc bytes tsMs short
    rw [if_pos hsent] at hitems
    subst hitems
    simp [hs, output, chunks, ScreenOp.output, Outgoing.tailBytes, tailChunk]

/-- The size of the screen is no output. -/
theorem Follows.resize (h : Follows W s ch) {rows cols : Nat} (ho : ch.overflowed = false)
    (hs : s'.screen = s.screen ++ [.resize rows cols]) (hp : s'.pendingRedraws = s.pendingRedraws) : Follows W s' ch := by
  refine h.after (C := (· = [])) (.same rfl rfl rfl rfl rfl) ho (fun items caught hitems _ hfeed hwaits => ?_)
    fun items hitems _ => ?_
  · subst hitems
    rw [hs, hp, List.filterMap_nil, List.append_nil]
    exact ⟨caught, hfeed.silent rfl, hwaits⟩
  · subst hitems
    simp [hs, output, chunks, ScreenOp.output]

/-- Whoever joins while the screen fits in a frame is sent it, or waits. -/
theorem Joined.follows (h : Joined W s s' ch') (hfits : W.syncInProgress s.screen = true ∨ redrawFits W s.screen = true)
    (hs : s'.screen = s.screen) : Follows W s' ch' := by
  obtain ⟨before, haside, hitems⟩ := h.offers
  have hstream : ch'.stream =
      if W.syncInProgress s.screen = false ∧ redrawFits W s.screen = true then [.state s.screen] else [] := by
    have hnone : before.filterMap (·.seen) = [] :=
      List.filterMap_eq_nil_iff.2 fun item hitem => aside_seen (haside item hitem)
    have hmap : ch'.stream = (ch'.offers.map (·.item)).filterMap (·.seen) := by
      rw [List.filterMap_map]
      rfl
    rw [hmap, hitems, List.filterMap_append, hnone, List.nil_append]
    split <;> rfl
  refine ⟨fun _ => ?_, fun hsub => absurd h.subscription hsub, fun t ht => ?_, fun t ht => ?_⟩
  · rw [hstream, hs]
    cases hsync : W.syncInProgress s.screen with
    | true => exact ⟨false, by simpa using Feed.join _, fun _ => h.waits hsync⟩
    | false =>
      have hfit := hfits.resolve_left (by rw [hsync]; decide)
      rw [if_pos ⟨rfl, hfit⟩]
      refine ⟨true, ?_, fun hc => nomatch hc⟩
      simpa using (Feed.join s.screen).state
  · rw [h.tail] at ht
    cases ht
  · rw [h.tail] at ht
    cases ht

/-- The first redraw that was due reaches the client that waits for it. -/
theorem Follows.flush (h : Follows W s ch) (hfits : ch.id ∈ s.pendingRedraws → redrawFits W s.screen = true)
    (hgot : Got (Redrawn W s ch.id) ch ch') (ho : ch'.overflowed = false) (hs : s'.screen = s.screen) :
    Follows W s' ch' := by
  have hmurmur : ∀ items : List Outgoing, (∀ item ∈ items, item = .redraw s.screen) → Murmur s.screen items :=
    fun items hitems item hitem => .inr (hitems item hitem)
  refine h.after hgot ho (fun items caught hitems _ hfeed hwaits => ?_) fun items hitems _ => ?_
  · rw [hs]
    obtain ⟨caught', hfeed', hcaught⟩ := hfeed.states (murmur_seen (hmurmur items hitems.1)).1
    refine ⟨caught', hfeed', fun hc => ?_⟩
    obtain ⟨hearlier, hnil⟩ := hcaught hc
    have hmem := hwaits hearlier
    -- it was listed, so it was sent the screen
    obtain ⟨item, hitem⟩ := List.exists_mem_of_ne_nil _ (hitems.2 hmem (hfits hmem))
    have hseen : Seen.state s.screen ∈ items.filterMap (·.seen) :=
      List.mem_filterMap.2 ⟨item, hitem, by rw [hitems.1 item hitem]; rfl⟩
    rw [hnil] at hseen
    exact absurd hseen List.not_mem_nil
  · rw [hs, (murmur_seen (hmurmur items hitems.1)).2, List.flatten_nil, List.append_nil]

/-- The clock of the turn stays ahead. -/
theorem ClockAhead.shows (h : ClockAhead inp s) (hs : Shows W inp top s s') : ClockAhead inp s' := by
  have hkept : s'.scrollback = s.scrollback → ClockAhead inp s' := by
    intro hb
    rw [ClockAhead, hb]
    exact h
  cases hs with
  | murmur hm => exact hkept hm.scrollback
  | read bytes _ _ _ _ scrollback _ =>
    intro c hc
    rw [scrollback] at hc
    rcases Scrollback.push_mem hc with hc | rfl
    · exact h c hc
    · exact Nat.le_refl _
  | resize _ _ _ _ scrollback _ | tail _ _ _ _ scrollback _ | attach _ _ _ _ scrollback _
  | flush _ _ _ _ scrollback _ => exact hkept scrollback

/-- The scrollback keeps an end of the output, in order. -/
structure Scrolled (s : Session) : Prop where
  stored : s.scrollback.stored <:+ output s.screen
  ordered : s.scrollback.Ordered

theorem Scrolled.same (h : Scrolled s) (hscreen : s'.screen = s.screen) (hscrollback : s'.scrollback = s.scrollback) :
    Scrolled s' := by
  constructor
  · rw [hscreen, hscrollback]
    exact h.stored
  · rw [hscrollback]
    exact h.ordered

theorem Scrolled.shows (h : Scrolled s) (hclock : ClockAhead inp s) (hs : Shows W inp top s s') : Scrolled s' := by
  cases hs with
  | murmur hm => exact h.same hm.screen hm.scrollback
  | read bytes _ _ _ screen scrollback _ =>
    constructor
    · rw [scrollback, screen]
      obtain ⟨gone, hgone⟩ := h.stored
      refine Scrollback.stored_push_suffix.trans ⟨gone, ?_⟩
      simp [← List.append_assoc, hgone, output, chunks, ScreenOp.output]
    · rw [scrollback]
      exact h.ordered.push hclock
  | resize rows cols _ screen scrollback _ =>
    have houtput : output s'.screen = output s.screen := by simp [screen, output, chunks, ScreenOp.output]
    constructor
    · rw [houtput, scrollback]
      exact h.stored
    · rw [scrollback]
      exact h.ordered
  | tail _ _ _ screen scrollback _ | attach _ _ _ screen scrollback _ | flush _ _ _ screen scrollback _ =>
    exact h.same screen scrollback

theorem Scrolled.murmurs (h : Scrolled s) (hm : Murmurs s s') : Scrolled s' := h.same hm.screen hm.scrollback

/-- What a step needs of the turn it is part of. -/
structure Fit (W : World) (inp : IterInput) (top : Screen) (s : Session) : Prop where
  due : DueFit W inp top s
  clock : ClockAhead inp s

theorem Fit.shows (h : Fit W inp top s) (hs : Shows W inp top s s') : Fit W inp top s' := by
  have hlisted : ∀ {s'' : Session}, (∀ ch' ∈ s''.clients, ∃ ch ∈ s.clients, ch'.id = ch.id) →
      s''.pendingRedraws = s.pendingRedraws → DueFit W inp top s'' := by
    intro s'' hc hp
    refine h.due.imp_right (Or.imp_right fun ⟨hnone, hpolls⟩ => ⟨fun ch' hch' => ?_, hpolls⟩)
    obtain ⟨ch, hch, hid⟩ := hc ch' hch'
    rw [hid, hp]
    exact hnone ch hch
  refine ⟨?_, h.clock.shows hs⟩
  cases hs with
  | murmur hm =>
    refine hlisted (fun ch' hch' => ?_) hm.pendingRedraws
    obtain ⟨ch, hch, hgot⟩ := hm.clients ch' hch'
    exact ⟨ch, hch, hgot.id⟩
  | read bytes _ _ clients _ _ pendingRedraws =>
    refine hlisted (fun ch' hch' => ?_) pendingRedraws
    obtain ⟨ch, hch, hgot⟩ := clients ch' hch'
    exact ⟨ch, hch, hgot.id⟩
  | resize _ _ clients _ _ pendingRedraws =>
    exact hlisted (fun ch' hch' => ⟨ch', clients ▸ hch', rfl⟩) pendingRedraws
  | tail _ _ clients _ _ pendingRedraws =>
    refine hlisted (fun ch' hch' => ?_) pendingRedraws
    obtain ⟨ch, hch, hgot | ha⟩ := clients ch' hch'
    · exact ⟨ch, hch, hgot.id⟩
    · exact ⟨ch, hch, ha.id⟩
  | attach _ completed _ _ _ _ =>
    refine h.due.imp_right (Or.imp_right fun ⟨_, hpolls⟩ => ?_)
    obtain ⟨poll, hpoll, hdone⟩ := completed
    rw [hpolls poll hpoll] at hdone
    cases hdone
  | flush _ _ _ _ _ pendingRedraws =>
    refine h.due.imp_right (Or.imp_right fun ⟨_, hpolls⟩ => ⟨fun ch' _ => ?_, hpolls⟩)
    rw [pendingRedraws]
    exact List.not_mem_nil

/-- Where the first redraws that are due fit in a frame, every step leaves the clients following the output. -/
theorem Followed.shows (h : Followed W s) (henc : TailDataEncodes W) (hfit : Fit W inp top s)
    (hs : Shows W inp top s s') : Followed W s' := by
  obtain ⟨hstored, hordered⟩ := Scrolled.shows ⟨h.stored, h.ordered⟩ hfit.clock hs
  refine ⟨hstored, hordered, fun ch' hch' ho => ?_⟩
  cases hs with
  | murmur hm =>
    obtain ⟨ch, hch, hgot⟩ := hm.clients ch' hch'
    exact (h.clients ch hch (hgot.before ho)).murmur hgot ho hm.screen fun id hid => hm.pendingRedraws ▸ hid
  | read bytes short flushed clients screen scrollback pendingRedraws =>
    obtain ⟨ch, hch, hgot⟩ := clients ch' hch'
    exact (h.clients ch hch (hgot.before ho)).read henc short flushed hgot ho screen pendingRedraws
  | resize rows cols clients screen scrollback pendingRedraws =>
    exact (h.clients ch' (clients ▸ hch') ho).resize ho screen pendingRedraws
  | tail now req clients screen scrollback pendingRedraws =>
    obtain ⟨ch, hch, hgot | ha⟩ := clients ch' hch'
    · exact (h.clients ch hch (hgot.before ho)).murmur hgot ho screen fun id hid => pendingRedraws ▸ hid
    · exact (h.clients ch hch (ha.before ho)).answer h.stored h.ordered ha screen pendingRedraws
  | attach early completed clients screen scrollback pendingRedraws =>
    rcases clients ch' hch' with hch | hjoined
    · exact (h.clients ch' hch ho).murmur (.refl ch') ho screen pendingRedraws
    · refine hjoined.follows ?_ screen
      rw [early]
      refine hfit.due.imp_right fun hfits => hfits.resolve_right fun ⟨_, hpolls⟩ => ?_
      obtain ⟨poll, hpoll, hdone⟩ := completed
      rw [hpolls poll hpoll] at hdone
      cases hdone
  | flush early synced clients screen scrollback pendingRedraws =>
    obtain ⟨ch, hch, hgot⟩ := clients ch' hch'
    refine (h.clients ch hch (hgot.before ho)).flush (fun hmem => ?_) hgot ho screen
    rw [early]
    refine (hfit.due.resolve_left fun hsync => ?_).resolve_right fun ⟨hnone, _⟩ => hnone ch hch hmem
    rw [early, hsync] at synced
    cases synced

theorem Followed.showing (h : Followed W s) (henc : TailDataEncodes W) (hfit : Fit W inp top s)
    (hs : Showing W inp top s s') : Followed W s' := by
  have hboth : Followed W s' ∧ Fit W inp top s' := by
    induction hs with
    | refl => exact ⟨h, hfit⟩
    | tail _ hstep ih => exact ⟨ih.1.shows henc ih.2 hstep, ih.2.shows hstep⟩
  exact hboth.1

theorem Followed.murmurs (h : Followed W s) (hm : Murmurs s s') : Followed W s' := by
  obtain ⟨hstored, hordered⟩ := Scrolled.murmurs ⟨h.stored, h.ordered⟩ hm
  refine ⟨hstored, hordered, fun ch' hch' ho => ?_⟩
  obtain ⟨ch, hch, hgot⟩ := hm.clients ch' hch'
  exact (h.clients ch hch (hgot.before ho)).murmur hgot ho hm.screen fun id hid => hm.pendingRedraws ▸ hid

end Steps

/-! ## Runs -/

/-- The move meets a clock that has not gone back, and the first redraws that are due in it fit in a frame. -/
def RedrawsFit (W : World) (st : State) (mv : Move) : Prop :=
  ClockAhead mv.input st.sess ∧ DueFit W mv.input st.sess.screen st.sess

section Runs

variable {W : World} {cfg : Config} {st : State}

theorem initial_scrolled (cfg : Config) (nowMs : Instant) (resumeScrollback : Bytes) (child : ChildProcess) :
    Scrolled (Session.initial cfg nowMs resumeScrollback child) := by
  constructor
  · simp only [Session.initial]
    split
    · exact List.nil_suffix
    · refine Scrollback.stored_push_suffix.trans ?_
      simp [Scrollback.stored, output, chunks, ScreenOp.output]
  · simp only [Session.initial]
    split
    · exact List.Pairwise.nil
    · exact Scrollback.Ordered.push List.Pairwise.nil fun c hc => absurd hc List.not_mem_nil

theorem initial_followed (cfg : Config) (nowMs : Instant) (resumeScrollback : Bytes) (child : ChildProcess) :
    Followed W (Session.initial cfg nowMs resumeScrollback child) := by
  obtain ⟨hstored, hordered⟩ := initial_scrolled cfg nowMs resumeScrollback child
  exact ⟨hstored, hordered, fun ch hch => absurd hch List.not_mem_nil⟩

theorem loop_followed (henc : TailDataEncodes W) (h : (loop W cfg).Reach (RedrawsFit W) st) : Followed W st.sess := by
  refine h.inv (fun st => Followed W st.sess) ?_ ?_
  · rintro st ⟨e, nowMs, resumeScrollback, child, -, rfl⟩
    exact (initial_followed cfg nowMs resumeScrollback child).murmurs (enterServeLoop_murmurs cfg e _)
  · intro st mv st' hr hfollowed ⟨hclock, hdue⟩ hstep
    have hturn : Followed W (iterate W cfg mv.input st).1.sess :=
      hfollowed.showing henc ⟨hdue, hclock⟩ (iterate_showing cfg mv.input (loop_ok hr))
    cases mv with
    | turn inp =>
      have hit := loop_turn hstep
      rw [Move.input, hit] at hturn
      exact hturn
    | retry inp failure e =>
      obtain ⟨st₁, hit, rfl⟩ := loop_retry hstep
      rw [Move.input, hit] at hturn
      exact hturn.murmurs (resumeServe_murmurs failure e st₁.sess)

/-- What an attached client that never overflowed was shown of the output. -/
structure Shown (W : World) (st : State) (ch : ClientHandle) : Prop where
  /-- After its latest redraw a terminal was sent the chunks read since, in order, each once. -/
  since : ch.subscription = .raw → ∀ before pre after, ch.stream = before ++ .state pre :: after →
    (∀ x ∈ after, x.isState = false) → ∃ post, st.sess.screen = pre ++ post ∧ after = (chunks post).map .entry
  waits : ch.subscription = .raw → (∀ x ∈ ch.stream, x.isState = false) → ch.id ∈ st.sess.pendingRedraws
  /-- A chunk that came before the first redraw was read in the middle of a synchronized update. -/
  held : ch.subscription = .raw → ∀ before bytes after, ch.stream = before ++ .entry bytes :: after →
    (∀ x ∈ before, x.isState = false) →
    ∃ pre post, st.sess.screen = pre ++ .process bytes :: post ∧ W.syncInProgress pre = true
  /-- A tail follower has asked, and what it was answered is an end of the output. -/
  tail : ∀ strip, ch.subscription = .tailFollow strip → ∃ t, ch.tail = some t ∧
    (strip = false → t.stripAnsi = false → ch.tailed t <:+ output st.sess.screen)
  sent : ch.send.failed = false → ∀ o ∈ ch.offers, o.outcome = .sent

theorem Follows.shown {ch : ClientHandle} (h : Follows W st.sess ch)
    (hsent : ch.send.failed = false → ∀ o ∈ ch.offers, o.outcome = .sent) : Shown W st ch where
  since hraw before pre after hstream hlast := by
    obtain ⟨caught, hfeed, -⟩ := h.stream hraw
    exact hfeed.after_state hstream hlast
  waits hraw hnone := by
    obtain ⟨caught, hfeed, hwaits⟩ := h.stream hraw
    refine hwaits ?_
    cases caught with
    | false => rfl
    | true =>
      obtain ⟨x, hx, hstate⟩ := hfeed.caught_iff.1 rfl
      rw [hnone x hx] at hstate
      cases hstate
  held hraw before bytes after hstream hnone := by
    obtain ⟨caught, hfeed, -⟩ := h.stream hraw
    obtain ⟨pre, op, post, hscreen, hop, hheld, -⟩ := hfeed.entry_held hstream hnone
    cases op with
    | process read =>
      cases hop
      exact ⟨pre, post, hscreen, hheld⟩
    | resize => cases hop
  tail strip hsub := by
    obtain ⟨t, ht⟩ := Option.isSome_iff_exists.1 (h.answered (by rw [hsub]; exact Subscription.noConfusion))
    refine ⟨t, ht, fun hstrip hplain => h.tail t ht ?_ hplain⟩
    rw [hsub, hstrip]
  sent := hsent

/-- In a run in which the first redraws that are due fit in a frame, every attached client that never
overflowed was shown the output from its redraw, or from its tail request, on. -/
theorem clients_shown (henc : TailDataEncodes W) (h : (loop W cfg).Reach (RedrawsFit W) st) {ch : ClientHandle}
    (hch : ch ∈ st.sess.clients) (ho : ch.overflowed = false) : Shown W st ch :=
  ((loop_followed henc h).clients ch hch ho).shown (offers_sent h hch ho)

end Runs

/-! ### A terminal that reads along -/

instance (W : World) (inp : IterInput) (top : Screen) (s : Session) : Decidable (DueFit W inp top s) :=
  inferInstanceAs (Decidable (_ ∨ _ ∨ (∀ _ ∈ _, _) ∧ ∀ _ ∈ _, _))

instance (W : World) (st : State) (mv : Move) : Decidable (RedrawsFit W st mv) :=
  inferInstanceAs (Decidable ((∀ _ ∈ _, _) ∧ DueFit ..))

def cborInt (n : Int) : Bytes :=
  match n with
  | .ofNat n => cborHead 0 n
  | .negSucc n => cborHead 1 n

def tailDataCbor (bytes : Bytes) (timestampMs : Int) : Bytes := cborMap [
  ("kind", cborText "tail.data"), ("bytes", cborHead 2 bytes.length ++ bytes), ("timestamp-ms", cborInt timestampMs)]

/-- The world of a pristine session, with tail data. -/
def World.tailing : World :=
  { World.pristine with
    encode := fun
      | .tailData bytes timestampMs => some (tailDataCbor bytes timestampMs)
      | msg => msg.cbor }

theorem tailing_frame {bytes : Bytes} (tsMs : Int) (h : bytes.length ≤ 1024 * 1024) :
    (World.tailing.controlFrame (.tailData bytes tsMs)).isSome = true := by
  have hbody : World.tailing.encode (.tailData bytes tsMs) = some (tailDataCbor bytes tsMs) := rfl
  refine controlFrame_isSome hbody ?_
  have hkind : (cborText "kind").length = 5 := by decide +kernel
  have htail : (cborText "tail.data").length = 10 := by decide +kernel
  have hdata : (cborText "bytes").length = 6 := by decide +kernel
  have hstamp : (cborText "timestamp-ms").length = 13 := by decide +kernel
  have hint : (cborInt tsMs).length ≤ 9 := by
    cases tsMs <;> exact cborHead_length _ _
  have hhead := cborHead_length 2 bytes.length
  have hmap := cborHead_length 5 3
  have hmax : maxFrameSize = 16777216 := rfl
  simp [Frame.Fits, Frame.cborControl, tailDataCbor, cborMap, hkind, htail, hdata, hstamp]
  omega

theorem tailing_encodes : TailDataEncodes World.tailing :=
  fun _ tsMs hshort => tailing_frame tsMs (hshort.trans (by decide))

/-- The child writes a byte. -/
def readInput : IterInput where
  poll := .ready false true (fun _ => false) false
  masterRead := .bytes [97]

theorem clients_shown_byte : ∃ st : State, ∃ ch ∈ st.sess.clients,
    ch.stream = [.state [], .entry [97]] ∧ Shown World.tailing st ch := by
  have hinit : (loop World.tailing {}).Reach (RedrawsFit World.tailing)
      (enterServeLoop World.tailing {} {} (Session.initial {} 0 [] {})) := .init ⟨{}, 0, [], {}, rfl, rfl⟩
  obtain ⟨st, hreach, ch, hch, ho, hstream⟩ := hinit.exists_run (attachMoves .rw [] ++ [.turn readInput])
    (p := fun st => ∃ ch ∈ st.sess.clients, ch.overflowed = false ∧ ch.stream = [.state [], .entry [97]])
    (by decide +kernel)
  exact ⟨st, ch, hch, hstream, clients_shown tailing_encodes hreach hch ho⟩

/-! ### A redraw that does not fit -/

theorem encodeTo_oversized {f : Frame} (h : maxFrameSize ≤ f.body.length) : f.encodeTo.toOption = none := by
  have hlarge : f.body.length + 1 > maxFrameSize := Nat.lt_succ_of_le h
  simp only [Frame.encodeTo]
  by_cases hword : 2 ^ 64 ≤ f.body.length + 1
  · rw [if_pos hword]
    rfl
  · rw [if_neg hword, if_pos hlarge]
    rfl

theorem ok_of_mem {ε α : Type} {e : Except ε α} {a : α} (h : a ∈ e.toOption) : e = .ok a := by
  cases e with
  | ok b => exact congrArg _ (Option.some.inj h)
  | error => cases h

/-- A client whose redraw does not fit joins the list without one. -/
theorem attachClient_unfit {W : World} {s : Session} {d : DaemonState} (overflowIds : List ClientId)
    (accepted : AcceptedClient) (hframe : attachRedrawFrame W s.screen = none)
    (hsync : W.syncInProgress s.screen = false) (hfree : d.lock.holder = none)
    (hplain : accepted.becameLeader = false) :
    (attachClient W s d overflowIds accepted).1.clients = s.clients ++ [accepted.handle] ∧
      (attachClient W s d overflowIds accepted).1.pendingRedraws = s.pendingRedraws ∧
      (attachClient W s d overflowIds accepted).2 = overflowIds := by
  simp [attachClient, noticeLocked, hfree, hsync, sendInitialAttachRedraw, hframe, hplain, Session.pushLifecycle,
    Session.logs]

/-- A timeout in which a handshake is complete and the redraw does not fit. -/
theorem handshake_unfit {W : World} {cfg : Config} {inp : IterInput} {st : State} {w : Work}
    {entry : PendingHandshake} {req : HandshakeRequest} {caps : List Cap} {accepted : AcceptedClient}
    (hpoll : inp.poll = .timeout) (hready : inp.handshakes = [.ready req caps true])
    (hbefore : beforePoll cfg inp st = .ok w) (hpending : w.loc.pendingHandshakes = [entry])
    (hpipe : w.loc.sigchldPipe = true) (hruns : w.loc.lifecycle.stopped = false) (hnobody : w.sess.clients = [])
    (hover : w.overflow = []) (hredraws : w.sess.pendingRedraws = [])
    (haccepted : finalizeAcceptedClient W cfg req caps true w.sess.nextClientId [] 0 w.sess.childStopped
      inp.handshakeNow inp.unixMs = .ok accepted)
    (hstay : accepted.detachOthers = false) (hplain : accepted.becameLeader = false)
    (hframe : attachRedrawFrame W w.sess.screen = none) (hsync : W.syncInProgress w.sess.screen = false)
    (hfree : w.loc.daemonState.lock.holder = none) :
    ∃ st', iterate W cfg inp st = (st', none) ∧ st'.sess.clients = [accepted.handle] ∧
      st'.sess.pendingRedraws = [] := by
  obtain ⟨hclients, hlisted, hnone⟩ :=
    attachClient_unfit [] accepted hframe hsync hfree hplain
  rw [hnobody, List.nil_append] at hclients
  rw [hredraws] at hlisted
  have hobserve : w.timeoutObserve W cfg inp = w := by
    simp [Work.timeoutObserve, hpipe, hruns]
  have hstage : beforeFrames W cfg inp st = .tick (w.handshakes W cfg inp) := by
    simp [beforeFrames, hbefore, Work.afterPoll, hpoll, hnobody, hobserve]
  refine ⟨_, by simp only [iterate, hstage]; rfl, ?_⟩
  simp [Work.handshakes, hpending, hready, processPendingHandshakes, hnobody, haccepted,
    hstay, hover, hnone, flushPendingRedraws, hlisted, Session.indicesOf, descending, dropSilently, hclients]

/-- The world of a session whose screen takes more than a frame to redraw. -/
def World.vast : World := { World.pristine with attachRedraw := fun _ => List.replicate maxFrameSize 0 }

theorem vast_redraw (screen : Screen) : attachRedrawFrame World.vast screen = none :=
  encodeTo_oversized (f := Frame.rawData (List.replicate maxFrameSize 0)) (List.length_replicate ..).ge

/-- A terminal attaches, and its only redraw is dropped: it is shown nothing, and is not listed for another. -/
theorem vast_redraw_dropped : ∃ st, (loop World.vast {}).Reachable st ∧ ∃ ch ∈ st.sess.clients,
    ch.overflowed = false ∧ ch.subscription = .raw ∧ ch.stream = [] ∧ ch.id ∉ st.sess.pendingRedraws ∧
      ¬ Shown World.vast st ch := by
  have hinit : (loop World.vast {}).Reachable (enterServeLoop World.vast {} {} (Session.initial {} 0 [] {})) :=
    .init ⟨{}, 0, [], {}, rfl, rfl⟩
  let inp := handshakeInput .ro []
  obtain ⟨st, hreach, w, hbefore, ⟨hpending, hpipe, hruns, hnobody, hover, hredraws, hfree⟩, accepted, haccepted,
      hstay, hplain, ho, hsub, hstream⟩ := hinit.exists_run [.turn acceptInput]
    (p := fun st => ∃ w ∈ (beforePoll {} inp st).toOption,
      (w.loc.pendingHandshakes = [⟨0⟩] ∧ w.loc.sigchldPipe = true ∧ w.loc.lifecycle.stopped = false ∧
        w.sess.clients = [] ∧ w.overflow = [] ∧ w.sess.pendingRedraws = [] ∧
        w.loc.daemonState.lock.holder = none) ∧
      ∃ accepted ∈ (finalizeAcceptedClient World.vast {} (handshakeRequest .ro []) [] true w.sess.nextClientId [] 0
          w.sess.childStopped inp.handshakeNow inp.unixMs).toOption,
        accepted.detachOthers = false ∧ accepted.becameLeader = false ∧ accepted.handle.overflowed = false ∧
          accepted.handle.subscription = .raw ∧ accepted.handle.stream = [])
    (by decide +kernel)
  obtain ⟨st', hit, hclients, hlisted⟩ := handshake_unfit rfl rfl (ok_of_mem hbefore) hpending hpipe hruns hnobody hover
    hredraws (ok_of_mem haccepted) hstay hplain (vast_redraw _) rfl hfree
  have hunlisted : accepted.handle.id ∉ st'.sess.pendingRedraws := by
    rw [hlisted]
    exact List.not_mem_nil
  have hstep : (loop World.vast {}).step st (.turn inp) = some st' := by
    simp only [loop, inp, hit]
  refine ⟨st', hreach.step trivial hstep, accepted.handle, ?_, ho, hsub, hstream, hunlisted,
    fun hshown => hunlisted (hshown.waits hsub ?_)⟩
  · rw [hclients]
    exact List.mem_singleton_self _
  · rw [hstream]
    exact fun x hx => absurd hx List.not_mem_nil

end Hyoui.Daemon
