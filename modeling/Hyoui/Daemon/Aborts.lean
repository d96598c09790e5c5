import Hyoui.Daemon.RecordFile
import Hyoui.Lib.Transition
/-!
# Records that are aborted

A sink that refuses an event is taken out of the registry, and the others get a notice. Nothing is done where one
of them refuses the notice, and nothing keeps the notice from a sink that has refused the event too and is still to
be taken out. Where neither happens, every file holds what its sink was offered first, without a gap.
-/

namespace Hyoui.Daemon.Record

open Hyoui.Protocol Hyoui.Lib RecordRegistry

/-! ## Calls -/

/-- The event that a call has for a sink. -/
def Call.event (c : Call) (s : RecordSink) : Option RecordEvent :=
  let stdin e := if takesStdin s.direction then some e else none
  let typed e := if s.inputSecrecy = .neverRecordStdin then none else stdin e
  match c with
  | .bytesIn clientId bytes => if bytes.isEmpty then none else typed (.bytesIn clientId bytes)
  | .bytesOut bytes => if bytes.isEmpty then none else if takesStdout s.direction then some (.bytesOut bytes) else none
  | .inRejected clientId mode holder reason bytes => typed (.inRejected clientId mode holder reason bytes)
  | .inWriteError clientId requested written error bytes => typed (.inWriteError clientId requested written error bytes)
  | .inSecretRedacted clientId byteCount reason => stdin (.inSecretRedacted clientId byteCount reason)
  | .lifecycle e => some (.lifecycle e)
  | .start .. | .stop _ | .stopAll | .writer .. => none

/-- The sinks after the event of a call was pushed to them, and the ids of those that refused it. -/
def pushed (r : RecordRegistry) (m : Move) : List RecordSink × List Nat :=
  pushEach m.call.event (m.answers.clock 0) (m.answers.waits 0) r.sinks

/-- A call that pushes an event. -/
def Call.pushes : Call → Bool
  | .start .. | .stop _ | .stopAll | .writer .. => false
  | _ => true

/-- A push is made to every sink that has the event, and those that refuse it are retired. -/
theorem step_pushed {r : RecordRegistry} {m : Move} (h : m.call.pushes = true) :
    step r m = retire m.answers 1 (pushed r m).2 { r with sinks := (pushed r m).1 } := by
  obtain ⟨call, a⟩ := m
  have hsame : ∀ (filter : RecordDirection → Bool) (push : RecordSink → Option RecordEvent),
      (∀ s, (if filter s.direction then push s else none) = call.event s) →
      r.broadcastFor filter push a = retire a 1 (pushed r ⟨call, a⟩).2 { r with sinks := (pushed r ⟨call, a⟩).1 } := by
    intro filter push hpush
    rw [broadcastFor, funext hpush]
    rfl
  have hnone : (∀ s, call.event s = none) →
      r = retire a 1 (pushed r ⟨call, a⟩).2 { r with sinks := (pushed r ⟨call, a⟩).1 } := by
    intro hevent
    rw [pushed, pushEach_none _ _ fun s _ => hevent s]
    rfl
  cases call with
  | start | stop | stopAll | writer => cases h
  | bytesIn clientId bytes =>
    simp only [step, pushBytesIn]
    split
    · exact hnone fun s => if_pos ‹_›
    · refine hsame _ _ fun s => ?_
      simp only [Call.event, if_neg ‹¬_›]
      split <;> split <;> rfl
  | bytesOut bytes =>
    simp only [step, pushBytesOut]
    split
    · exact hnone fun s => if_pos ‹_›
    · exact hsame _ _ fun s => (if_neg ‹_›).symm
  | inRejected | inWriteError =>
    refine hsame _ _ fun s => ?_
    simp only [Call.event]
    split <;> split <;> rfl
  | inSecretRedacted => exact hsame _ _ fun s => rfl
  | lifecycle e => exact hsame (fun _ => true) (fun _ => some (.lifecycle e)) fun s => rfl

/-! ## Notices -/

/-- Before the notice about each sink that is retired, exactly those still to be retired would refuse it. -/
def noticesLand (a : Answers) : Nat → List Nat → List RecordSink → Bool
  | _, [], _ => true
  | round, id :: ids, sinks =>
    match take id sinks with
    | none => noticesLand a (round + 1) ids sinks
    | some (_, rest) =>
      rest.zipIdx.all (fun (s, place) => s.refuses (a.waits round place) == ids.contains s.recordId) &&
        noticesLand a (round + 1) ids
          (pushEach (fun _ => some (abortNotice id)) (a.clock round) (a.waits round) rest).1

/-- Every notice of the call lands. -/
def Lands (r : RecordRegistry) (m : Move) : Prop := noticesLand m.answers 1 (pushed r m).2 (pushed r m).1 = true

def Call.starts : Call → Bool
  | .start .. => true
  | _ => false

/-- The id that the call gives to a new sink is not in use: the counter has not come round to it. -/
def FreshId (r : RecordRegistry) (m : Move) : Prop := m.call.starts = true → r.nextId ∉ r.sinks.map (·.recordId)

/-- A recorder, from its first call on. -/
def recorder : System RecordRegistry Move where
  init r := r = .new
  step r m := some (step r m)

/-- The sinks of a registry after a push that these are to be retired for. -/
structure Pending (ids : List Nat) (sinks : List RecordSink) : Prop where
  unique : (sinks.map (·.recordId)).Nodup
  ended : ∀ s ∈ sinks, s.Ended
  steady : ∀ s ∈ sinks, s.recordId ∉ ids → s.Steady
  refused : ∀ s ∈ sinks, s.recordId ∈ ids → ∃ p ∈ s.offered, p.taken = false

/-- Between two calls: the sinks of the registry took everything, those that left it no event after one they
refused. -/
structure Settled (r : RecordRegistry) : Prop where
  unique : (r.sinks.map (·.recordId)).Nodup
  steady : ∀ s ∈ r.sinks, s.Steady
  ended : ∀ s ∈ r.stopped, s.Ended

theorem pushEach_recordId (push : RecordSink → Option RecordEvent) (ts : Nat) (waits : Nat → List WriterTurn)
    (sinks : List RecordSink) :
    (pushEach push ts waits sinks).1.map (·.recordId) = sinks.map (·.recordId) := by
  induction sinks generalizing waits with
  | nil => rfl
  | cons s rest ih =>
    simp only [pushEach]
    split
    · rw [List.map_cons, List.map_cons, ih]
    · rw [List.map_cons, List.map_cons, ih, RecordSink.tryPush_recordId]

/-- Each sink after a push, by its place. -/
theorem pushEach_at {push : RecordSink → Option RecordEvent} {ts : Nat} {waits : Nat → List WriterTurn}
    {sinks : List RecordSink} {place : Nat} {s : RecordSink} (h : sinks[place]? = some s) :
    (pushEach push ts waits sinks).1[place]? =
      some ((push s).elim s fun e => (s.tryPush (waits place) ts e).1) := by
  induction sinks generalizing waits place with
  | nil => cases h
  | cons x rest ih =>
    cases place with
    | zero =>
      rw [List.getElem?_cons_zero] at h
      obtain rfl := Option.some.inj h
      simp only [pushEach]
      split <;> rename_i he <;> rw [he] <;> rfl
    | succ place =>
      have hrest := @ih (fun i => waits (i + 1)) place h
      simp only [pushEach]
      split <;> exact hrest

/-- The ids of the sinks that refused the event. -/
theorem mem_refused {push : RecordSink → Option RecordEvent} {ts : Nat} {waits : Nat → List WriterTurn}
    {sinks : List RecordSink} {id : Nat} : id ∈ (pushEach push ts waits sinks).2 ↔
      ∃ place s, sinks[place]? = some s ∧ s.recordId = id ∧ (push s).isSome = true ∧
        s.refuses (waits place) = true := by
  induction sinks generalizing waits with
  | nil => simp [pushEach]
  | cons x rest ih =>
    have hlater : (∃ place s, (x :: rest)[place]? = some s ∧ s.recordId = id ∧ (push s).isSome = true ∧
        s.refuses (waits place) = true) ↔ (x.recordId = id ∧ (push x).isSome = true ∧ x.refuses (waits 0) = true) ∨
        id ∈ (pushEach push ts (fun i => waits (i + 1)) rest).2 := by
      rw [ih]
      constructor
      · rintro ⟨place, s, hat, hs⟩
        cases place with
        | zero =>
          rw [List.getElem?_cons_zero] at hat
          obtain rfl := Option.some.inj hat
          exact .inl hs
        | succ place => exact .inr ⟨place, s, hat, hs⟩
      · rintro (hx | ⟨place, s, hat, hs⟩)
        · exact ⟨0, x, rfl, hx⟩
        · exact ⟨place + 1, s, hat, hs⟩
    rw [hlater]
    simp only [pushEach]
    split <;> rename_i he
    · simp [he]
    · rw [RecordSink.tryPush_isSome]
      cases hr : x.refuses (waits 0) with
      | true => simp [he, eq_comm]
      | false => simp

theorem take_split (id : Nat) (sinks : List RecordSink) :
    match take id sinks with
    | none => ∀ s ∈ sinks, s.recordId ≠ id
    | some (s, rest) => s.recordId = id ∧ ∃ before after, sinks = before ++ s :: after ∧ rest = before ++ after := by
  induction sinks with
  | nil => exact fun s hs => absurd hs List.not_mem_nil
  | cons x xs ih =>
    unfold take
    split <;> rename_i hx
    · split at hx <;> rename_i hid
      · cases hx
      · rw [Option.map_eq_none_iff] at hx
        rw [hx] at ih
        exact List.forall_mem_cons.2 ⟨hid, ih⟩
    · split at hx <;> rename_i hid
      · obtain ⟨rfl, rfl⟩ := Prod.mk.inj (Option.some.inj hx)
        exact ⟨hid, [], _, rfl, rfl⟩
      · obtain ⟨⟨found, others⟩, hfound, heq⟩ := Option.map_eq_some_iff.1 hx
        obtain ⟨rfl, rfl⟩ := Prod.mk.inj heq
        rw [hfound] at ih
        obtain ⟨hid', before, after, rfl, rfl⟩ := ih
        exact ⟨hid', x :: before, after, rfl, rfl⟩

/-- A sink after a push that it took, or refused. -/
theorem mem_pushEach {push : RecordSink → Option RecordEvent} {ts : Nat} {waits : Nat → List WriterTurn}
    {sinks : List RecordSink} {s' : RecordSink} (h : s' ∈ (pushEach push ts waits sinks).1) :
    ∃ place s, sinks[place]? = some s ∧ s'.recordId = s.recordId ∧
      s' = (push s).elim s fun e => (s.tryPush (waits place) ts e).1 := by
  obtain ⟨place, hat'⟩ := List.mem_iff_getElem?.1 h
  have hlen : (pushEach push ts waits sinks).1.length = sinks.length := by
    have hids := congrArg List.length (pushEach_recordId push ts waits sinks)
    rwa [List.length_map, List.length_map] at hids
  have hlt : place < sinks.length := hlen ▸ (List.getElem?_eq_some_iff.1 hat').1
  have hat : sinks[place]? = some sinks[place] := List.getElem?_eq_getElem hlt
  rw [pushEach_at hat] at hat'
  obtain rfl := Option.some.inj hat'
  refine ⟨place, _, hat, ?_, rfl⟩
  cases push sinks[place] with
  | none => rfl
  | some e => exact RecordSink.tryPush_recordId _ _ _ _

/-- Sinks with different ids are at different places. -/
theorem place_unique {sinks : List RecordSink} (h : (sinks.map (·.recordId)).Nodup) {i j : Nat} {s t : RecordSink}
    (hs : sinks[i]? = some s) (ht : sinks[j]? = some t) (hid : s.recordId = t.recordId) : i = j := by
  have hlt : i < (sinks.map (·.recordId)).length := by
    rw [List.length_map]
    exact (List.getElem?_eq_some_iff.1 hs).1
  refine (List.getElem?_inj hlt h).1 ?_
  rw [List.getElem?_map, List.getElem?_map, hs, ht, Option.map_some, Option.map_some, hid]

/-- The event of a call: whoever refuses it is to be retired. -/
theorem Settled.pushed {r : RecordRegistry} (h : Settled r) (m : Move) : Pending (pushed r m).2 (pushed r m).1 := by
  refine ⟨?_, fun s' hs' => ?_, fun s' hs' hkept => ?_, fun s' hs' hgone => ?_⟩
  · rw [Record.pushed, pushEach_recordId]
    exact h.unique
  all_goals
    obtain ⟨place, s, hat, hid, rfl⟩ := mem_pushEach hs'
    have hsteady := h.steady s (List.mem_of_getElem? hat)
  · cases m.call.event s with
    | none => exact hsteady.ended
    | some e =>
      cases hr : s.refuses (m.answers.waits 0 place) with
      | false => exact (hsteady.tryPush hr _ e).ended
      | true => exact hsteady.ended.tryPush hr _ e
  · cases he : m.call.event s with
    | none => exact hsteady
    | some e =>
      refine hsteady.tryPush (Bool.eq_false_iff.2 fun hr => hkept ?_) _ e
      rw [hid]
      exact mem_refused.2 ⟨place, s, hat, rfl, by rw [he]; rfl, hr⟩
  · rw [hid] at hgone
    obtain ⟨place', t, hat', hsame, hevent, hr⟩ := mem_refused.1 hgone
    obtain rfl := place_unique h.unique hat' hat hsame
    obtain rfl := Option.some.inj (hat'.symm.trans hat)
    obtain ⟨e, he⟩ := Option.isSome_iff_exists.1 hevent
    rw [he]
    exact RecordSink.tryPush_refused hr _ e

/-- A notice that exactly those refuse that are to be retired. -/
theorem Pending.noticed {ids : List Nat} {sinks : List RecordSink} (h : Pending ids sinks)
    {waits : Nat → List WriterTurn}
    (hland : ∀ (place : Nat) (s : RecordSink), sinks[place]? = some s →
      (s.refuses (waits place) = true ↔ s.recordId ∈ ids)) (id ts : Nat) :
    Pending ids (pushEach (fun _ => some (abortNotice id)) ts waits sinks).1 := by
  refine ⟨?_, fun s' hs' => ?_, fun s' hs' hkept => ?_, fun s' hs' hgone => ?_⟩
  · rw [pushEach_recordId]
    exact h.unique
  all_goals
    obtain ⟨place, s, hat, hid, rfl⟩ := mem_pushEach hs'
    have hmem := List.mem_of_getElem? hat
  · cases hr : s.refuses (waits place) with
    | true => exact (h.ended s hmem).tryPush hr _ _
    | false =>
      refine ((h.steady s hmem fun hids => ?_).tryPush hr _ _).ended
      rw [(hland place s hat).2 hids] at hr
      cases hr
  · rw [hid] at hkept
    exact (h.steady s hmem hkept).tryPush (Bool.eq_false_iff.2 fun hr => hkept ((hland place s hat).1 hr)) _ _
  · rw [hid] at hgone
    exact RecordSink.tryPush_refused ((hland place s hat).2 hgone) _ _

/-- The first sink that is to be retired is taken out. -/
theorem Pending.taken {id : Nat} {ids : List Nat} {before after : List RecordSink} {s : RecordSink}
    (h : Pending (id :: ids) (before ++ s :: after)) (hid : s.recordId = id) : Pending ids (before ++ after) := by
  have hsub : (before ++ after).Sublist (before ++ s :: after) :=
    (List.Sublist.refl before).append (List.sublist_cons_self s after)
  refine ⟨h.unique.sublist (hsub.map _), fun x hx => h.ended x (hsub.subset hx), fun x hx hkept => ?_,
    fun x hx hgone => h.refused x (hsub.subset hx) (List.mem_cons_of_mem _ hgone)⟩
  refine h.steady x (hsub.subset hx) fun hmem => ?_
  rcases List.mem_cons.1 hmem with hsame | hmem
  · -- No other sink has its id.
    have hunique := h.unique
    rw [List.map_append, List.map_cons] at hunique
    have hnot := (List.nodup_middle.1 hunique).notMem
    rw [← List.map_append, hid, ← hsame] at hnot
    exact hnot (List.mem_map.2 ⟨x, hx, rfl⟩)
  · exact hkept hmem

/-- There is no such sink. -/
theorem Pending.missed {id : Nat} {ids : List Nat} {sinks : List RecordSink} (h : Pending (id :: ids) sinks)
    (hnone : ∀ s ∈ sinks, s.recordId ≠ id) : Pending ids sinks := by
  refine ⟨h.unique, h.ended, fun s hs hkept => h.steady s hs fun hmem => ?_,
    fun s hs hgone => h.refused s hs (List.mem_cons_of_mem _ hgone)⟩
  exact (List.mem_cons.1 hmem).elim (hnone s hs) hkept

/-- Where the notices land, the registry is settled again when the last sink was retired. -/
theorem retire_settled {a : Answers} {round : Nat} {ids : List Nat} {r : RecordRegistry} (h : Pending ids r.sinks)
    (hstopped : ∀ s ∈ r.stopped, s.Ended) (hland : noticesLand a round ids r.sinks = true) :
    Settled (retire a round ids r) := by
  induction ids generalizing r round with
  | nil => exact ⟨h.unique, fun s hs => h.steady s hs List.not_mem_nil, hstopped⟩
  | cons id ids ih =>
    have hsplit := take_split id r.sinks
    unfold noticesLand at hland
    unfold retire
    cases htake : take id r.sinks with
    | none =>
      rw [htake] at hland
      simp only [htake] at hsplit
      exact ih (h.missed hsplit) hstopped hland
    | some found =>
      obtain ⟨s, rest⟩ := found
      rw [htake] at hland
      simp only [htake] at hsplit
      obtain ⟨hid, before, after, hsinks, rfl⟩ := hsplit
      rw [hsinks] at h
      obtain ⟨hnow, hlater⟩ := (Bool.and_eq_true _ _).mp hland
      refine ih ((h.taken hid).noticed (fun place x hat => ?_) id _) (fun x hx => ?_) hlater
      · have hx := List.all_eq_true.1 hnow (x, place) (List.mem_zipIdx_iff_getElem?.2 hat)
        rw [beq_iff_eq] at hx
        rw [hx, List.contains_iff_mem]
      · rcases List.mem_append.1 hx with hx | hx
        · exact hstopped x hx
        · rw [List.mem_singleton.1 hx, RecordSink.Ended, RecordSink.joinWriter_offered]
          exact h.ended s (List.mem_append_right _ List.mem_cons_self)

/-! ### Notices that go wrong -/

theorem retire_stopped (a : Answers) (round : Nat) (ids : List Nat) (r : RecordRegistry) :
    r.stopped ⊆ (retire a round ids r).stopped := by
  induction ids generalizing round r with
  | nil => exact List.Subset.refl _
  | cons id ids ih =>
    unfold retire
    refine List.Subset.trans ?_ (ih _ _)
    split
    · exact List.Subset.refl _
    · exact List.subset_append_left _ _

theorem noticed_offered (id ts : Nat) (waits : Nat → List WriterTurn) {place : Nat} {sinks : List RecordSink}
    {s : RecordSink} (h : sinks[place]? = some s) : ∃ s' ∈ (pushEach (fun _ => some (abortNotice id)) ts waits sinks).1,
      s'.recordId = s.recordId ∧ s'.offered = s.offered ++ [⟨⟨s.seq, ts, abortNotice id⟩, !s.refuses (waits place)⟩] :=
  ⟨_, List.mem_of_getElem? (pushEach_at h), s.tryPush_recordId _ _ _, s.tryPush_offered _ _ _⟩

/-- What a sink was offered it has been offered ever since, and who is not retired stays. -/
theorem retire_offered (a : Answers) (round : Nat) (ids : List Nat) {r : RecordRegistry} {x : RecordSink}
    (hx : x ∈ r.sinks) : ∃ y ∈ (retire a round ids r).sinks ++ (retire a round ids r).stopped,
      x.offered <+: y.offered ∧ (x.recordId ∉ ids → y ∈ (retire a round ids r).sinks) := by
  induction ids generalizing round r x with
  | nil => exact ⟨x, List.mem_append_left _ hx, List.prefix_refl _, fun _ => hx⟩
  | cons id ids ih =>
    have hsplit := take_split id r.sinks
    unfold retire
    split <;> rename_i htake
    · obtain ⟨y, hy, hoffered, hstays⟩ := ih (round + 1) hx
      exact ⟨y, hy, hoffered, fun hids => hstays fun h => hids (List.mem_cons_of_mem _ h)⟩
    · rename_i s rest
      simp only [htake] at hsplit
      obtain ⟨hid, before, after, hsinks, rfl⟩ := hsplit
      by_cases hgone : x ∈ before ++ after
      · obtain ⟨place, hat⟩ := List.mem_iff_getElem?.1 hgone
        obtain ⟨x', hx', hsame, hmore⟩ := noticed_offered id (a.clock round) (a.waits round) hat
        obtain ⟨y, hy, hoffered, hstays⟩ := ih (r := { r with
          sinks := (pushEach (fun _ => some (abortNotice id)) (a.clock round) (a.waits round) (before ++ after)).1
          stopped := r.stopped ++ [s.joinWriter (a.drains round)] }) (round + 1) hx'
        refine ⟨y, hy, (hmore ▸ List.prefix_append _ _).trans hoffered, fun hids => hstays fun h => ?_⟩
        exact hids (List.mem_cons_of_mem _ (hsame ▸ h))
      · -- It is the one that is taken out.
        have hself : x = s := by
          rw [hsinks] at hx
          simp only [List.mem_append, List.mem_cons, not_or] at hx hgone
          exact (hx.resolve_left hgone.1).resolve_right hgone.2
        refine ⟨s.joinWriter (a.drains round), List.mem_append_right _ (retire_stopped _ _ _ _ ?_), ?_, fun hids => ?_⟩
        · exact List.mem_append_right _ (List.mem_singleton_self _)
        · rw [hself, RecordSink.joinWriter_offered]
        · rw [hself, hid] at hids
          exact absurd List.mem_cons_self hids

/-- Where the registry is in order after the last sink was retired, the notices have landed. -/
theorem retire_lands {a : Answers} {round : Nat} {ids : List Nat} {r : RecordRegistry} (h : Pending ids r.sinks)
    (hsteady : ∀ s ∈ (retire a round ids r).sinks, s.Steady)
    (hended : ∀ s ∈ (retire a round ids r).stopped, s.Ended) : noticesLand a round ids r.sinks = true := by
  induction ids generalizing r round with
  | nil => rfl
  | cons id ids ih =>
    have hsplit := take_split id r.sinks
    unfold noticesLand
    unfold retire at hsteady hended
    cases htake : take id r.sinks with
    | none =>
      simp only [htake] at hsplit hsteady hended ⊢
      exact ih (h.missed hsplit) hsteady hended
    | some found =>
      obtain ⟨s, rest⟩ := found
      simp only [htake] at hsplit hsteady hended ⊢
      obtain ⟨hid, before, after, hsinks, rfl⟩ := hsplit
      rw [hsinks] at h
      have hrest := h.taken hid
      have hnow : ∀ (place : Nat) (x : RecordSink), (before ++ after)[place]? = some x →
          (x.refuses (a.waits round place) = true ↔ x.recordId ∈ ids) := by
        intro place x hat
        have hmem := List.mem_of_getElem? hat
        obtain ⟨x', hx', hsame, hmore⟩ := noticed_offered id (a.clock round) (a.waits round) hat
        obtain ⟨y, hy, ⟨later, hoffered⟩, hstays⟩ := retire_offered a (round + 1) ids (r := { r with
          sinks := (pushEach (fun _ => some (abortNotice id)) (a.clock round) (a.waits round) (before ++ after)).1
          stopped := r.stopped ++ [s.joinWriter (a.drains round)] }) hx'
        rw [hmore] at hoffered
        rw [hsame] at hstays
        constructor
        · intro hr
          by_contra hkept
          have htaken := hsteady y (hstays hkept)
            ⟨⟨x.seq, a.clock round, abortNotice id⟩, !x.refuses (a.waits round place)⟩ (by rw [← hoffered]; simp)
          rw [hr] at htaken
          cases htaken
        · intro hgone
          obtain ⟨p, hp, hrefused⟩ := hrest.refused x hmem hgone
          have hy : y.Ended := (List.mem_append.1 hy).elim (fun hy => (hsteady y hy).ended) (hended y)
          rw [RecordSink.Ended, ← hoffered, List.pairwise_append, List.pairwise_append] at hy
          simpa using hy.1.2.2 p hp _ (List.mem_singleton_self _) hrefused
      rw [Bool.and_eq_true]
      refine ⟨List.all_eq_true.2 fun entry hentry => ?_, ih (hrest.noticed hnow id _) hsteady hended⟩
      obtain ⟨x, place⟩ := entry
      rw [beq_iff_eq, Bool.eq_iff_iff, List.contains_iff_mem]
      exact hnow place x (List.mem_zipIdx_iff_getElem?.1 hentry)

/-! ## Runs -/

theorem mem_joinEach {drains : Nat → Nat → WriterTurn} {sinks : List RecordSink} {s' : RecordSink}
    (h : s' ∈ joinEach drains sinks) : ∃ s ∈ sinks, s'.offered = s.offered := by
  induction sinks generalizing drains with
  | nil => cases h
  | cons s rest ih =>
    rcases List.mem_cons.1 h with rfl | h
    · exact ⟨s, List.mem_cons_self, s.joinWriter_offered _⟩
    · obtain ⟨s₀, hs₀, heq⟩ := ih h
      exact ⟨s₀, List.mem_cons_of_mem _ hs₀, heq⟩

theorem RecordSink.handleOne_same (s : RecordSink) (t : WriterTurn) :
    (s.handleOne t).recordId = s.recordId ∧ (s.handleOne t).offered = s.offered :=
  ⟨s.handleAll_recordId [t], s.handleAll_offered [t]⟩

theorem Settled.start {r : RecordRegistry} (h : Settled r) (hfresh : r.nextId ∉ r.sinks.map (·.recordId))
    (request : RecordStartRequest) (startedBy : ClientId) (os : StartAnswers) (now : Nat) :
    Settled (r.start request startedBy os now).1 := by
  have hnew : Settled { r with sinks := r.sinks ++ [r.newSink request startedBy now os.headerStored]
                               nextId := (r.nextId + 1) % 2 ^ 32 } := by
    refine ⟨?_, fun s hs => ?_, h.ended⟩
    · rw [List.map_append, List.map_singleton, List.nodup_append_comm]
      exact List.nodup_cons.2 ⟨hfresh, h.unique⟩
    · rcases List.mem_append.1 hs with hs | hs
      · exact h.steady s hs
      · rw [List.mem_singleton.1 hs]
        exact fun p hp => absurd hp List.not_mem_nil
  unfold RecordRegistry.start
  repeat' split
  all_goals first
    | exact h
    | exact ⟨h.unique, h.steady, h.ended⟩
    | exact hnew

theorem Settled.stop {r : RecordRegistry} (h : Settled r) (recordId : Nat) (a : Answers) :
    Settled (r.stop recordId a) := by
  have hsplit := take_split recordId r.sinks
  unfold RecordRegistry.stop
  split <;> rename_i htake
  · exact h
  · simp only [htake] at hsplit
    obtain ⟨-, before, after, hsinks, rfl⟩ := hsplit
    have hsub : (before ++ after).Sublist r.sinks := by
      rw [hsinks]
      exact (List.Sublist.refl before).append (List.sublist_cons_self _ after)
    refine ⟨h.unique.sublist (hsub.map _), fun s hs => h.steady s (hsub.subset hs), fun s hs => ?_⟩
    rcases List.mem_append.1 hs with hs | hs
    · exact h.ended s hs
    · rw [List.mem_singleton.1 hs, RecordSink.Ended, RecordSink.joinWriter_offered]
      refine (h.steady _ ?_).ended
      rw [hsinks]
      exact List.mem_append_right _ List.mem_cons_self

theorem Settled.stopAll {r : RecordRegistry} (h : Settled r) (a : Answers) : Settled (r.stopAll a) := by
  refine ⟨List.nodup_nil, fun s hs => absurd hs List.not_mem_nil, fun s hs => ?_⟩
  rcases List.mem_append.1 hs with hs | hs
  · exact h.ended s hs
  · obtain ⟨s₀, hs₀, heq⟩ := mem_joinEach hs
    rw [RecordSink.Ended, heq]
    exact (h.steady s₀ hs₀).ended

theorem Settled.writerTurn {r : RecordRegistry} (h : Settled r) (place : Nat) (t : WriterTurn) :
    Settled (r.writerTurn place t) := by
  have hwriter := forall₂_modify (R := fun s s' : RecordSink => s'.recordId = s.recordId ∧ s'.offered = s.offered)
    (fun _ => ⟨rfl, rfl⟩) (fun s => s.handleOne_same t) place r.sinks
  refine ⟨?_, fun s' hs' => ?_, h.ended⟩
  · have hids : (r.writerTurn place t).sinks.map (·.recordId) = r.sinks.map (·.recordId) :=
      forall₂_map_eq (fun _ _ hsame => hsame.1) hwriter
    rw [hids]
    exact h.unique
  · obtain ⟨s, hs, -, heq⟩ := forall₂_mem_right hwriter hs'
    rw [RecordSink.Steady, heq]
    exact h.steady s hs

/-- A call that pushes nothing. -/
theorem Settled.quiet {r : RecordRegistry} {m : Move} (h : Settled r) (hfresh : FreshId r m)
    (hquiet : m.call.pushes = false) : Settled (step r m) := by
  obtain ⟨call, a⟩ := m
  cases call with
  | start request startedBy os => exact h.start (hfresh rfl) request startedBy os _
  | stop recordId => exact h.stop recordId a
  | stopAll => exact h.stopAll a
  | writer place turn => exact h.writerTurn place turn
  | bytesIn | bytesOut | inRejected | inWriteError | inSecretRedacted | lifecycle => cases hquiet

/-- What is promised of the recordings: a sink that refused an event is not in the registry any more. -/
structure Whole (r : RecordRegistry) : Prop where
  took : ∀ s ∈ r.sinks, ∀ p ∈ s.offered, p.taken = true
  recorded : ∀ s ∈ r.sinks ++ r.stopped, Recorded s

theorem recorder_kept {r : RecordRegistry} (h : recorder.Reachable r) : ∀ s ∈ r.sinks ++ r.stopped, Kept s := by
  have hself : SinkWise (fun s t => t = s ∧ Kept s) r r := by
    refine h.inv (fun r => SinkWise (fun s t => t = s ∧ Kept s) r r) ?_ ?_
    · rintro r rfl
      exact ⟨.nil, rfl, .nil⟩
    · rintro r m r' - hr - hstep
      rw [← Option.some.inj hstep]
      exact step_rel Kept.unwinding hr m fun _ _ _ _ _ => rfl
  intro s hs
  exact (List.forall₂_same.1 (List.rel_append hself.sinks hself.stopped) s hs).2

theorem Settled.whole {r : RecordRegistry} (h : Settled r) (hr : recorder.Reachable r) : Whole r := by
  refine ⟨h.steady, fun s hs => (recorder_kept hr s hs).recorded ?_⟩
  rcases List.mem_append.1 hs with hs | hs
  · exact (h.steady s hs).ended
  · exact h.ended s hs

theorem lands_quiet {r : RecordRegistry} {m : Move} (hquiet : m.call.pushes = false) : Lands r m := by
  have hnone : ∀ s ∈ r.sinks, m.call.event s = none := by
    obtain ⟨call, a⟩ := m
    intro s _
    cases call with
    | start | stop | stopAll | writer => rfl
    | bytesIn | bytesOut | inRejected | inWriteError | inSecretRedacted | lifecycle => cases hquiet
  rw [Lands, pushed, pushEach_none _ _ hnone]
  rfl

/-- A call on a settled registry leaves it in order exactly where every notice lands. -/
theorem Settled.step {r : RecordRegistry} {m : Move} (h : Settled r) (hr : recorder.Reachable r)
    (hfresh : FreshId r m) : (Whole (step r m) ↔ Lands r m) ∧ (Whole (step r m) → Settled (step r m)) := by
  have hnext : recorder.Reachable (Record.step r m) := hr.step trivial rfl
  cases hpush : m.call.pushes with
  | false =>
    have hsettled := h.quiet hfresh hpush
    exact ⟨iff_of_true (hsettled.whole hnext) (lands_quiet hpush), fun _ => hsettled⟩
  | true =>
    have hsettled : Lands r m → Settled (Record.step r m) := by
      intro hland
      rw [step_pushed hpush]
      exact retire_settled (h.pushed m) h.ended hland
    have hlands : Whole (Record.step r m) → Lands r m := by
      intro hwhole
      have htook := hwhole.took
      have hended : ∀ s ∈ (Record.step r m).stopped, s.Ended := fun s hs =>
        (hwhole.recorded s (List.mem_append_right _ hs)).ends
      rw [step_pushed hpush] at htook hended
      exact retire_lands (h.pushed m) htook hended
    exact ⟨⟨hlands, fun hland => (hsettled hland).whole hnext⟩, fun hwhole => hsettled (hlands hwhole)⟩

theorem Settled.init {r : RecordRegistry} (h : recorder.init r) : Settled r := by
  obtain rfl := h
  exact ⟨List.nodup_nil, fun s hs => absurd hs List.not_mem_nil, fun s hs => absurd hs List.not_mem_nil⟩

/-- As long as no id is given twice, the registry is in order after every call of a run exactly where every notice
of every call lands. -/
theorem records_whole_iff {steps : List (RecordRegistry × Move × RecordRegistry)} {r : RecordRegistry}
    (h : recorder.Trace steps r) (hids : ∀ t ∈ steps, FreshId t.1 t.2.1) :
    (∀ t ∈ steps, Whole t.2.2) ↔ ∀ t ∈ steps, Lands t.1 t.2.1 := by
  have hboth := h.steps_iff (I := Settled) (P := fun r m r' => FreshId r m ∧ Whole r')
    (Q := fun r m _ => FreshId r m ∧ Lands r m)
    (fun _ => Settled.init)
    (by
      intro r m r' hr hstep hsettled
      rw [← Option.some.inj hstep]
      refine ⟨and_congr_right fun hfresh => (hsettled.step hr hfresh).1, fun hP => (hsettled.step hr hP.1).2 hP.2⟩)
  constructor
  · intro hwhole t ht
    exact (hboth.1 (fun t ht => ⟨hids t ht, hwhole t ht⟩) t ht).2
  · intro hland t ht
    exact (hboth.2 (fun t ht => ⟨hids t ht, hland t ht⟩) t ht).2

/-! ### Where one sink at most refuses -/

/-- No sink but one refuses the event, and the others have room for the notice about it. -/
structure OneRefuses (r : RecordRegistry) (m : Move) (id : Nat) : Prop where
  event : ∀ (place : Nat) (s : RecordSink), r.sinks[place]? = some s → s.recordId ≠ id →
    s.refuses (m.answers.waits 0 place) = false
  notice : ∀ s ∈ (pushed r m).1, s.recordId ≠ id → ∀ place, s.refuses (m.answers.waits 1 place) = false

/-- No notice is due about a sink that is not there. -/
theorem noticesLand_gone {a : Answers} {round : Nat} {ids : List Nat} {sinks : List RecordSink}
    (h : ∀ id ∈ ids, ∀ s ∈ sinks, s.recordId ≠ id) : noticesLand a round ids sinks = true := by
  induction ids generalizing round with
  | nil => rfl
  | cons id ids ih =>
    obtain ⟨hgone, hrest⟩ := List.forall_mem_cons.1 h
    have hsplit := take_split id sinks
    unfold noticesLand
    cases htake : take id sinks with
    | none => exact ih hrest
    | some found =>
      rw [htake] at hsplit
      obtain ⟨hid, before, after, hsinks, -⟩ := hsplit
      exact absurd hid (hgone found.1 (hsinks ▸ List.mem_append_right _ List.mem_cons_self))

theorem OneRefuses.lands {r : RecordRegistry} {m : Move} {id : Nat} (h : OneRefuses r m id)
    (hunique : (r.sinks.map (·.recordId)).Nodup) : Lands r m := by
  have hall : ∀ id' ∈ (pushed r m).2, id' = id := by
    intro id' hmem
    obtain ⟨place, s, hat, rfl, -, hrefuses⟩ := mem_refused.1 hmem
    by_contra hne
    rw [h.event place s hat hne] at hrefuses
    cases hrefuses
  have hids : ((pushed r m).1.map (·.recordId)).Nodup := by
    rw [pushed, pushEach_recordId]
    exact hunique
  have hnotice := h.notice
  unfold Lands
  generalize (pushed r m).1 = sinks at hids hnotice ⊢
  generalize (pushed r m).2 = ids at hall ⊢
  cases ids with
  | nil => rfl
  | cons id' ids =>
    obtain ⟨rfl, hrest⟩ := List.forall_mem_cons.1 hall
    have hsplit := take_split id' sinks
    unfold noticesLand
    cases htake : take id' sinks with
    | none =>
      rw [htake] at hsplit
      exact noticesLand_gone fun id hid => (hrest id hid) ▸ hsplit
    | some found =>
      obtain ⟨s, rest⟩ := found
      rw [htake] at hsplit
      obtain ⟨hid, before, after, rfl, rfl⟩ := hsplit
      rw [List.map_append, List.map_cons] at hids
      have hnot := (List.nodup_middle.1 hids).notMem
      rw [← List.map_append, hid] at hnot
      have hothers : ∀ x ∈ before ++ after, x.recordId ≠ id' := fun x hx heq =>
        hnot (List.mem_map.2 ⟨x, hx, heq⟩)
      refine (Bool.and_eq_true _ _).mpr ⟨List.all_eq_true.2 ?_, noticesLand_gone fun id hid => ?_⟩
      · rintro ⟨x, place⟩ hx
        have hmem : x ∈ before ++ after := List.mem_of_getElem? (List.mem_zipIdx_iff_getElem?.1 hx)
        have hlater : x.recordId ∉ ids := fun hin => hothers x hmem (hrest _ hin)
        have hsub : before ++ after ⊆ before ++ s :: after :=
          ((List.Sublist.refl before).append (List.sublist_cons_self s after)).subset
        have hnever : ids.contains x.recordId = false :=
          Bool.eq_false_iff.2 fun hin => hlater (List.contains_iff_mem.1 hin)
        simp only [hnotice x (hsub hmem) (hothers x hmem), hnever, beq_self_eq_true]
      · obtain rfl := hrest id hid
        intro x hx heq
        have hmem : id ∈ (pushEach (fun _ => some (abortNotice id)) (m.answers.clock 1) (m.answers.waits 1)
            (before ++ after)).1.map (·.recordId) := List.mem_map.2 ⟨x, hx, heq⟩
        rw [pushEach_recordId] at hmem
        exact hnot hmem

/-- So the files are whole in every run where each call is such a call. -/
theorem whole_of_one_refuses {steps : List (RecordRegistry × Move × RecordRegistry)} {r : RecordRegistry}
    (h : recorder.Trace steps r) (hone : ∀ t ∈ steps, FreshId t.1 t.2.1 ∧ ∃ id, OneRefuses t.1 t.2.1 id) :
    ∀ t ∈ steps, Whole t.2.2 := by
  have hboth := h.steps_iff (I := Settled) (P := fun r m _ => FreshId r m ∧ ∃ id, OneRefuses r m id)
    (Q := fun r m r' => (FreshId r m ∧ ∃ id, OneRefuses r m id) ∧ Whole r') (fun _ => Settled.init) (by
      intro r m r' hr hstep hsettled
      rw [← Option.some.inj hstep]
      have hwhole : (FreshId r m ∧ ∃ id, OneRefuses r m id) → Whole (step r m) ∧ Settled (step r m) := by
        rintro ⟨hfresh, id, hone⟩
        obtain ⟨hiff, hkept⟩ := hsettled.step hr hfresh
        have hnow := hiff.2 (hone.lands hsettled.unique)
        exact ⟨hnow, hkept hnow⟩
      exact ⟨⟨fun hP => ⟨hP, (hwhole hP).1⟩, fun hQ => hQ.1⟩, fun hP => (hwhole hP).2⟩)
  exact fun t ht => (hboth.1 hone t ht).2

/-! ### A notice that lands -/

instance (r : RecordRegistry) (m : Move) : Decidable (FreshId r m) := inferInstanceAs (Decidable (_ = true → _ ∉ _))

instance (r : RecordRegistry) (m : Move) : Decidable (Lands r m) := inferInstanceAs (Decidable (_ = true))

def typedRequest : RecordStartRequest := ⟨.stdin, .jsonl, "/tmp/a.jsonl", none, none, .recordAll, none⟩

def outputRequest : RecordStartRequest := ⟨.stdout, .jsonl, "/tmp/b.jsonl", none, none, .recordAll, none⟩

/-- A record of what is typed has no writer, and a record of the output is told of its end. -/
theorem records_whole_notice : ∃ steps r, recorder.Trace steps r ∧ (∀ t ∈ steps, Whole t.2.2) ∧
    ∃ s ∈ r.stopped, s.file = [.line ⟨1, 0, .bytesOut [120]⟩, .line ⟨2, 0, abortNotice 1⟩] := by
  have hinit : recorder.Reach (fun r m => FreshId r m ∧ Lands r m) .new := .init rfl
  obtain ⟨r, hreach, s, hs, hfile⟩ := hinit.exists_run
    [{ call := .start typedRequest 1 { headerStored := false } }, { call := .start outputRequest 1 {} },
      { call := .bytesOut [120] }, { call := .bytesIn 1 [121] }, { call := .stop 2 }]
    (p := fun r => ∃ s ∈ r.stopped, s.file = [.line ⟨1, 0, .bytesOut [120]⟩, .line ⟨2, 0, abortNotice 1⟩])
    (by decide +kernel)
  obtain ⟨steps, htrace, hok⟩ := hreach.trace_ok
  exact ⟨steps, r, htrace, (records_whole_iff htrace fun t ht => (hok t ht).1).2 fun t ht => (hok t ht).2, s, hs, hfile⟩

/-! ### A recording with a hole -/

/-- A record of what is typed, the header of which cannot be written: its writer has returned. -/
def deaf : RecordSink := RecordRegistry.new.newSink typedRequest 1 0 false

/-- The `i`-th output that a record of all output is given. -/
def output (i : Nat) : SeqEvent := ⟨(i + 1) % 2 ^ 32, 0, .bytesOut [120]⟩

/-- A record of all output that was given so many, and whose writer has not come to any of them. -/
def backlog (n : Nat) : RecordSink :=
  { RecordRegistry.newSink { RecordRegistry.new with nextId := 2 } outputRequest 1 0 true with
    seq := (n + 1) % 2 ^ 32
    queue := (List.range n).map output
    delivered := (List.range n).map output
    offered := (List.range n).map fun i => ⟨output i, true⟩ }

def behind (n : Nat) : RecordRegistry := { sinks := [deaf, backlog n], nextId := 3, stopped := [] }

theorem backlog_tryPush {n : Nat} (h : n < recordQueueCapacity) :
    (backlog n).tryPush [] 0 (.bytesOut [120]) = (backlog (n + 1), none) := by
  simp [RecordSink.tryPush, backlog, newSink, RecordSink.nextSeq, RecordSink.handleAll, RecordSink.accept, h,
    List.range_succ, output, Nat.mod_add_mod]

theorem behind_step {n : Nat} (h : n < recordQueueCapacity) :
    step (behind n) { call := .bytesOut [120] } = behind (n + 1) := by
  have hdeaf : takesStdout deaf.direction = false := rfl
  have hboth : takesStdout (backlog n).direction = true := rfl
  simp [step, pushBytesOut, broadcastFor, behind, pushEach, hdeaf, hboth, backlog_tryPush h, retire]

theorem behind_reach {n : Nat} (h : n ≤ recordQueueCapacity) : recorder.Reach FreshId (behind n) := by
  induction n with
  | zero =>
    have hfirst : recorder.Reach FreshId { sinks := [deaf], nextId := 2, stopped := [] } :=
      (System.Reach.init rfl).step (i := { call := .start typedRequest 1 { headerStored := false } })
        (fun _ => List.not_mem_nil) rfl
    exact hfirst.step (i := { call := .start outputRequest 1 {} }) (fun _ => by decide) rfl
  | succ n ih =>
    have hquiet : FreshId (behind n) { call := .bytesOut [120] } := fun h => absurd h Bool.false_ne_true
    exact (ih (Nat.le_of_succ_le h)).step hquiet (congrArg some (behind_step h))

/-- It refused the notice about the other record. -/
def missed (n : Nat) : RecordSink := (backlog n).nextSeq.refuse ⟨(backlog n).seq, 0, abortNotice 1⟩

theorem behind_missed {n : Nat} (h : recordQueueCapacity ≤ n) : ∃ stopped,
    step (behind n) { call := .bytesIn 1 [121] } = { sinks := [missed n], nextId := 3, stopped } := by
  have hdeaf : takesStdin deaf.direction = true := rfl
  have hboth : takesStdin (backlog n).direction = false := rfl
  have hsecrecy : deaf.inputSecrecy ≠ .neverRecordStdin := by decide
  have hrefused : deaf.tryPush [] 0 (.bytesIn 1 [121]) =
      (deaf.nextSeq.refuse ⟨1, 0, .bytesIn 1 [121]⟩, some .disconnected) := rfl
  have hfull : (backlog n).tryPush [] 0 (abortNotice 1) = (missed n, some .full) := by
    simp [RecordSink.tryPush, backlog, newSink, RecordSink.nextSeq, RecordSink.handleAll, missed, RecordSink.refuse,
      Nat.not_lt.2 h]
  have hid : (deaf.nextSeq.refuse ⟨1, 0, .bytesIn 1 [121]⟩).recordId = 1 := rfl
  have hpushed : pushed (behind n) { call := .bytesIn 1 [121] } =
      ([deaf.nextSeq.refuse ⟨1, 0, .bytesIn 1 [121]⟩, backlog n], [1]) := by
    simp [pushed, behind, pushEach, Call.event, hdeaf, hboth, hsecrecy, hrefused]
    rfl
  refine ⟨[(deaf.nextSeq.refuse ⟨1, 0, .bytesIn 1 [121]⟩).joinWriter fun _ => {}], ?_⟩
  rw [step_pushed rfl, hpushed]
  simp only [retire, take, hid, if_true, pushEach, hfull]
  rfl

/-- Its writer comes to the first output, and it takes the next one. -/
def holed (n : Nat) : RecordSink :=
  ((missed (n + 1)).nextSeq.store (output 0) ((List.range n).map fun i => output (i + 1))).accept
    ⟨(missed (n + 1)).seq, 0, .bytesOut [122]⟩

theorem range_output (n : Nat) :
    (List.range (n + 1)).map output = output 0 :: (List.range n).map fun i => output (i + 1) := by
  rw [List.range_succ_eq_map, List.map_cons, List.map_map]
  rfl

theorem missed_holed {n : Nat} (h : n < recordQueueCapacity) (stopped : List RecordSink) :
    step { sinks := [missed (n + 1)], nextId := 3, stopped }
        { call := .bytesOut [122], answers := { waits := fun _ _ => [{}] } } =
      { sinks := [holed n], nextId := 3, stopped } := by
  have hqueue : (missed (n + 1)).nextSeq.queue = output 0 :: (List.range n).map fun i => output (i + 1) :=
    range_output n
  have hstored : (missed (n + 1)).nextSeq.handleAll [{}] =
      (missed (n + 1)).nextSeq.store (output 0) ((List.range n).map fun i => output (i + 1)) := by
    have hwriting : (missed (n + 1)).nextSeq.writing = true := rfl
    have hlimits : ((missed (n + 1)).nextSeq.store (output 0)
        ((List.range n).map fun i => output (i + 1))).exceedsLimits 0 = false := rfl
    simp only [RecordSink.handleAll, List.foldl_cons, List.foldl_nil, RecordSink.handleOne, hwriting, hqueue, hlimits,
      if_true, Bool.false_eq_true, if_false]
  have hroom : ((List.range n).map fun i => output (i + 1)).length < recordQueueCapacity := by
    rwa [List.length_map, List.length_range]
  have hpush : (missed (n + 1)).tryPush [{}] 0 (.bytesOut [122]) = (holed n, none) := by
    simp only [RecordSink.tryPush, hstored]
    exact if_pos hroom
  have hboth : takesStdout (missed (n + 1)).direction = true := rfl
  simp only [step, pushBytesOut, List.isEmpty_cons, Bool.false_eq_true, if_false, broadcastFor, pushEach, hboth,
    if_true, hpush, Option.isSome_none, retire]

/-- A record whose queue is full refuses the notice about another one, and goes on with its next number. -/
theorem holed_reach {n : Nat} (h : n + 1 = recordQueueCapacity) : ∃ r, recorder.Reach FreshId r ∧ ¬ Whole r ∧
    ∃ s ∈ r.stopped, s.format = .jsonl ∧
      s.file = ((List.range (n + 1)).map output ++
        [(⟨(missed (n + 1)).seq, 0, .bytesOut [122]⟩ : SeqEvent)]).map .line := by
  have hquiet : ∀ r (m : Move), m.call.starts = false → FreshId r m := by
    intro r m hcall hstart
    rw [hcall] at hstart
    cases hstart
  obtain ⟨stopped, hmissed⟩ := behind_missed h.ge
  have hfull : recorder.Reach FreshId { sinks := [missed (n + 1)], nextId := 3, stopped } :=
    (behind_reach h.le).step (hquiet _ { call := .bytesIn 1 [121] } rfl) (congrArg some hmissed)
  have hholed : recorder.Reach FreshId { sinks := [holed n], nextId := 3, stopped } :=
    hfull.step (hquiet _ _ rfl) (congrArg some (missed_holed (by omega) stopped))
  refine ⟨_, hholed.step (hquiet _ { call := .stopAll } rfl) rfl, fun hwhole => ?_, (holed n).joinWriter fun _ => {},
    List.mem_append_right _ (List.mem_singleton_self _), RecordSink.joinWriter_format _ _, ?_⟩
  · have hended := (hwhole.recorded ((holed n).joinWriter fun _ => {})
      (List.mem_append_right _ (List.mem_append_right _ (List.mem_singleton_self _)))).ended
    rw [RecordSink.joinWriter_offered] at hended
    have hafter := hended ((List.range (n + 1)).map fun i => ⟨output i, true⟩)
      ⟨⟨(backlog (n + 1)).seq, 0, abortNotice 1⟩, false⟩ [⟨⟨(missed (n + 1)).seq, 0, .bytesOut [122]⟩, true⟩]
      (List.append_assoc ..) rfl _ (List.mem_singleton_self _)
    cases hafter
  · have hfile : (holed n).file = [.line (output 0)] := rfl
    have hqueue : (holed n).queue = ((List.range n).map fun i => output (i + 1)) ++
        [⟨(missed (n + 1)).seq, 0, .bytesOut [122]⟩] := rfl
    have hlines : (holed n).encodeEvent = fun p => [.line p] := rfl
    rw [joinWriter_stores rfl rfl rfl fun _ => rfl, hfile, hqueue, hlines, ← List.map_eq_flatMap, range_output]
    rfl

/-- The outputs 1 to 1024, and 1026. -/
theorem notice_refused_leaves_hole : ∃ r, recorder.Reach FreshId r ∧ ¬ Whole r ∧ ∃ s ∈ r.stopped, s.format = .jsonl ∧
    s.file = ((List.range 1024).map output ++ [(⟨1026, 0, .bytesOut [122]⟩ : SeqEvent)]).map .line :=
  holed_reach rfl

end Hyoui.Daemon.Record
