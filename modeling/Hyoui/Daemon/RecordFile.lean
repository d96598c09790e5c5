import Hyoui.Daemon.Secrecy
/-!
# The file of a record

What one sink records, whatever is pushed to it and whenever its writer moves: the file holds what the channel took
first, the numbers are those of the pushes, and the last thing in the file is the only one over the limit.
-/

namespace Hyoui.Daemon.Record

open Hyoui.Protocol

/-! ## What a push and the writer do -/

/-- How many bytes of the terminal stream are recorded in what the writer put in the file. -/
def Written.rawBytes : Written → Nat
  | .line p => rawBytesDelta p.event
  | .bytes raw => raw.length

def recorded (file : List Written) : Nat := (file.map Written.rawBytes).sum

/-- What holds of every sink. -/
structure Kept (s : RecordSink) : Prop where
  seq : s.seq = (s.offered.length + 1) % 2 ^ 32
  numbered : s.offered.map (·.payload.seq) = (List.range s.offered.length).map fun i => (i + 1) % 2 ^ 32
  delivered : s.delivered = (s.offered.filter (·.taken)).map (·.payload)
  written : ∃ stored left, s.delivered = stored ++ left ∧ s.file = stored.flatMap s.encodeEvent ∧
    (s.writing = true → s.queue = left)
  counted : s.rawBytesRecorded = recorded s.file
  under : s.writing = true → ∀ m ∈ s.maxBytes, 0 < m → s.rawBytesRecorded < m
  limit : ∀ m ∈ s.maxBytes, 0 < m → ∀ front last, s.file = front ++ [last] → recorded front < m

namespace RecordSink

/-- A push would fail, after these turns of the writer. -/
def refuses (s : RecordSink) (turns : List WriterTurn) : Bool :=
  !s.tx || !(s.handleAll turns).writing || decide (recordQueueCapacity ≤ (s.handleAll turns).queue.length)

/-- Every event was taken. -/
def Steady (s : RecordSink) : Prop := ∀ p ∈ s.offered, p.taken = true

/-- After an event that was not taken none was. -/
def Ended (s : RecordSink) : Prop := s.offered.Pairwise fun p q => p.taken = false → q.taken = false

theorem Steady.ended {s : RecordSink} (h : s.Steady) : s.Ended := by
  refine List.Pairwise.imp_of_mem (R := fun _ _ => True) (fun {p _} hp _ _ hf => ?_) ?_
  · rw [h p hp] at hf
    cases hf
  · exact List.pairwise_of_forall fun _ _ => trivial

/-! ### The writer and the pushes -/

theorem handleOne_cases (s : RecordSink) (t : WriterTurn) : s.handleOne t = s ∨ s.handleOne t = s.quit ∨
    ∃ p rest, s.writing = true ∧ s.queue = p :: rest ∧
      (s.handleOne t = (s.store p rest).quit ∨
        (s.store p rest).exceedsLimits t.now = false ∧ s.handleOne t = s.store p rest) := by
  unfold handleOne
  split
  · rename_i p rest hw hq
    split
    · refine .inr (.inr ⟨p, rest, hw, hq, ?_⟩)
      split
      · exact .inl rfl
      · rename_i hlimit
        exact .inr ⟨Bool.eq_false_iff.2 hlimit, rfl⟩
    · exact .inr (.inl rfl)
  · exact .inl rfl

theorem handleOne_nextSeq (s : RecordSink) (t : WriterTurn) : s.nextSeq.handleOne t = (s.handleOne t).nextSeq := by
  have hw : s.nextSeq.writing = s.writing := rfl
  have hq : s.nextSeq.queue = s.queue := rfl
  have hlimits : ∀ p rest, (s.nextSeq.store p rest).exceedsLimits t.now = (s.store p rest).exceedsLimits t.now :=
    fun _ _ => rfl
  unfold handleOne
  rw [hw, hq]
  split
  · split
    · rw [hlimits]
      split <;> rfl
    · rfl
  · rfl

theorem handleAll_nextSeq (s : RecordSink) (ts : List WriterTurn) :
    s.nextSeq.handleAll ts = (s.handleAll ts).nextSeq := by
  induction ts generalizing s with
  | nil => rfl
  | cons t ts ih =>
    rw [handleAll, List.foldl_cons, handleOne_nextSeq]
    exact ih _

/-- The writer touches nothing but its end of the channel and its file. -/
theorem handleAll_same (s : RecordSink) (ts : List WriterTurn) : ∃ writing queue rawBytesRecorded file,
    s.handleAll ts = { s with writing, queue, rawBytesRecorded, file } := by
  induction ts generalizing s with
  | nil => exact ⟨_, _, _, _, rfl⟩
  | cons t ts ih =>
    obtain ⟨_, _, _, _, hrest⟩ := ih (s.handleOne t)
    have hall : s.handleAll (t :: ts) = (s.handleOne t).handleAll ts := rfl
    rw [hall, hrest]
    obtain hone | hone | ⟨p, rest, -, -, hone | ⟨-, hone⟩⟩ := s.handleOne_cases t <;> rw [hone] <;>
      exact ⟨_, _, _, _, rfl⟩

theorem handleAll_offered (s : RecordSink) (ts : List WriterTurn) : (s.handleAll ts).offered = s.offered := by
  obtain ⟨_, _, _, _, h⟩ := s.handleAll_same ts
  rw [h]

theorem handleAll_recordId (s : RecordSink) (ts : List WriterTurn) : (s.handleAll ts).recordId = s.recordId := by
  obtain ⟨_, _, _, _, h⟩ := s.handleAll_same ts
  rw [h]

theorem handleAll_seq (s : RecordSink) (ts : List WriterTurn) : (s.handleAll ts).seq = s.seq := by
  obtain ⟨_, _, _, _, h⟩ := s.handleAll_same ts
  rw [h]

theorem joinWriter_offered (s : RecordSink) (turns : Nat → WriterTurn) :
    (s.joinWriter turns).offered = s.offered := handleAll_offered _ _

theorem joinWriter_format (s : RecordSink) (turns : Nat → WriterTurn) : (s.joinWriter turns).format = s.format := by
  obtain ⟨_, _, _, _, h⟩ := RecordSink.handleAll_same { s with tx := false } ((List.range s.queue.length).map turns)
  simp only [joinWriter, h, quit]

/-- What a push does: the next number is used up, and the event is taken unless the sink refuses it. -/
theorem tryPush_cases (s : RecordSink) (turns : List WriterTurn) (ts : Nat) (e : RecordEvent) :
    (s.refuses turns = true ∧ (s.tryPush turns ts e).2.isSome = true ∧ ∃ t, (t = s ∨ t = s.handleAll turns) ∧
      (s.tryPush turns ts e).1 = t.nextSeq.refuse ⟨s.seq, ts, e⟩) ∨
    (s.refuses turns = false ∧ (s.tryPush turns ts e).2 = none ∧ (s.handleAll turns).writing = true ∧
      (s.tryPush turns ts e).1 = (s.handleAll turns).nextSeq.accept ⟨s.seq, ts, e⟩) := by
  have hw : (s.handleAll turns).nextSeq.writing = (s.handleAll turns).writing := rfl
  have hq : (s.handleAll turns).nextSeq.queue = (s.handleAll turns).queue := rfl
  have htx : s.nextSeq.tx = s.tx := rfl
  simp only [tryPush, refuses, handleAll_nextSeq, hw, hq, htx]
  cases s.tx with
  | false => exact .inl ⟨rfl, rfl, s, .inl rfl, rfl⟩
  | true =>
    cases hwriting : (s.handleAll turns).writing with
    | false => exact .inl ⟨rfl, rfl, _, .inr rfl, rfl⟩
    | true =>
      by_cases hroom : (s.handleAll turns).queue.length < recordQueueCapacity
      · refine .inr ?_
        simp [hroom]
      · refine .inl ?_
        simp only [Bool.not_true, Bool.false_or, Bool.false_eq_true, if_false, hroom]
        exact ⟨decide_eq_true (Nat.le_of_not_lt hroom), rfl, _, .inr rfl, rfl⟩

theorem tryPush_recordId (s : RecordSink) (turns : List WriterTurn) (ts : Nat) (e : RecordEvent) :
    (s.tryPush turns ts e).1.recordId = s.recordId := by
  obtain ⟨-, -, t, rfl | rfl, heq⟩ | ⟨-, -, -, heq⟩ := s.tryPush_cases turns ts e <;> rw [heq]
  · rfl
  · exact s.handleAll_recordId turns
  · exact s.handleAll_recordId turns

theorem tryPush_offered (s : RecordSink) (turns : List WriterTurn) (ts : Nat) (e : RecordEvent) :
    (s.tryPush turns ts e).1.offered = s.offered ++ [⟨⟨s.seq, ts, e⟩, !s.refuses turns⟩] := by
  obtain ⟨hr, -, t, rfl | rfl, heq⟩ | ⟨hr, -, -, heq⟩ := s.tryPush_cases turns ts e <;> rw [heq, hr]
  · rfl
  · exact congrArg (· ++ _) (s.handleAll_offered turns)
  · exact congrArg (· ++ _) (s.handleAll_offered turns)

theorem tryPush_isSome (s : RecordSink) (turns : List WriterTurn) (ts : Nat) (e : RecordEvent) :
    (s.tryPush turns ts e).2.isSome = s.refuses turns := by
  obtain ⟨hr, hsome, -⟩ | ⟨hr, hnone, -⟩ := s.tryPush_cases turns ts e
  · rw [hr, hsome]
  · rw [hr, hnone]
    rfl

theorem tryPush_refused {s : RecordSink} {turns : List WriterTurn} (hr : s.refuses turns = true) (ts : Nat)
    (e : RecordEvent) : ∃ p ∈ (s.tryPush turns ts e).1.offered, p.taken = false := by
  rw [tryPush_offered, hr]
  exact ⟨_, List.mem_append_right _ (List.mem_singleton_self _), rfl⟩

theorem Steady.tryPush {s : RecordSink} (h : s.Steady) {turns : List WriterTurn} (hr : s.refuses turns = false)
    (ts : Nat) (e : RecordEvent) : (s.tryPush turns ts e).1.Steady := by
  intro p hp
  rw [tryPush_offered] at hp
  rcases List.mem_append.1 hp with hp | hp
  · exact h p hp
  · rw [List.mem_singleton.1 hp, hr]
    rfl

theorem Ended.tryPush {s : RecordSink} (h : s.Ended) {turns : List WriterTurn} (hr : s.refuses turns = true) (ts : Nat)
    (e : RecordEvent) : (s.tryPush turns ts e).1.Ended := by
  rw [Ended, tryPush_offered, List.pairwise_append]
  refine ⟨h, List.pairwise_singleton _ _, fun p _ q hq _ => ?_⟩
  rw [List.mem_singleton.1 hq, hr]
  rfl

end RecordSink

/-! ### What is kept -/

theorem encodeEvent_cases (s : RecordSink) (p : SeqEvent) : s.encodeEvent p = [] ∨ ∃ w, s.encodeEvent p = [w] := by
  unfold RecordSink.encodeEvent
  split
  · unfold encodeRawEvent
    split
    · exact .inr ⟨_, rfl⟩
    · exact .inr ⟨_, rfl⟩
    · exact .inl rfl
  · exact .inr ⟨_, rfl⟩

theorem recorded_append (file more : List Written) : recorded (file ++ more) = recorded file + recorded more := by
  rw [recorded, List.map_append, List.sum_append]
  rfl

theorem recorded_encodeEvent (s : RecordSink) (p : SeqEvent) : recorded (s.encodeEvent p) = rawBytesDelta p.event := by
  unfold RecordSink.encodeEvent
  split
  · unfold encodeRawEvent
    split <;> rename_i hp <;> simp [recorded, Written.rawBytes, hp, rawBytesDelta]
  · simp [recorded, Written.rawBytes]

namespace Kept

variable {s : RecordSink}

theorem newSink (r : RecordRegistry) (request : RecordStartRequest) (startedBy : ClientId) (now : Nat)
    (headerStored : Bool) : Kept (r.newSink request startedBy now headerStored) where
  seq := rfl
  numbered := rfl
  delivered := rfl
  written := ⟨[], [], rfl, rfl, fun _ => rfl⟩
  counted := rfl
  under _ _ _ hm := hm
  limit _ _ _ front last h := by simp [RecordRegistry.newSink] at h

theorem quit (h : Kept s) : Kept s.quit where
  seq := h.seq
  numbered := h.numbered
  delivered := h.delivered
  written := by
    obtain ⟨stored, left, hsplit, hfile, -⟩ := h.written
    exact ⟨stored, left, hsplit, hfile, fun hw => nomatch hw⟩
  counted := h.counted
  under hw := nomatch hw
  limit := h.limit

theorem stored (h : Kept s) {p : SeqEvent} {rest : List SeqEvent} (hw : s.writing = true) (hq : s.queue = p :: rest) :
    ∃ stored, s.delivered = stored ++ rest ∧ (s.store p rest).file = stored.flatMap s.encodeEvent := by
  obtain ⟨stored, left, hsplit, hfile, hleft⟩ := h.written
  refine ⟨stored ++ [p], ?_, ?_⟩
  · rw [List.append_assoc, List.singleton_append, ← hq, hleft hw]
    exact hsplit
  · rw [List.flatMap_append, List.flatMap_singleton]
    exact congrArg (· ++ _) hfile

/-- The next event is stored, where the limit was not reached before it. -/
theorem store_quit (h : Kept s) {p : SeqEvent} {rest : List SeqEvent} (hw : s.writing = true)
    (hq : s.queue = p :: rest) : Kept (s.store p rest).quit where
  seq := h.seq
  numbered := h.numbered
  delivered := h.delivered
  written := by
    obtain ⟨stored, hsplit, hfile⟩ := h.stored hw hq
    exact ⟨stored, rest, hsplit, hfile, fun hw => nomatch hw⟩
  counted := by
    have hcounted := h.counted
    simp only [RecordSink.quit, RecordSink.store, recorded_append, recorded_encodeEvent, hcounted]
  under hw := nomatch hw
  limit m hm hpos front last hfile := by
    have hbefore := h.under hw m hm hpos
    rw [h.counted] at hbefore
    simp only [RecordSink.quit, RecordSink.store] at hfile
    rcases encodeEvent_cases s p with hnone | ⟨w, hone⟩
    · rw [hnone, List.append_nil] at hfile
      exact h.limit m hm hpos front last hfile
    · rw [hone] at hfile
      obtain ⟨hfront, -⟩ := List.append_inj' hfile rfl
      rwa [← hfront]

theorem store (h : Kept s) {p : SeqEvent} {rest : List SeqEvent} (hw : s.writing = true) (hq : s.queue = p :: rest)
    {now : Nat} (hlimits : (s.store p rest).exceedsLimits now = false) : Kept (s.store p rest) where
  seq := h.seq
  numbered := h.numbered
  delivered := h.delivered
  written := by
    obtain ⟨stored, hsplit, hfile⟩ := h.stored hw hq
    exact ⟨stored, rest, hsplit, hfile, fun _ => rfl⟩
  counted := (h.store_quit hw hq).counted
  under _ m hm hpos := by
    have hmax : (s.store p rest).maxBytes = some m := hm
    simp only [RecordSink.exceedsLimits, hmax, Bool.or_eq_false_iff, Bool.and_eq_false_iff,
      decide_eq_false_iff_not] at hlimits
    omega
  limit := (h.store_quit hw hq).limit

theorem handleOne (h : Kept s) (t : WriterTurn) : Kept (s.handleOne t) := by
  obtain hone | hone | ⟨p, rest, hw, hq, hone | ⟨hlimits, hone⟩⟩ := s.handleOne_cases t <;> rw [hone]
  · exact h
  · exact h.quit
  · exact h.store_quit hw hq
  · exact h.store hw hq hlimits

theorem handleAll (h : Kept s) (ts : List WriterTurn) : Kept (s.handleAll ts) := by
  induction ts generalizing s with
  | nil => exact h
  | cons t ts ih => exact ih (h.handleOne t)

theorem joinWriter (h : Kept s) (turns : Nat → WriterTurn) : Kept (s.joinWriter turns) := by
  have hclosed : Kept { s with tx := false } :=
    ⟨h.seq, h.numbered, h.delivered, h.written, h.counted, h.under, h.limit⟩
  exact (hclosed.handleAll _).quit

/-- A number is used up for the next event, whether it is taken or not. -/
theorem numbers (h : Kept s) (p : Push) (hp : p.payload.seq = s.seq) :
    (s.seq + 1) % 2 ^ 32 = ((s.offered ++ [p]).length + 1) % 2 ^ 32 ∧ (s.offered ++ [p]).map (·.payload.seq) =
      (List.range (s.offered ++ [p]).length).map fun i => (i + 1) % 2 ^ 32 := by
  constructor
  · rw [h.seq, List.length_append, List.length_singleton, Nat.mod_add_mod]
  · rw [List.map_append, h.numbered, List.length_append, List.length_singleton, List.range_succ, List.map_append,
      List.map_singleton, List.map_singleton, hp, h.seq]

theorem refuse (h : Kept s) (ts : Nat) (e : RecordEvent) : Kept (s.nextSeq.refuse ⟨s.seq, ts, e⟩) where
  seq := (h.numbers ⟨⟨s.seq, ts, e⟩, false⟩ rfl).1
  numbered := (h.numbers ⟨⟨s.seq, ts, e⟩, false⟩ rfl).2
  delivered := by
    simp only [RecordSink.refuse, RecordSink.nextSeq, List.filter_append, List.map_append, ← h.delivered]
    exact (List.append_nil _).symm
  written := h.written
  counted := h.counted
  under := h.under
  limit := h.limit

theorem accept (h : Kept s) (hw : s.writing = true) (ts : Nat) (e : RecordEvent) :
    Kept (s.nextSeq.accept ⟨s.seq, ts, e⟩) where
  seq := (h.numbers ⟨⟨s.seq, ts, e⟩, true⟩ rfl).1
  numbered := (h.numbers ⟨⟨s.seq, ts, e⟩, true⟩ rfl).2
  delivered := by
    simp only [RecordSink.accept, RecordSink.nextSeq, List.filter_append, List.map_append, ← h.delivered]
    rfl
  written := by
    obtain ⟨stored, left, hsplit, hfile, hleft⟩ := h.written
    refine ⟨stored, left ++ [⟨s.seq, ts, e⟩], ?_, hfile, fun _ => ?_⟩
    · rw [← List.append_assoc, ← hsplit]
      rfl
    · rw [← hleft hw]
      rfl
  counted := h.counted
  under := h.under
  limit := h.limit

theorem tryPush (h : Kept s) (turns : List WriterTurn) (ts : Nat) (e : RecordEvent) :
    Kept (s.tryPush turns ts e).1 := by
  have hseq : (s.handleAll turns).seq = s.seq := s.handleAll_seq turns
  obtain ⟨-, -, t, rfl | rfl, heq⟩ | ⟨-, -, hw, heq⟩ := s.tryPush_cases turns ts e <;> rw [heq]
  · exact h.refuse ts e
  · rw [← hseq]
    exact (h.handleAll turns).refuse ts e
  · rw [← hseq]
    exact (h.handleAll turns).accept hw ts e

theorem unwinding : Unwinding (fun s t => t = s ∧ Kept s) (fun _ e f => f = e) where
  recordId h := by rw [h.1]
  direction h := by rw [h.1]
  inputSecrecy h := by rw [h.1]
  fresh r request startedBy now headerStored := ⟨rfl, .newSink r request startedBy now headerStored⟩
  handleOne := by
    rintro s _ ⟨rfl, h⟩ turn
    exact ⟨rfl, h.handleOne turn⟩
  joinWriter := by
    rintro s _ ⟨rfl, h⟩ turns
    exact ⟨rfl, h.joinWriter turns⟩
  tryPush := by
    rintro s _ _ _ ⟨rfl, h⟩ rfl turns ts
    exact ⟨⟨rfl, h.tryPush turns ts _⟩, rfl⟩
  untyped _ _ _ := rfl

end Kept

/-- A sink without a limit whose writes all succeed stores what waits. -/
theorem joinWriter_stores {s : RecordSink} (hw : s.writing = true) (hbytes : s.maxBytes = none)
    (hduration : s.maxDurationMs = none) {turns : Nat → WriterTurn} (hturns : ∀ i, (turns i).stored = true) :
    (s.joinWriter turns).file = s.file ++ s.queue.flatMap s.encodeEvent := by
  have hall : ∀ (ts : List WriterTurn) (s : RecordSink), s.writing = true → s.maxBytes = none → s.maxDurationMs = none →
      (∀ t ∈ ts, t.stored = true) → ts.length = s.queue.length →
      (s.handleAll ts).file = s.file ++ s.queue.flatMap s.encodeEvent := by
    intro ts
    induction ts with
    | nil =>
      intro s _ _ _ _ hlen
      rw [List.eq_nil_of_length_eq_zero hlen.symm, List.flatMap_nil, List.append_nil]
      rfl
    | cons t ts ih =>
      intro s hw hbytes hduration hstored hlen
      obtain ⟨p, rest, hq⟩ := List.exists_cons_of_length_eq_add_one hlen.symm
      have hone : s.handleOne t = s.store p rest := by
        have hlimits : (s.store p rest).exceedsLimits t.now = false := by
          simp only [RecordSink.exceedsLimits, RecordSink.store, hbytes, hduration]
          rfl
        simp only [RecordSink.handleOne, hw, hq, hstored t List.mem_cons_self, hlimits, if_true, Bool.false_eq_true,
          if_false]
      have hrest := ih (s.store p rest) hw hbytes hduration (fun t ht => hstored t (List.mem_cons_of_mem _ ht)) (by
        rw [hq] at hlen
        exact Nat.succ.inj hlen)
      rw [RecordSink.handleAll, List.foldl_cons, hone, hq, List.flatMap_cons, ← List.append_assoc]
      exact hrest
  refine hall _ { s with tx := false } hw hbytes hduration (fun t ht => ?_) ?_
  · obtain ⟨i, -, rfl⟩ := List.mem_map.1 ht
    exact hturns i
  · rw [List.length_map, List.length_range]

/-! ## The recording -/

/-- The recording of a sink, when it is read. -/
structure Recorded (s : RecordSink) : Prop where
  /-- The lines are those of the events that were offered first. -/
  lines : s.format = .jsonl → ∃ n, s.file = (s.offered.take n).map fun p => .line p.payload
  numbered : s.offered.length < 2 ^ 32 → ∀ i p, s.offered[i]? = some p → p.payload.seq = i + 1
  ended : ∀ before p after, s.offered = before ++ p :: after → p.taken = false → ∀ q ∈ after, q.taken = false
  /-- Before the last thing in the file the limit was not reached. -/
  limit : s.rawBytesRecorded = recorded s.file ∧
    ∀ m ∈ s.maxBytes, 0 < m → ∀ front last, s.file = front ++ [last] → recorded front < m

/-- What was taken came before what was refused. -/
theorem taken_first {l : List Push} (h : l.Pairwise fun p q => p.taken = false → q.taken = false) :
    l.filter (·.taken) <+: l := by
  induction h with
  | nil => exact List.prefix_refl []
  | @cons p l hp _ ih =>
    cases htaken : p.taken with
    | true =>
      rw [List.filter_cons_of_pos htaken]
      exact List.cons_prefix_cons.2 ⟨rfl, ih⟩
    | false =>
      have hnone : (p :: l).filter (·.taken) = [] := by
        refine List.filter_eq_nil_iff.2 (List.forall_mem_cons.2 ⟨by rw [htaken]; decide, fun q hq => ?_⟩)
        rw [hp q hq htaken]
        decide
      rw [hnone]
      exact List.nil_prefix

theorem Kept.recorded {s : RecordSink} (h : Kept s) (hended : s.Ended) : Recorded s where
  lines hjsonl := by
    obtain ⟨stored, left, hsplit, hfile, -⟩ := h.written
    have hlines : s.file = stored.map .line := by
      have hencode : s.encodeEvent = fun p => [.line p] := by
        funext p
        rw [RecordSink.encodeEvent, hjsonl]
      rw [hfile, hencode, ← List.map_eq_flatMap]
    have hfirst : stored <+: s.offered.map (·.payload) := by
      have hdelivered : s.delivered <+: s.offered.map (·.payload) := by
        rw [h.delivered]
        exact (taken_first hended).map _
      exact (hsplit ▸ List.prefix_append stored left).trans hdelivered
    refine ⟨stored.length, ?_⟩
    have htake : stored = (s.offered.take stored.length).map (·.payload) := by
      rw [List.map_take]
      exact List.prefix_iff_eq_take.1 hfirst
    rw [hlines]
    exact (congrArg (List.map Written.line) htake).trans List.map_map
  numbered hlt i p hp := by
    have hi : i < s.offered.length := (List.getElem?_eq_some_iff.1 hp).1
    have hseq := congrArg (·[i]?) h.numbered
    simp only [List.getElem?_map, hp, Option.map_some, List.getElem?_range hi, Option.some.injEq] at hseq
    rw [hseq]
    exact Nat.mod_eq_of_lt (by omega)
  ended before p after hsplit hp q hq := by
    have hall := hended
    rw [RecordSink.Ended, hsplit, List.pairwise_append] at hall
    exact (List.pairwise_cons.1 hall.2.1).1 q hq hp
  limit := ⟨h.counted, h.limit⟩

theorem Recorded.ends {s : RecordSink} (h : Recorded s) : s.Ended := by
  have hended := h.ended
  unfold RecordSink.Ended
  generalize s.offered = l at hended
  induction l with
  | nil => exact .nil
  | cons p l ih =>
    refine List.pairwise_cons.2 ⟨fun q hq hp => hended [] p l rfl hp q hq, ih fun before q after heq => ?_⟩
    exact hended (p :: before) q after (by rw [heq]; rfl)

end Hyoui.Daemon.Record
