import Hyoui.Daemon.Record
import Hyoui.Lib.Lists
import Mathlib.Data.List.Forall2
/-!
# Sinks that never record what clients type

Two runs of the recorder that differ only in the bytes clients typed are compared sink by sink. A
relation between the two copies of a sink that everything done to one sink keeps (`Unwinding`) is
kept by every call on the registry; it is used twice, for what the two runs have in common and for
what a never-record-stdin sink is given at all.
-/

namespace Hyoui.Daemon.Record

open Hyoui.Protocol Hyoui.Lib

/-- The sink stores what clients type. -/
def RecordSink.recordsTyped (s : RecordSink) : Bool :=
  takesStdin s.direction && decide (s.inputSecrecy ≠ .neverRecordStdin)

/-- The writer of the sink stops after a number of bytes. -/
def RecordSink.capped (s : RecordSink) : Bool := s.maxBytes.any (0 < ·)

/-! ## Two registries, sink by sink -/

def isTyped : RecordEvent → Bool
  | .bytesIn .. | .inRejected .. | .inWriteError .. => true
  | _ => false

/-- A relation between the same sink in two runs that everything the registry does to one sink
keeps, as long as what is pushed to the two is related by `D`. -/
structure Unwinding (R : RecordSink → RecordSink → Prop) (D : RecordSink → RecordEvent → RecordEvent → Prop) : Prop where
  recordId {s t} : R s t → t.recordId = s.recordId
  direction {s t} : R s t → t.direction = s.direction
  inputSecrecy {s t} : R s t → t.inputSecrecy = s.inputSecrecy
  fresh (r : RecordRegistry) request startedBy now headerStored :
    R (r.newSink request startedBy now headerStored) (r.newSink request startedBy now headerStored)
  handleOne {s t} : R s t → ∀ turn, R (s.handleOne turn) (t.handleOne turn)
  joinWriter {s t} : R s t → ∀ turns, R (s.joinWriter turns) (t.joinWriter turns)
  tryPush {s t e f} : R s t → D s e f → ∀ turns ts,
    R (s.tryPush turns ts e).1 (t.tryPush turns ts f).1 ∧ (t.tryPush turns ts f).2 = (s.tryPush turns ts e).2
  untyped s {e} : isTyped e = false → D s e e

/-- Two registries whose sinks are related one by one. -/
structure SinkWise (R : RecordSink → RecordSink → Prop) (r q : RecordRegistry) : Prop where
  sinks : List.Forall₂ R r.sinks q.sinks
  nextId : q.nextId = r.nextId
  stopped : List.Forall₂ R r.stopped q.stopped

section SinkWise

open RecordRegistry

variable {R : RecordSink → RecordSink → Prop} {D : RecordSink → RecordEvent → RecordEvent → Prop}
variable (U : Unwinding R D) {r q : RecordRegistry}

include U

theorem pushEach_rel (push push' : RecordSink → Option RecordEvent) {ss ts : List RecordSink} (h : List.Forall₂ R ss ts)
    (hp : ∀ s ∈ ss, ∀ t, R s t → Option.Rel (D s) (push s) (push' t)) (clock : Nat) (waits : Nat → List WriterTurn) :
    List.Forall₂ R (pushEach push clock waits ss).1 (pushEach push' clock waits ts).1 ∧
      (pushEach push' clock waits ts).2 = (pushEach push clock waits ss).2 := by
  induction h generalizing waits with
  | nil => exact ⟨.nil, rfl⟩
  | @cons s t ss ts hst hrest ih =>
    obtain ⟨ihs, ihids⟩ := ih (fun s' hs' => hp s' (List.mem_cons_of_mem _ hs')) fun i => waits (i + 1)
    have hpush := hp s List.mem_cons_self t hst
    simp only [pushEach, ihids, U.recordId hst]
    generalize push s = e at hpush
    generalize push' t = f at hpush
    cases hpush with
    | none => exact ⟨.cons hst ihs, rfl⟩
    | some hd =>
      obtain ⟨hst', herr⟩ := U.tryPush hst hd (waits 0) clock
      simp only [herr]
      exact ⟨.cons hst' ihs, trivial⟩

/-- The first sinks with one id are related, and so are those left. -/
theorem take_rel {ss ts : List RecordSink} (h : List.Forall₂ R ss ts) (id : Nat) :
    Option.Rel (fun x y => R x.1 y.1 ∧ List.Forall₂ R x.2 y.2) (take id ss) (take id ts) := by
  induction h with
  | nil => exact .none
  | cons hst hrest ih =>
    simp only [take, U.recordId hst]
    split
    · exact .some ⟨hst, hrest⟩
    · generalize take id _ = x at ih
      generalize take id _ = y at ih
      cases ih with
      | none => exact .none
      | some hxy => exact .some ⟨hxy.1, .cons hst hxy.2⟩

theorem joinEach_rel {ss ts : List RecordSink} (h : List.Forall₂ R ss ts) (drains : Nat → Nat → WriterTurn) :
    List.Forall₂ R (joinEach drains ss) (joinEach drains ts) := by
  induction h generalizing drains with
  | nil => exact .nil
  | cons hst _ ih => exact .cons (U.joinWriter hst _) (ih _)

theorem modify_rel {ss ts : List RecordSink} (h : List.Forall₂ R ss ts) (place : Nat) (turn : WriterTurn) :
    List.Forall₂ R (ss.modify place (·.handleOne turn)) (ts.modify place (·.handleOne turn)) := by
  induction h generalizing place with
  | nil => simp only [List.modify_nil, List.Forall₂.nil]
  | cons hst hrest ih =>
    cases place with
    | zero => exact .cons (U.handleOne hst turn) hrest
    | succ place => exact .cons hst (ih place)

theorem retire_rel (h : SinkWise R r q) (a : Answers) (round : Nat) (ids : List Nat) :
    SinkWise R (retire a round ids r) (retire a round ids q) := by
  induction ids generalizing r q round with
  | nil => exact h
  | cons id ids ih =>
    have htake := take_rel U h.sinks id
    simp only [retire]
    refine ih ?_ _
    generalize take id r.sinks = x at htake
    generalize take id q.sinks = y at htake
    cases htake with
    | none => exact h
    | some hxy =>
      have hnoticed := pushEach_rel U (fun _ => some (abortNotice id)) (fun _ => some (abortNotice id)) hxy.2
        (fun s _ _ _ => .some (U.untyped s rfl)) (a.clock round) (a.waits round)
      exact ⟨hnoticed.1, h.nextId, List.rel_append h.stopped (.cons (U.joinWriter hxy.1 _) .nil)⟩

theorem broadcastFor_rel (h : SinkWise R r q) {filter : RecordDirection → Bool}
    {push push' : RecordSink → Option RecordEvent}
    (hp : ∀ s ∈ r.sinks, ∀ t, R s t → filter s.direction = true → Option.Rel (D s) (push s) (push' t)) (a : Answers) :
    SinkWise R (r.broadcastFor filter push a) (q.broadcastFor filter push' a) := by
  obtain ⟨hsinks, hids⟩ := pushEach_rel U (fun s => if filter s.direction then push s else none)
    (fun s => if filter s.direction then push' s else none) h.sinks
    (fun s hs t hst => by
      simp only [U.direction hst]
      split
      · exact hp s hs t hst ‹_›
      · exact .none) (a.clock 0) (a.waits 0)
  simp only [broadcastFor, hids]
  have hpushed : SinkWise R { r with sinks := _ } { q with sinks := _ } := ⟨hsinks, h.nextId, h.stopped⟩
  exact retire_rel U hpushed a 1 _

/-- An event that no client typed. -/
theorem broadcastSame_rel (h : SinkWise R r q) (filter : RecordDirection → Bool) {e : RecordEvent}
    (he : isTyped e = false) (a : Answers) :
    SinkWise R (r.broadcastFor filter (fun _ => some e) a) (q.broadcastFor filter (fun _ => some e) a) :=
  broadcastFor_rel U h (fun s _ _ _ _ => .some (U.untyped s he)) a

theorem pushTyped_rel (h : SinkWise R r q) (e f : RecordEvent) (hd : ∀ s ∈ r.sinks, s.recordsTyped = true → D s e f)
    (a : Answers) : SinkWise R (r.pushTyped e a) (q.pushTyped f a) := by
  refine broadcastFor_rel U h (fun s hs t hst hf => ?_) a
  simp only [U.inputSecrecy hst]
  split
  · exact .none
  · rename_i hsec
    refine .some (hd s hs ?_)
    simp only [RecordSink.recordsTyped, hf, hsec, ne_eq, not_false_iff, decide_true, Bool.and_true]

theorem stop_rel (h : SinkWise R r q) (id : Nat) (a : Answers) : SinkWise R (r.stop id a) (q.stop id a) := by
  have htake := take_rel U h.sinks id
  simp only [stop]
  generalize take id r.sinks = x at htake
  generalize take id q.sinks = y at htake
  cases htake with
  | none => exact h
  | some hxy => exact ⟨hxy.2, h.nextId, List.rel_append h.stopped (.cons (U.joinWriter hxy.1 _) .nil)⟩

theorem stopAll_rel (h : SinkWise R r q) (a : Answers) : SinkWise R (r.stopAll a) (q.stopAll a) :=
  ⟨.nil, h.nextId, List.rel_append h.stopped (joinEach_rel U h.sinks _)⟩

theorem start_rel (h : SinkWise R r q) (request : RecordStartRequest) (startedBy : ClientId) (os : StartAnswers) (now : Nat) :
    SinkWise R (r.start request startedBy os now).1 (q.start request startedBy os now).1 := by
  have hnew : q.newSink request startedBy now os.headerStored = r.newSink request startedBy now os.headerStored := by
    simp only [newSink, h.nextId]
  simp only [start, hnew, h.nextId]
  repeat' split
  all_goals first
    | exact h
    | exact ⟨h.sinks, rfl, h.stopped⟩
    | exact ⟨List.rel_append h.sinks (.cons (U.fresh _ _ _ _ _) .nil), rfl, h.stopped⟩

/-- One call made in both runs. -/
theorem step_rel (h : SinkWise R r q) (m : Move)
    (hd : ∀ e, isTyped e = true → ∀ s ∈ r.sinks, s.recordsTyped = true → D s e e) : SinkWise R (step r m) (step q m) := by
  cases hm : m.call <;> simp only [step, hm]
  case start => exact start_rel U h _ _ _ _
  case stop => exact stop_rel U h _ _
  case stopAll => exact stopAll_rel U h _
  case bytesIn =>
    unfold pushBytesIn
    split
    · exact h
    · exact pushTyped_rel U h _ _ (hd _ rfl) _
  case bytesOut =>
    unfold pushBytesOut
    split
    · exact h
    · exact broadcastSame_rel U h _ rfl _
  case inRejected => exact pushTyped_rel U h _ _ (hd _ rfl) _
  case inWriteError => exact pushTyped_rel U h _ _ (hd _ rfl) _
  case inSecretRedacted => exact broadcastSame_rel U h _ rfl _
  case lifecycle => exact broadcastSame_rel U h _ rfl _
  case writer => exact ⟨modify_rel U h.sinks _ _, h.nextId, h.stopped⟩

end SinkWise

/-! ## Sinks that differ in what was typed -/

/-- A sink less what it stored and what waits to be stored. -/
def RecordSink.shape (s : RecordSink) : RecordSink :=
  { s with queue := [], rawBytesRecorded := 0, file := [], delivered := [], offered := [] }

/-- The same sink in two runs that differ in what clients typed: only a sink that stores it may
differ, and then neither in how many events wait nor, where bytes are counted, in their number. -/
structure Alike (s t : RecordSink) : Prop where
  blind : s.recordsTyped = false → t = s
  shape : t.shape = s.shape
  queue : List.Forall₂ (fun p q => s.capped → rawBytesDelta q.event = rawBytesDelta p.event) s.queue t.queue
  raw : s.capped → t.rawBytesRecorded = s.rawBytesRecorded

namespace RecordSink

theorem handleOne_inputSecrecy (s : RecordSink) (t : WriterTurn) : (s.handleOne t).inputSecrecy = s.inputSecrecy := by
  unfold handleOne
  repeat' split
  all_goals rfl

theorem handleAll_inputSecrecy (s : RecordSink) (ts : List WriterTurn) :
    (s.handleAll ts).inputSecrecy = s.inputSecrecy := by
  induction ts generalizing s with
  | nil => rfl
  | cons t ts ih => exact (ih _).trans (s.handleOne_inputSecrecy t)

@[simp] theorem handleOne_recordsTyped (s : RecordSink) (t : WriterTurn) :
    (s.handleOne t).recordsTyped = s.recordsTyped := by
  unfold handleOne
  repeat' split
  all_goals rfl

@[simp] theorem handleOne_capped (s : RecordSink) (t : WriterTurn) : (s.handleOne t).capped = s.capped := by
  unfold handleOne
  repeat' split
  all_goals rfl

@[simp] theorem handleAll_recordsTyped (s : RecordSink) (ts : List WriterTurn) :
    (s.handleAll ts).recordsTyped = s.recordsTyped := by
  induction ts generalizing s with
  | nil => rfl
  | cons t ts ih => exact (ih _).trans (s.handleOne_recordsTyped t)

@[simp] theorem handleAll_capped (s : RecordSink) (ts : List WriterTurn) : (s.handleAll ts).capped = s.capped := by
  induction ts generalizing s with
  | nil => rfl
  | cons t ts ih => exact (ih _).trans (s.handleOne_capped t)

end RecordSink

namespace Alike

variable {s t : RecordSink}

theorem refl (s : RecordSink) : Alike s s where
  blind _ := rfl
  shape := rfl
  queue := List.forall₂_same.2 fun _ _ _ => rfl
  raw _ := rfl

theorem recordId (h : Alike s t) : t.recordId = s.recordId := (congrArg RecordSink.recordId h.shape :)
theorem direction (h : Alike s t) : t.direction = s.direction := (congrArg RecordSink.direction h.shape :)
theorem inputSecrecy (h : Alike s t) : t.inputSecrecy = s.inputSecrecy := (congrArg RecordSink.inputSecrecy h.shape :)
theorem maxBytes (h : Alike s t) : t.maxBytes = s.maxBytes := (congrArg RecordSink.maxBytes h.shape :)
theorem tx (h : Alike s t) : t.tx = s.tx := (congrArg RecordSink.tx h.shape :)
theorem writing (h : Alike s t) : t.writing = s.writing := (congrArg RecordSink.writing h.shape :)
theorem seq (h : Alike s t) : t.seq = s.seq := (congrArg RecordSink.seq h.shape :)

theorem exceedsLimits (h : Alike s t) (now : Nat) : t.exceedsLimits now = s.exceedsLimits now := by
  have hd : t.maxDurationMs = s.maxDurationMs := (congrArg RecordSink.maxDurationMs h.shape :)
  have hs : t.startedUnixMs = s.startedUnixMs := (congrArg RecordSink.startedUnixMs h.shape :)
  have hr := h.raw
  simp only [RecordSink.exceedsLimits, h.maxBytes, hd, hs]
  unfold RecordSink.capped at hr
  cases hm : s.maxBytes with
  | none => rfl
  | some m =>
    simp only [hm, Option.any_some, decide_eq_true_eq] at hr
    by_cases h0 : 0 < m
    · simp only [hr h0]
    · simp only [h0, decide_false, Bool.false_and]

theorem quit (h : Alike s t) : Alike s.quit t.quit where
  blind hb := congrArg RecordSink.quit (h.blind hb)
  shape := congrArg RecordSink.quit h.shape
  queue := .nil
  raw := h.raw

theorem store (h : Alike s t) {p q : SeqEvent} {ps qs : List SeqEvent} (hs : s.queue = p :: ps) (ht : t.queue = q :: qs) :
    Alike (s.store p ps) (t.store q qs) := by
  have hq := h.queue
  rw [hs, ht, List.forall₂_cons] at hq
  refine ⟨fun hb => ?_, ?_, hq.2, fun hc => ?_⟩
  · have heq := h.blind hb
    subst heq
    rw [hs] at ht
    cases ht
    rfl
  · exact h.shape
  · exact congrArg₂ (· + ·) (h.raw hc) (hq.1 hc)

theorem handleOne (h : Alike s t) (turn : WriterTurn) : Alike (s.handleOne turn) (t.handleOne turn) := by
  have hq := h.queue
  unfold RecordSink.handleOne
  rw [h.writing]
  cases hw : s.writing with
  | false => exact h
  | true =>
    cases hs : s.queue with
    | nil =>
      rw [hs, List.forall₂_nil_left_iff] at hq
      rw [hq]
      exact h
    | cons p ps =>
      rw [hs, List.forall₂_cons_left_iff] at hq
      obtain ⟨q, qs, -, -, ht⟩ := hq
      rw [ht]
      have hstore := h.store hs ht
      simp only [hstore.exceedsLimits]
      split
      · split
        · exact hstore.quit
        · exact hstore
      · exact h.quit

theorem handleAll (h : Alike s t) (turns : List WriterTurn) : Alike (s.handleAll turns) (t.handleAll turns) := by
  induction turns generalizing s t with
  | nil => exact h
  | cons turn turns ih => exact ih (h.handleOne turn)

theorem joinWriter (h : Alike s t) (turns : Nat → WriterTurn) : Alike (s.joinWriter turns) (t.joinWriter turns) := by
  have hclosed : Alike { s with tx := false } { t with tx := false } :=
    ⟨fun hb => by rw [h.blind hb], congrArg (fun s : RecordSink => { s with tx := false }) h.shape, h.queue, h.raw⟩
  have hlen : t.queue.length = s.queue.length := h.queue.length_eq.symm
  simp only [RecordSink.joinWriter, hlen]
  exact (hclosed.handleAll _).quit

theorem nextSeq (h : Alike s t) : Alike s.nextSeq t.nextSeq where
  blind hb := congrArg RecordSink.nextSeq (h.blind hb)
  shape := congrArg RecordSink.nextSeq h.shape
  queue := h.queue
  raw := h.raw

/-- What the channel of a sink may take in the two runs. -/
def Deliverable (s : RecordSink) (e f : RecordEvent) : Prop :=
  (s.recordsTyped = false → f = e) ∧ (s.capped → rawBytesDelta f = rawBytesDelta e)

/-- A sink that stores what is typed may take any two events of the same byte count. -/
theorem Deliverable.typed {e f : RecordEvent} (ht : s.recordsTyped = true)
    (hb : s.capped → rawBytesDelta f = rawBytesDelta e) : Deliverable s e f := by
  refine ⟨fun hf => ?_, hb⟩
  rw [ht] at hf
  cases hf

theorem accept (h : Alike s t) {p q : SeqEvent} (hd : Deliverable s p.event q.event)
    (hseq : q.seq = p.seq) (hts : q.tsUnixMs = p.tsUnixMs) : Alike (s.accept p) (t.accept q) := by
  refine ⟨fun hb => ?_, h.shape, ?_, h.raw⟩
  · obtain ⟨_, _, _⟩ := p
    obtain ⟨_, _, _⟩ := q
    cases hseq
    cases hts
    cases hd.1 hb
    rw [h.blind hb]
  · exact List.rel_append h.queue (.cons hd.2 .nil)

theorem refuse (h : Alike s t) {p q : SeqEvent} (hd : Deliverable s p.event q.event)
    (hseq : q.seq = p.seq) (hts : q.tsUnixMs = p.tsUnixMs) : Alike (s.refuse p) (t.refuse q) := by
  refine ⟨fun hb => ?_, h.shape, h.queue, h.raw⟩
  obtain ⟨_, _, _⟩ := p
  obtain ⟨_, _, _⟩ := q
  cases hseq
  cases hts
  cases hd.1 hb
  rw [h.blind hb]

theorem tryPush (h : Alike s t) {e f : RecordEvent} (hd : Deliverable s e f) (turns : List WriterTurn) (ts : Nat) :
    Alike (s.tryPush turns ts e).1 (t.tryPush turns ts f).1 ∧
      (t.tryPush turns ts f).2 = (s.tryPush turns ts e).2 := by
  have hafter := h.nextSeq.handleAll turns
  have hd' : Deliverable (s.nextSeq.handleAll turns) e f := by
    simp only [Deliverable, RecordSink.handleAll_recordsTyped, RecordSink.handleAll_capped]
    exact hd
  simp only [RecordSink.tryPush, h.nextSeq.tx, hafter.writing, ← hafter.queue.length_eq, h.seq]
  repeat' split
  · exact ⟨h.nextSeq.refuse hd rfl rfl, rfl⟩
  · exact ⟨hafter.refuse hd' rfl rfl, rfl⟩
  · exact ⟨hafter.accept hd' rfl rfl, rfl⟩
  · exact ⟨hafter.refuse hd' rfl rfl, rfl⟩

end Alike

theorem Alike.unwinding : Unwinding Alike Alike.Deliverable where
  recordId h := h.recordId
  direction h := h.direction
  inputSecrecy h := h.inputSecrecy
  fresh _ _ _ _ _ := .refl _
  handleOne h := h.handleOne
  joinWriter h := h.joinWriter
  tryPush h hd := h.tryPush hd
  untyped _ _ _ := ⟨fun _ => rfl, fun _ => rfl⟩

/-! ## What a never-record-stdin sink is given -/

/-- No typed event has entered the channel of a sink that must not record any. -/
def Clean (s : RecordSink) : Prop :=
  s.inputSecrecy = .neverRecordStdin → ∀ p ∈ s.delivered, isTyped p.event = false

namespace Clean

variable {s : RecordSink}

theorem handleOne (h : Clean s) (turn : WriterTurn) : Clean (s.handleOne turn) := by
  unfold RecordSink.handleOne
  repeat' split
  all_goals exact h

theorem handleAll (h : Clean s) (turns : List WriterTurn) : Clean (s.handleAll turns) := by
  induction turns generalizing s with
  | nil => exact h
  | cons turn turns ih => exact ih (h.handleOne turn)

theorem joinWriter (h : Clean s) (turns : Nat → WriterTurn) : Clean (s.joinWriter turns) := by
  have hclosed : Clean { s with tx := false } := h
  exact hclosed.handleAll _

theorem accept (h : Clean s) {p : SeqEvent} (hp : s.inputSecrecy = .neverRecordStdin → isTyped p.event = false) :
    Clean (s.accept p) := by
  intro hs q hq
  rcases List.mem_append.1 hq with hq | hq
  · exact h hs q hq
  · cases List.mem_singleton.1 hq
    exact hp hs

theorem tryPush (h : Clean s) {e : RecordEvent} (he : s.inputSecrecy = .neverRecordStdin → isTyped e = false)
    (turns : List WriterTurn) (ts : Nat) : Clean (s.tryPush turns ts e).1 := by
  have hnext : Clean s.nextSeq := h
  have hafter := hnext.handleAll turns
  have hsec : (s.nextSeq.handleAll turns).inputSecrecy = s.inputSecrecy := RecordSink.handleAll_inputSecrecy _ _
  unfold RecordSink.tryPush
  dsimp only
  repeat' split
  · exact hnext
  · exact hafter
  · refine hafter.accept fun hs => he ?_
    rw [← hsec]
    exact hs
  · exact hafter

theorem unwinding : Unwinding (fun s t => t = s ∧ Clean s)
    (fun s e f => f = e ∧ (s.inputSecrecy = .neverRecordStdin → isTyped e = false)) where
  recordId h := by rw [h.1]
  direction h := by rw [h.1]
  inputSecrecy h := by rw [h.1]
  fresh _ _ _ _ _ := ⟨rfl, fun _ p hp => absurd hp List.not_mem_nil⟩
  handleOne := by
    rintro s _ ⟨rfl, h⟩ turn
    exact ⟨rfl, h.handleOne turn⟩
  joinWriter := by
    rintro s _ ⟨rfl, h⟩ turns
    exact ⟨rfl, h.joinWriter turns⟩
  tryPush := by
    rintro s _ e _ ⟨rfl, h⟩ ⟨rfl, he⟩ turns ts
    exact ⟨⟨rfl, h.tryPush he turns ts⟩, rfl⟩
  untyped _ _ he := ⟨rfl, fun _ => he⟩

end Clean

/-- The sinks that never record what clients type, with all that each was given and stored. -/
def RecordRegistry.neverRecordStdin (r : RecordRegistry) : List RecordSink :=
  (r.sinks ++ r.stopped).filter fun s => decide (s.inputSecrecy = .neverRecordStdin)

theorem run_clean (ms : List Move) : SinkWise (fun s t => t = s ∧ Clean s) (run ms) (run ms) := by
  have hstart : SinkWise (fun s t => t = s ∧ Clean s) .new .new := ⟨.nil, rfl, .nil⟩
  unfold run
  generalize RecordRegistry.new = r at hstart
  induction ms generalizing r with
  | nil => exact hstart
  | cons m ms ih =>
    refine ih _ (step_rel Clean.unwinding hstart m fun e _ s _ hs => ⟨rfl, fun hn => ?_⟩)
    simp only [RecordSink.recordsTyped, hn, ne_eq, not_true_eq_false, decide_false, Bool.and_false,
      Bool.false_eq_true] at hs

/-! ## Two runs that differ in what was typed -/

/-- Two calls that differ only in the bytes a client typed; `ok` is asked of what was written to
the child. -/
inductive SameButTyped (ok : Bytes → Bytes → Prop) : Call → Call → Prop
  | same (c : Call) : SameButTyped ok c c
  | bytesIn {clientId xs ys} : ok xs ys → SameButTyped ok (.bytesIn clientId xs) (.bytesIn clientId ys)
  | inRejected {clientId mode holder reason xs ys} :
    SameButTyped ok (.inRejected clientId mode holder reason xs) (.inRejected clientId mode holder reason ys)
  | inWriteError {clientId requested written requested' written' error xs ys} :
    SameButTyped ok (.inWriteError clientId requested written error xs)
      (.inWriteError clientId requested' written' error ys)

/-- The sinks that store what is typed get `xs` and `ys` alike: an event in both runs or in
neither, and as many bytes in both where a sink counts them. -/
structure RecordRegistry.SameMeasure (r : RecordRegistry) (xs ys : Bytes) : Prop where
  event : ∀ s ∈ r.sinks, s.recordsTyped = true → (xs = [] ↔ ys = [])
  bytes : ∀ s ∈ r.sinks, s.recordsTyped = true → s.capped = true → xs.length = ys.length

/-- Two runs from one registry, call by call the same but for what was typed, which is measured
alike. -/
inductive TwoRuns : RecordRegistry → List Move → List Move → Prop
  | done {r} : TwoRuns r [] []
  | next {r m n ms ns} : SameButTyped r.SameMeasure m.call n.call → n.answers = m.answers →
    TwoRuns (step r m) ms ns → TwoRuns r (m :: ms) (n :: ns)

theorem pushEach_none (ts : Nat) (waits : Nat → List WriterTurn) {push : RecordSink → Option RecordEvent} {ss : List RecordSink}
    (h : ∀ s ∈ ss, push s = none) : RecordRegistry.pushEach push ts waits ss = (ss, []) := by
  induction ss generalizing waits with
  | nil => rfl
  | cons s ss ih =>
    simp only [RecordRegistry.pushEach, h s List.mem_cons_self, ih _ fun x hx => h x (List.mem_cons_of_mem _ hx)]

theorem pushBytesIn_unrecorded {r : RecordRegistry} (h : ∀ s ∈ r.sinks, s.recordsTyped = false) (clientId : ClientId)
    (bytes : Bytes) (a : Answers) : r.pushBytesIn clientId bytes a = r := by
  have hnone : ∀ s ∈ r.sinks, (if takesStdin s.direction then
      (if s.inputSecrecy = .neverRecordStdin then none else some (RecordEvent.bytesIn clientId bytes)) else none) = none := by
    intro s hs
    have := h s hs
    simp only [RecordSink.recordsTyped, Bool.and_eq_false_iff, decide_eq_false_iff_not, ne_eq, Decidable.not_not] at this
    rcases this with hd | hn
    · simp only [hd, Bool.false_eq_true, if_false]
    · simp only [hn, if_true, ite_self]
  unfold RecordRegistry.pushBytesIn RecordRegistry.pushTyped RecordRegistry.broadcastFor
  rw [pushEach_none _ _ hnone]
  split <;> rfl

theorem Alike.recordsTyped {s t : RecordSink} (h : Alike s t) : t.recordsTyped = s.recordsTyped := by
  simp only [RecordSink.recordsTyped, h.direction, h.inputSecrecy]

theorem pushBytesIn_alike {r q : RecordRegistry} (h : SinkWise Alike r q) {xs ys : Bytes} (hm : r.SameMeasure xs ys)
    (clientId : ClientId) (a : Answers) : SinkWise Alike (r.pushBytesIn clientId xs a) (q.pushBytesIn clientId ys a) := by
  by_cases hrec : ∃ s ∈ r.sinks, s.recordsTyped = true
  · obtain ⟨s, hs, htyped⟩ := hrec
    have hempty : ys.isEmpty = xs.isEmpty := by
      rw [Bool.eq_iff_iff, List.isEmpty_iff, List.isEmpty_iff]
      exact (hm.event s hs htyped).symm
    simp only [RecordRegistry.pushBytesIn, hempty]
    split
    · exact h
    · exact pushTyped_rel Alike.unwinding h (.bytesIn clientId xs) (.bytesIn clientId ys)
        (fun s hs ht => .typed ht fun hc => (hm.bytes s hs ht hc).symm) a
  · -- Nothing registered stores the bytes: neither run does anything with them.
    have hr : ∀ s ∈ r.sinks, s.recordsTyped = false := fun s hs =>
      Bool.eq_false_iff.2 fun ht => hrec ⟨s, hs, ht⟩
    have hq : ∀ t ∈ q.sinks, t.recordsTyped = false := by
      intro t ht
      obtain ⟨s, hs, hst⟩ := forall₂_mem_right h.sinks ht
      rw [hst.recordsTyped, hr s hs]
    rw [pushBytesIn_unrecorded hr, pushBytesIn_unrecorded hq]
    exact h

theorem step_alike {r q : RecordRegistry} (h : SinkWise Alike r q) {m n : Move}
    (hcall : SameButTyped r.SameMeasure m.call n.call) (hans : n.answers = m.answers) :
    SinkWise Alike (step r m) (step q n) := by
  obtain ⟨c, a⟩ := m
  obtain ⟨c', a'⟩ := n
  cases hans
  cases hcall with
  | same => exact step_rel Alike.unwinding h _ fun e _ s _ _ => ⟨fun _ => rfl, fun _ => rfl⟩
  | bytesIn hm => exact pushBytesIn_alike h hm _ _
  | @inRejected clientId mode holder reason xs ys =>
    exact pushTyped_rel Alike.unwinding h (.inRejected clientId mode holder reason xs)
      (.inRejected clientId mode holder reason ys) (fun s _ ht => .typed ht fun _ => rfl) a
  | @inWriteError clientId requested written requested' written' error xs ys =>
    exact pushTyped_rel Alike.unwinding h (.inWriteError clientId requested written error xs)
      (.inWriteError clientId requested' written' error ys) (fun s _ ht => .typed ht fun _ => rfl) a

theorem TwoRuns.alike {r q : RecordRegistry} {ms ns : List Move} (h : TwoRuns r ms ns) (hrq : SinkWise Alike r q) :
    SinkWise Alike (ms.foldl step r) (ns.foldl step q) := by
  induction h generalizing q with
  | done => exact hrq
  | next hcall hans _ ih => exact ih (step_alike hrq hcall hans)

theorem SinkWise.neverRecordStdin {r q : RecordRegistry} (h : SinkWise Alike r q) :
    q.neverRecordStdin = r.neverRecordStdin := by
  have hall : List.Forall₂ Alike (r.sinks ++ r.stopped) (q.sinks ++ q.stopped) := List.rel_append h.sinks h.stopped
  unfold RecordRegistry.neverRecordStdin
  generalize r.sinks ++ r.stopped = ss at hall ⊢
  generalize q.sinks ++ q.stopped = ts at hall ⊢
  induction hall with
  | nil => rfl
  | @cons s t ss ts hst _ ih =>
    simp only [List.filter_cons, hst.inputSecrecy, ih]
    split
    · rename_i hn
      rw [decide_eq_true_eq] at hn
      have hb : s.recordsTyped = false := by
        simp only [RecordSink.recordsTyped, hn, ne_eq, not_true_eq_false, decide_false, Bool.and_false]
      rw [hst.blind hb]
    · rfl

/-- A record of everything that stops after four bytes, and a record that never takes what is
typed. The writer of the first handles the typed bytes, then a client attaches. -/
def cappedBesideNever (typed : Bytes) : List Move :=
  [{ call := .start ⟨.both, .jsonl, "/tmp/a.jsonl", some 4, none, .recordAll, none⟩ 1 {} },
   { call := .start ⟨.both, .jsonl, "/tmp/b.jsonl", none, none, .neverRecordStdin, none⟩ 1 {} },
   { call := .bytesIn 1 typed },
   { call := .writer 0 {} },
   { call := .lifecycle (.clientAttached 2 .rw) }]

/-- How many bytes were typed decides when the first record stops, and the second is told. -/
theorem typed_count_reaches_never_record_stdin :
    List.Forall₂ (fun m n => SameButTyped (fun _ _ => True) m.call n.call ∧ n.answers = m.answers)
        (cappedBesideNever [112, 119, 49]) (cappedBesideNever [112, 119, 49, 50]) ∧
      (run (cappedBesideNever [112, 119, 49, 50])).neverRecordStdin ≠
        (run (cappedBesideNever [112, 119, 49])).neverRecordStdin :=
  ⟨.cons ⟨.same _, rfl⟩ (.cons ⟨.same _, rfl⟩ (.cons ⟨.bytesIn trivial, rfl⟩ (.cons ⟨.same _, rfl⟩
      (.cons ⟨.same _, rfl⟩ .nil)))),
    by decide +kernel⟩

/-- What a never-record-stdin sink is given, numbers and stores does not depend on what clients
typed, as long as the sinks that do store it measure it alike; and no typed event is ever given to it. -/
theorem never_record_stdin_blind (ms ns : List Move) (h : TwoRuns .new ms ns) :
    (run ns).neverRecordStdin = (run ms).neverRecordStdin ∧
      ∀ s ∈ (run ms).neverRecordStdin, ∀ p ∈ s.delivered, isTyped p.event = false := by
  refine ⟨(h.alike ⟨.nil, rfl, .nil⟩).neverRecordStdin, fun s hs p hp => ?_⟩
  simp only [RecordRegistry.neverRecordStdin, List.mem_filter, decide_eq_true_eq] at hs
  have hclean := run_clean ms
  have hall := List.forall₂_same.1 (List.rel_append hclean.sinks hclean.stopped)
  exact (hall s hs.1).2 hs.2 p hp

/-- Two passwords of one length. -/
theorem never_record_stdin_blind_passwords :
    (run (cappedBesideNever [120, 121, 122])).neverRecordStdin = (run (cappedBesideNever [112, 119, 49])).neverRecordStdin ∧
      ∀ s ∈ (run (cappedBesideNever [112, 119, 49])).neverRecordStdin, ∀ p ∈ s.delivered, isTyped p.event = false :=
  never_record_stdin_blind _ _ <|
    .next (.same _) rfl <| .next (.same _) rfl <|
      .next (.bytesIn ⟨fun _ _ _ => by decide, fun _ _ _ _ => rfl⟩) rfl <| .next (.same _) rfl <| .next (.same _) rfl .done

end Hyoui.Daemon.Record
