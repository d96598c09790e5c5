import Hyoui.Protocol.Frame
/-!
# The send queue of one client

`SendQueue` holds whole frames and an offset into the first one: the bytes of it that are
already on the socket. `enqueueForClient` and its siblings add frames, `writeTo` moves bytes
from the front to the socket.

`Link` adds what an observer sees, the bytes on the socket and the frames the queue took. Over
any run of operations (`runLink_inv`) the bytes written and the bytes queued are the accepted
frames in order; a failed write drops what was queued, and from then on what was written is a
prefix of what was accepted.

A `write(2)` on the nonblocking socket is a `WriteResult`; a call of `writeTo` reads them from
a list, and where the list ends the socket takes no more.
-/

namespace Hyoui.Daemon

open Hyoui.Protocol

/-- One `write(2)` of a non-empty buffer: `ok n` takes the first `n` bytes (all of them if
there are fewer). -/
inductive WriteResult where
  | ok (n : Nat)
  | wouldBlock
  | interrupted
  | err
deriving DecidableEq

inductive WriteProgress where
  | drained
  | blocked
  | paused
  | failed
deriving DecidableEq

inductive EnqueueOutcome where
  | sent
  | overflow
  | sendFailed
deriving DecidableEq

structure SendQueue where
  frames : List Bytes := []
  headWritten : Nat := 0
  queuedBytes : Nat := 0
  failed : Bool := false
deriving DecidableEq

namespace SendQueue

def isSettled (q : SendQueue) : Bool := q.failed || q.frames.isEmpty

def push (q : SendQueue) (payload : Bytes) : SendQueue :=
  { q with queuedBytes := q.queuedBytes + payload.length, frames := q.frames ++ [payload] }

def fail (q : SendQueue) : SendQueue :=
  { q with failed := true, frames := [], headWritten := 0, queuedBytes := 0 }

/-- The loop's `continue` branch: frames at the front with nothing left to write are popped. -/
def popWritten (q : SendQueue) : SendQueue :=
  let rec go : List Bytes → Nat → List Bytes × Nat
    | [], h => ([], h)
    | f :: fs, h => if (f.drop h).isEmpty then go fs 0 else (f :: fs, h)
  let (frames, headWritten) := go q.frames q.headWritten
  { q with frames, headWritten }

/-- The queue after `n` more bytes of its first frame went out. -/
def advance (q : SendQueue) (front : Bytes) (more : List Bytes) (n : Nat) : SendQueue :=
  let headWritten := q.headWritten + n
  let queuedBytes := q.queuedBytes - n
  if headWritten = front.length then { q with frames := more, headWritten := 0, queuedBytes }
  else { q with headWritten, queuedBytes }

/-- The loop of `write_to`; the third component is what it put on the socket. -/
def writeLoop (q : SendQueue) (left : Nat) (script : List WriteResult) : SendQueue × WriteProgress × Bytes :=
  let q := q.popWritten
  match q.frames with
  | [] => (q, .drained, [])
  | front :: more =>
    let rest := front.drop q.headWritten
    if left = 0 then (q, .paused, [])
    else match script with
      | [] => (q, .blocked, [])
      | .ok 0 :: _ => (q.fail, .failed, [])
      | .ok k :: script =>
        let n := min k (min rest.length left)
        let (q', progress, written) := writeLoop (q.advance front more n) (left - n) script
        (q', progress, rest.take n ++ written)
      | .wouldBlock :: _ => (q, .blocked, [])
      | .interrupted :: script => writeLoop q left script
      | .err :: _ => (q.fail, .failed, [])
termination_by structural script

def writeTo (q : SendQueue) (budget : Nat) (script : List WriteResult) : SendQueue × WriteProgress × Bytes :=
  if q.failed then (q, .failed, []) else q.writeLoop budget script

/-- `enqueue_for_client`: an empty queue takes one frame of any size. -/
def enqueueForClient (q : SendQueue) (bufferLimit : Nat) (payload : Bytes) : SendQueue × EnqueueOutcome :=
  if q.failed then (q, .sendFailed)
  else if q.queuedBytes > 0 ∧ q.queuedBytes + payload.length > bufferLimit then (q, .overflow)
  else (q.push payload, .sent)

def enqueueIgnoringLimit (q : SendQueue) (payload : Bytes) : SendQueue :=
  if q.failed then q else q.push payload

/-- The bytes still queued. -/
def unwritten (q : SendQueue) : Bytes :=
  match q.frames with
  | [] => []
  | front :: more => front.drop q.headWritten ++ more.flatten

end SendQueue

/-! ## One client's traffic -/

/-- A queue, the bytes it has put on the socket, and the frames it has accepted. -/
structure Link where
  queue : SendQueue := {}
  written : Bytes := []
  accepted : List Bytes := []
deriving DecidableEq

/-- What happens to a queue: an enqueue (of output, of a control frame or of an ack), the
first redraw, the overflow notice (`none` where it does not encode), a write pass. -/
inductive QueueOp where
  | enqueue (payload : Bytes)
  | enqueueIgnoringLimit (payload : Bytes)
  | backpressureError (payload : Option Bytes)
  | write (budget : Nat) (script : List WriteResult)
deriving DecidableEq

/-- One operation and the outcome it reports, if it reports one. -/
def Link.step (bufferLimit : Nat) (l : Link) : QueueOp → Link × Option EnqueueOutcome
  | .enqueue payload =>
    let (queue, outcome) := l.queue.enqueueForClient bufferLimit payload
    ({ l with queue, accepted := if outcome = .sent then l.accepted ++ [payload] else l.accepted }, some outcome)
  | .enqueueIgnoringLimit payload =>
    ({ l with
        queue := l.queue.enqueueIgnoringLimit payload
        accepted := if l.queue.failed then l.accepted else l.accepted ++ [payload] }, none)
  | .backpressureError none => (l, none)
  | .backpressureError (some payload) =>
    ({ l with
        queue := l.queue.enqueueIgnoringLimit payload
        accepted := if l.queue.failed then l.accepted else l.accepted ++ [payload] }, none)
  | .write budget script =>
    let (queue, _, bytes) := l.queue.writeTo budget script
    ({ l with queue, written := l.written ++ bytes }, none)

def runLink (bufferLimit : Nat) (l : Link) (ops : List QueueOp) : Link :=
  ops.foldl (fun l op => (l.step bufferLimit op).1) l

/-! ## The accounting of one queue -/

/-- The offset lies in the first frame, `queued_bytes` counts what is unwritten, and a failed
queue is empty. -/
structure SendQueue.Wf (q : SendQueue) : Prop where
  head : q.headWritten ≤ (q.frames.headD []).length
  bytes : q.queuedBytes = q.unwritten.length
  dead : q.failed = true → q.frames = []

namespace SendQueue

theorem wf_empty : ({} : SendQueue).Wf := ⟨Nat.le_refl _, rfl, fun h => by cases h⟩

theorem wf_fail (q : SendQueue) : q.fail.Wf := ⟨Nat.le_refl _, rfl, fun _ => rfl⟩

theorem unwritten_push {q : SendQueue} (h : q.Wf) (payload : Bytes) :
    (q.push payload).unwritten = q.unwritten ++ payload := by
  have hh := h.head
  unfold push unwritten
  cases hf : q.frames with
  | nil => simp_all
  | cons f fs => simp

theorem wf_push {q : SendQueue} (h : q.Wf) (hq : q.failed = false) (payload : Bytes) : (q.push payload).Wf where
  head := by
    have hh := h.head
    unfold push
    cases hf : q.frames with
    | nil => simp_all
    | cons f fs => simpa [hf] using hh
  bytes := by
    rw [unwritten_push h, List.length_append, ← h.bytes]; rfl
  dead := fun hd => by rw [show (q.push payload).failed = q.failed from rfl, hq] at hd; cases hd

theorem popWritten_go {frames : List Bytes} {h : Nat} (hh : h ≤ (frames.headD []).length) :
    (popWritten.go frames h).2 ≤ ((popWritten.go frames h).1.headD []).length ∧
      (match (popWritten.go frames h).1 with
        | [] => True
        | f :: _ => f.drop (popWritten.go frames h).2 ≠ []) ∧
      (({ frames, headWritten := h } : SendQueue).unwritten =
        ({ frames := (popWritten.go frames h).1, headWritten := (popWritten.go frames h).2 } : SendQueue).unwritten) := by
  induction frames generalizing h with
  | nil => exact ⟨hh, trivial, rfl⟩
  | cons f fs ih =>
    unfold popWritten.go
    split
    · rename_i he
      have hrec := ih (h := 0) (Nat.zero_le _)
      refine ⟨hrec.1, hrec.2.1, ?_⟩
      rw [← hrec.2.2]
      simp only [unwritten, List.isEmpty_iff.1 he, List.nil_append]
      cases fs <;> simp
    · rename_i he
      exact ⟨hh, by simpa using he, rfl⟩

theorem unwritten_popWritten {q : SendQueue} (h : q.Wf) : q.popWritten.unwritten = q.unwritten :=
  (popWritten_go h.head).2.2.symm

theorem wf_popWritten {q : SendQueue} (h : q.Wf) : q.popWritten.Wf where
  head := (popWritten_go h.head).1
  bytes := by rw [unwritten_popWritten h]; exact h.bytes
  dead := fun hd => by
    have := h.dead hd
    unfold popWritten
    rw [this]; rfl

@[simp] theorem failed_popWritten (q : SendQueue) : q.popWritten.failed = q.failed := rfl

@[simp] theorem failed_advance (q : SendQueue) (front : Bytes) (more : List Bytes) (n : Nat) :
    (q.advance front more n).failed = q.failed := by
  unfold advance
  dsimp only
  split <;> rfl

theorem unwritten_advance {q : SendQueue} {front : Bytes} {more : List Bytes} (n : Nat)
    (hf : q.frames = front :: more) :
    (front.drop q.headWritten).take n ++ (q.advance front more n).unwritten = q.unwritten := by
  have hsplit : (front.drop q.headWritten).take n ++ front.drop (q.headWritten + n) = front.drop q.headWritten := by
    rw [← List.drop_drop]; exact List.take_append_drop n _
  have hq : q.unwritten = front.drop q.headWritten ++ more.flatten := by simp only [unwritten, hf]
  rw [hq]
  nth_rewrite 2 [← hsplit]
  rw [List.append_assoc]
  refine congrArg _ ?_
  unfold advance
  dsimp only
  split
  · rename_i hall
    rw [hall, List.drop_length, List.nil_append]
    cases more <;> simp [unwritten]
  · simp only [unwritten, hf]

theorem wf_advance {q : SendQueue} (h : q.Wf) (hq : q.failed = false) {front : Bytes} {more : List Bytes} {n : Nat}
    (hf : q.frames = front :: more) (hn : n ≤ (front.drop q.headWritten).length) :
    (q.advance front more n).Wf where
  head := by
    have hh := h.head
    rw [List.length_drop] at hn
    simp only [hf, List.headD_cons] at hh
    unfold advance
    dsimp only
    split
    · exact Nat.zero_le _
    · simp only [hf, List.headD_cons]; omega
  bytes := by
    have hlen := congrArg List.length (unwritten_advance n hf)
    have hb := h.bytes
    have hqb : (q.advance front more n).queuedBytes = q.queuedBytes - n := by
      unfold advance; dsimp only; split <;> rfl
    rw [List.length_append, List.length_take, Nat.min_eq_left hn] at hlen
    omega
  dead := fun hd => by rw [failed_advance, hq] at hd; cases hd

theorem writeLoop_ok {q : SendQueue} {left k : Nat} {script : List WriteResult} {front : Bytes} {more : List Bytes}
    (hf : q.popWritten.frames = front :: more) (hl : left ≠ 0) :
    q.writeLoop left (.ok (k + 1) :: script) =
      let p := q.popWritten
      let rest := front.drop p.headWritten
      let n := min (k + 1) (min rest.length left)
      let r := (p.advance front more n).writeLoop (left - n) script
      (r.1, r.2.1, rest.take n ++ r.2.2) := by
  rw [writeLoop]
  simp only [hf, if_neg hl]

/-- A write pass puts the front of the queue on the socket and keeps the rest; only a failed
write loses bytes, and it loses all that was left. -/
structure Wrote (q : SendQueue) (r : SendQueue × WriteProgress × Bytes) : Prop where
  wf : r.1.Wf
  keeps : r.1.failed = false → r.2.2 ++ r.1.unwritten = q.unwritten
  front : r.2.2 <+: q.unwritten
  failed : r.1.failed = true ↔ r.2.1 = .failed

theorem Wrote.nothing {q : SendQueue} (h : q.Wf) (hq : q.failed = false) {progress : WriteProgress}
    (hp : progress ≠ .failed) : Wrote q (q.popWritten, progress, []) where
  wf := wf_popWritten h
  keeps := fun _ => unwritten_popWritten h
  front := List.nil_prefix
  failed := by simp [hq, hp]

theorem Wrote.broken (q : SendQueue) : Wrote q (q.popWritten.fail, .failed, []) where
  wf := wf_fail q.popWritten
  keeps := fun hd => by cases hd
  front := List.nil_prefix
  failed := by simp [fail]

theorem writeLoop_wrote {q : SendQueue} (h : q.Wf) (hq : q.failed = false) (left : Nat) (script : List WriteResult) :
    Wrote q (q.writeLoop left script) := by
  induction script generalizing q left with
  | nil =>
    rw [writeLoop]
    split
    · exact .nothing h hq (by simp)
    · dsimp only
      split <;> exact .nothing h hq (by simp)
  | cons w script ih =>
    cases hf : q.popWritten.frames with
    | nil => rw [writeLoop]; simp only [hf]; exact .nothing h hq (by simp)
    | cons front more =>
      by_cases hl : left = 0
      · rw [writeLoop]; simp only [hf, if_pos hl]; exact .nothing h hq (by simp)
      · match w with
        | .ok 0 | .err => rw [writeLoop]; simp only [hf, if_neg hl]; exact .broken q
        | .wouldBlock => rw [writeLoop]; simp only [hf, if_neg hl]; exact .nothing h hq (by simp)
        | .interrupted =>
          rw [writeLoop]; simp only [hf, if_neg hl]
          have hrec := ih (wf_popWritten h) hq left
          exact ⟨hrec.wf, fun hd => (hrec.keeps hd).trans (unwritten_popWritten h),
            unwritten_popWritten h ▸ hrec.front, hrec.failed⟩
        | .ok (k + 1) =>
          rw [writeLoop_ok hf hl]
          dsimp only
          have hn : min (k + 1) (min (front.drop q.popWritten.headWritten).length left) ≤
              (front.drop q.popWritten.headWritten).length := by omega
          have hrec := ih (wf_advance (wf_popWritten h) hq hf hn) (by simp [hq])
            (left - min (k + 1) (min (front.drop q.popWritten.headWritten).length left))
          have hadv := unwritten_advance (min (k + 1) (min (front.drop q.popWritten.headWritten).length left)) hf
          rw [unwritten_popWritten h] at hadv
          refine ⟨hrec.wf, fun hd => ?_, ?_, hrec.failed⟩
          · rw [List.append_assoc, hrec.keeps hd, hadv]
          · rw [← hadv]; exact (List.prefix_append_right_inj _).2 hrec.front

theorem writeTo_wrote {q : SendQueue} (h : q.Wf) (budget : Nat) (script : List WriteResult) :
    Wrote q (q.writeTo budget script) := by
  unfold writeTo
  split
  · rename_i hq
    exact ⟨h, fun _ => rfl, List.nil_prefix, by simp [hq]⟩
  · rename_i hq
    exact writeLoop_wrote h (by simpa using hq) budget script

/-- A failed queue stays failed: nothing reaches it or leaves it. -/
theorem writeTo_failed {q : SendQueue} (h : q.failed = true) (budget : Nat) (script : List WriteResult) :
    q.writeTo budget script = (q, .failed, []) := if_pos h

theorem enqueueForClient_overflow {q : SendQueue} {bufferLimit : Nat} {payload : Bytes}
    (h : (q.enqueueForClient bufferLimit payload).2 = .overflow) : (q.enqueueForClient bufferLimit payload).1 = q := by
  unfold enqueueForClient at h ⊢
  split
  · rfl
  · split
    · rfl
    · rename_i h1 h2
      rw [if_neg h1, if_neg h2] at h; cases h

end SendQueue

/-! ## Any run of operations -/

structure Link.Inv (l : Link) : Prop where
  wf : l.queue.Wf
  whole : l.queue.failed = false → l.written ++ l.queue.unwritten = l.accepted.flatten
  front : l.written <+: l.accepted.flatten

theorem Link.inv_accept {l : Link} (h : l.Inv) (hq : l.queue.failed = false) (payload : Bytes) :
    ({ queue := l.queue.push payload, written := l.written, accepted := l.accepted ++ [payload] } : Link).Inv where
  wf := SendQueue.wf_push h.wf hq payload
  whole := fun _ => by
    rw [SendQueue.unwritten_push h.wf, ← List.append_assoc, h.whole hq, List.flatten_append, List.flatten_singleton]
  front := by
    rw [List.flatten_append, List.flatten_singleton]
    exact h.front.trans (List.prefix_append _ _)

theorem Link.inv_ignoringLimit {l : Link} (h : l.Inv) (payload : Bytes) :
    ({ queue := l.queue.enqueueIgnoringLimit payload
       written := l.written
       accepted := if l.queue.failed then l.accepted else l.accepted ++ [payload] } : Link).Inv := by
  unfold SendQueue.enqueueIgnoringLimit
  cases hq : l.queue.failed with
  | true => exact ⟨h.wf, fun hf => h.whole hf, h.front⟩
  | false => exact l.inv_accept h hq payload

theorem Link.inv_step (bufferLimit : Nat) {l : Link} (h : l.Inv) (op : QueueOp) : (l.step bufferLimit op).1.Inv := by
  cases op with
  | enqueue payload =>
    simp only [step, SendQueue.enqueueForClient]
    split
    · exact ⟨h.wf, h.whole, h.front⟩
    · rename_i hq
      split
      · exact ⟨h.wf, h.whole, h.front⟩
      · exact l.inv_accept h (by simpa using hq) payload
  | enqueueIgnoringLimit payload => exact l.inv_ignoringLimit h payload
  | backpressureError payload =>
    cases payload with
    | none => exact h
    | some payload => exact l.inv_ignoringLimit h payload
  | write budget script =>
    have hw := SendQueue.writeTo_wrote h.wf budget script
    simp only [step]
    refine ⟨hw.wf, fun hd => ?_, ?_⟩
    · have hq : l.queue.failed = false := by
        cases hq : l.queue.failed with
        | false => rfl
        | true => rw [SendQueue.writeTo_failed hq] at hd; exact hq ▸ hd
      rw [List.append_assoc, hw.keeps hd, h.whole hq]
    · cases hq : l.queue.failed with
      | true => rw [SendQueue.writeTo_failed hq]; simpa using h.front
      | false => rw [← h.whole hq]; exact (List.prefix_append_right_inj _).2 hw.front

theorem runLink_inv (bufferLimit : Nat) (ops : List QueueOp) : (runLink bufferLimit {} ops).Inv := by
  suffices hrun : ∀ l : Link, l.Inv → (runLink bufferLimit l ops).Inv from
    hrun {} ⟨SendQueue.wf_empty, fun _ => rfl, List.nil_prefix⟩
  induction ops with
  | nil => exact fun l h => h
  | cons op ops ih => exact fun l h => ih _ (l.inv_step bufferLimit h op)

/-- A link whose queue has failed never changes again. -/
theorem Link.step_failed (bufferLimit : Nat) {l : Link} (h : l.queue.failed = true) (op : QueueOp) :
    (l.step bufferLimit op).1 = l := by
  cases op with
  | enqueue payload => simp [step, SendQueue.enqueueForClient, h]
  | enqueueIgnoringLimit payload => simp [step, SendQueue.enqueueIgnoringLimit, h]
  | backpressureError payload => cases payload <;> simp [step, SendQueue.enqueueIgnoringLimit, h]
  | write budget script => simp [step, SendQueue.writeTo_failed h]

/-- Whatever happens to a queue: until a write fails, the bytes written and the bytes queued
are the accepted frames in order; ever after, the bytes written are a prefix of them, the queue
is empty and accepts nothing. `queued_bytes` is always the number of unwritten bytes, and an
overflow changes nothing. -/
theorem queue_accounting (bufferLimit : Nat) (ops : List QueueOp) :
    let l := runLink bufferLimit {} ops
    (l.queue.failed = false → l.written ++ l.queue.unwritten = l.accepted.flatten) ∧
      l.written <+: l.accepted.flatten ∧
      l.queue.queuedBytes = l.queue.unwritten.length ∧
      (∀ payload, (l.step bufferLimit (.enqueue payload)).2 = some .overflow →
        (l.step bufferLimit (.enqueue payload)).1 = l) ∧
      (∀ budget script, (l.queue.writeTo budget script).2.1 = .failed →
        (l.step bufferLimit (.write budget script)).1.queue.failed = true) ∧
      (l.queue.failed = true → l.queue.frames = [] ∧ ∀ op, (l.step bufferLimit op).1 = l) := by
  intro l
  have hl : l.Inv := runLink_inv bufferLimit ops
  refine ⟨hl.whole, hl.front, hl.wf.bytes, fun payload h => ?_, fun budget script h => ?_, fun h => ?_⟩
  · have ho : (l.queue.enqueueForClient bufferLimit payload).2 = .overflow := Option.some.inj h
    simp only [Link.step, SendQueue.enqueueForClient_overflow ho, ho]
    rfl
  · exact (SendQueue.writeTo_wrote hl.wf budget script).failed.2 h
  · exact ⟨hl.wf.dead h, l.step_failed bufferLimit h⟩

theorem queue_accounting_partial_write :
    (runLink 8 {} [.enqueue [1, 2], .write 8 [.ok 1], .enqueue [3, 4]]).written ++
        (runLink 8 {} [.enqueue [1, 2], .write 8 [.ok 1], .enqueue [3, 4]]).queue.unwritten =
      (runLink 8 {} [.enqueue [1, 2], .write 8 [.ok 1], .enqueue [3, 4]]).accepted.flatten :=
  (queue_accounting 8 [.enqueue [1, 2], .write 8 [.ok 1], .enqueue [3, 4]]).1 (by decide +kernel)

/-- A failed write drops what was queued: written and queued bytes are then no longer all that
was accepted. -/
theorem failed_write_drops_queue :
    ¬ ∀ (bufferLimit : Nat) (ops : List QueueOp),
      let l := runLink bufferLimit {} ops
      l.written ++ l.queue.unwritten = l.accepted.flatten := by
  intro h
  exact absurd (h 8 [.enqueue [1, 2], .write 8 [.err]]) (by decide +kernel)

end Hyoui.Daemon
