import Hyoui.Client.Connection
import Hyoui.Lib.Transition
import Hyoui.Scrollback
/-!
# `kill --wait`

After its `Kill` the command waits on the connection for the end of the child, and then for the end of
the daemon. Its exit code tells scripts whether the child is dead.

The connection is what arrives on it: bytes, failed reads (a timeout among them, which may come inside a
frame) and the end of the stream. The bytes a failed read has taken are gone.
-/

namespace Hyoui.Client

open Hyoui.Protocol Hyoui.Lib

/-! ## The stream -/

inductive Arrival where
  | byte (b : UInt8)
  | failed (e : IoError)
  | eof
deriving DecidableEq

abbrev Stream := List Arrival

def readTimeout : IoError := { kind := .timedOut, message := "Resource temporarily unavailable" }

namespace Stream

/-- `read_exact`: when nothing more arrives, the read times out; an end of file stays. -/
def readExactEof (what : String) : Nat → Stream → Except FrameError Bytes × Stream
  | 0, s => (.ok [], s)
  | _ + 1, [] => (.error (.io readTimeout), [])
  | n + 1, .byte b :: s =>
    match readExactEof what n s with
    | (.ok bytes, rest) => (.ok (b :: bytes), rest)
    | (.error e, rest) => (.error e, rest)
  | _ + 1, .failed e :: s => (.error (.io e), s)
  | _ + 1, .eof :: s => (.error (.protocol (.unexpectedEof what)), .eof :: s)

/-- What was read goes on to the next step, from where the stream is. -/
def andThen {α β : Type} (r : Except FrameError α × Stream) (next : α → Stream → Except FrameError β × Stream) :
    Except FrameError β × Stream :=
  match r with
  | (.error e, s) => (.error e, s)
  | (.ok a, s) => next a s

/-- A check of what was read. -/
def checked (check : Except ProtocolError Unit) (s : Stream) : Except FrameError Unit × Stream :=
  (check.mapError .protocol, s)

/-- `Frame::decode_from` on the connection. -/
def decodeFrame (s : Stream) : Except FrameError Frame × Stream :=
  andThen (s.readExactEof "size header" 4) fun sizeBuf s =>
  let size := fromLeBytes (sizeBuf.getD 0 0) (sizeBuf.getD 1 0) (sizeBuf.getD 2 0) (sizeBuf.getD 3 0)
  andThen (checked (checkSize size) s) fun _ s =>
  andThen (s.readExactEof "type byte" 1) fun tyBuf s =>
  let ty := tyBuf.getD 0 0
  andThen (checked (checkType ty) s) fun _ s =>
  andThen (s.readExactEof "body" (size - 1)) fun body s =>
  (.ok { ty, body }, s)

theorem andThen_ok {α β : Type} {r : Except FrameError α × Stream} {next : α → Stream → Except FrameError β × Stream}
    {b : β} {rest : Stream} (h : andThen r next = (.ok b, rest)) : ∃ a s, r = (.ok a, s) ∧ next a s = (.ok b, rest) := by
  obtain ⟨result, s⟩ := r
  cases result with
  | error e => cases h
  | ok a => exact ⟨a, s, rfl, h⟩

theorem checked_ok {check : Except ProtocolError Unit} {s rest : Stream} {u : Unit} (h : checked check s = (.ok u, rest)) :
    check = .ok u ∧ s = rest := by
  cases check with
  | error e => cases h
  | ok _ => cases h; exact ⟨rfl, rfl⟩

theorem readExactEof_length {what : String} {n : Nat} {s rest : Stream} {bytes : Bytes}
    (h : s.readExactEof what n = (.ok bytes, rest)) : rest.length + n = s.length := by
  induction n generalizing s bytes with
  | zero =>
    cases h
    rfl
  | succ n ih =>
    cases s with
    | nil => cases h
    | cons a s =>
      cases a with
      | failed e => cases h
      | eof => cases h
      | byte b =>
        unfold readExactEof at h
        split at h
        · rename_i hrest
          cases h
          have := ih hrest
          simp only [List.length_cons]
          omega
        · cases h

theorem decodeFrame_shorter {s rest : Stream} {f : Frame} (h : s.decodeFrame = (.ok f, rest)) : rest.length < s.length := by
  obtain ⟨sizeBuf, s₁, hsize, h⟩ := andThen_ok h
  obtain ⟨_, s₂, hchecked, h⟩ := andThen_ok h
  obtain ⟨tyBuf, s₃, hty, h⟩ := andThen_ok h
  obtain ⟨_, s₄, hchecked', h⟩ := andThen_ok h
  obtain ⟨body, s₅, hbody, h⟩ := andThen_ok h
  cases h
  obtain ⟨-, rfl⟩ := checked_ok hchecked
  obtain ⟨-, rfl⟩ := checked_ok hchecked'
  have := readExactEof_length hsize
  have := readExactEof_length hty
  have := readExactEof_length hbody
  omega

/-- The loop of `recv_control`, with the error of a read as the stream gives it. -/
def nextControl (C : Codec) (s : Stream) : Except FrameError (Except Error ControlMessage) × Stream :=
  match _h : s.decodeFrame with
  | (.error e, rest) => (.error e, rest)
  | (.ok frame, rest) =>
    match (ClientConnection.recvControlFrame C [] frame).1 with
    | some result => (.ok result, rest)
    | none => nextControl C rest
termination_by s.length
decreasing_by exact decodeFrame_shorter _h

theorem nextControl_failed (C : Codec) {s rest : Stream} {e : FrameError} (h : s.decodeFrame = (.error e, rest)) :
    s.nextControl C = (.error e, rest) := by
  rw [nextControl]
  split <;> simp_all

theorem nextControl_frame (C : Codec) {s rest : Stream} {frame : Frame} (h : s.decodeFrame = (.ok frame, rest)) :
    s.nextControl C = match (ClientConnection.recvControlFrame C [] frame).1 with
      | some result => (.ok result, rest)
      | none => rest.nextControl C := by
  rw [nextControl]
  split <;> simp_all

def recvControl (C : Codec) (s : Stream) : Except Error ControlMessage × Stream :=
  match s.nextControl C with
  | (.error e, rest) => (.error (frameReadError "frame decode failed" e), rest)
  | (.ok result, rest) => (result, rest)

end Stream

def isTimeoutError : Error → Bool
  | .io e => e.kind = .timedOut
  | _ => false

/-! ## The end of the daemon -/

inductive DaemonExit where
  | clean
  | unobservable
  | socketLeftBehind
  | timedOut
deriving DecidableEq

structure DaemonExitWatch where
  sockIno : Option Nat
  lock : Bool
deriving DecidableEq

/-- `held` is what the lock of the name gave within the budget, `ino` the socket found afterwards. -/
def DaemonExitWatch.wait (watch : DaemonExitWatch) (held : Option Bool) (ino : Option Nat) : DaemonExit :=
  if watch.lock = false then .unobservable
  else match held with
    | some true => if ino.isSome ∧ ino = watch.sockIno then .socketLeftBehind else .clean
    | some false => .unobservable
    | none => .timedOut

/-- The exit code once the wait for the child is over. -/
def exitAfterWait : DaemonExit → Nat
  | .clean | .unobservable => 0
  | .socketLeftBehind => 1
  | .timedOut => 3

/-! ## The wait for the child -/

structure KillConfig where
  killOnTimeout : Bool
deriving DecidableEq

def escalateReapBudget : Nat := millis 10000

/-- `noticed` and `reachedEof` say what the last read has seen of the end: for the theorems only. -/
structure KillWait where
  deadline : Instant
  escalated : Bool := false
  stream : Stream
  watch : DaemonExitWatch
  exit : Option Nat := none
  noticed : Bool := false
  reachedEof : Bool := false

/-- What one turn of the loop meets: the clock at its start, what sending the second kill gave and the clock after
it, what setting the timeout gave, and what the watch of the daemon finds should the wait be over. -/
structure Turn where
  now : Instant
  killed : Except Error Unit := .ok ()
  later : Instant := 0
  timeoutSet : Except Error Unit := .ok ()
  held : Option Bool := some true
  ino : Option Nat := none

namespace KillWait

variable (C : Codec) (config : KillConfig)

def daemonExit (w : KillWait) (t : Turn) : DaemonExit := w.watch.wait t.held t.ino

/-- The deadline has passed. -/
def timeUp (w : KillWait) (t : Turn) : KillWait :=
  if config.killOnTimeout && !w.escalated then
    match t.killed with
    | .error _ => { w with exit := some 1 }
    | .ok _ => { w with escalated := true, deadline := t.later + escalateReapBudget }
  else { w with exit := some (if w.escalated then 1 else 3) }

/-- A read, and what its result means for the wait. -/
def receive (w : KillWait) (t : Turn) : KillWait :=
  let (result, stream) := w.stream.recvControl C
  let w := { w with stream }
  match result with
  | .ok (.error _) => { w with exit := some 1 }
  | .ok (.sessionExitNotify _ _) => { w with exit := some (exitAfterWait (w.daemonExit t)) }
  | .ok _ => w
  | .error e => if isTimeoutError e then w else { w with exit := some (exitAfterWait (w.daemonExit t)) }

/-- The read gave the notice that the child has exited. -/
def meetsNotice (w : KillWait) : Bool :=
  match (w.stream.nextControl C).1 with
  | .ok (.ok (.sessionExitNotify _ _)) => true
  | _ => false

/-- The read met the end of the stream. -/
def meetsEof (w : KillWait) : Bool :=
  match (w.stream.nextControl C).1 with
  | .error (.protocol (.unexpectedEof _)) => true
  | _ => false

def turn (w : KillWait) (t : Turn) : KillWait :=
  if w.deadline ≤ t.now then w.timeUp config t
  else match t.timeoutSet with
    | .error _ => { w with exit := some 1 }
    | .ok _ => { w.receive C t with noticed := w.meetsNotice C, reachedEof := w.meetsEof C }

end KillWait

def killWait (C : Codec) (config : KillConfig) : System KillWait Turn where
  init w := w.escalated = false ∧ w.exit = none ∧ w.noticed = false ∧ w.reachedEof = false
  step w t := match w.exit with
    | some _ => none
    | none => some (w.turn C config t)

/-! ## What a success means -/

namespace KillWait

variable {C : Codec} {config : KillConfig} {w : KillWait} {t : Turn}

/-- The child's end was announced, or the daemon closed the connection. -/
def SawTheEnd (w : KillWait) : Prop := w.noticed = true ∨ w.reachedEof = true

/-- The next read gives an error that is neither a timeout nor the end of the stream. -/
def garbled (C : Codec) (w : KillWait) : Bool :=
  match (w.stream.nextControl C).1 with
  | .error (.io e) => e.kind ≠ .timedOut
  | .error (.protocol (.unexpectedEof _)) => false
  | .error (.protocol _) => true
  | .ok (.error _) => true
  | .ok (.ok _) => false

/-- The turn reads, the read is garbled, and the watch of the daemon has nothing against a success. -/
def takesErrorForEnd (C : Codec) (w : KillWait) (t : Turn) : Prop :=
  t.now < w.deadline ∧ t.timeoutSet.isOk = true ∧ w.garbled C = true ∧ exitAfterWait (w.daemonExit t) = 0

theorem recvControlFrame_error {raw : Bytes} {frame : Frame} {e : Error}
    (h : (ClientConnection.recvControlFrame C raw frame).1 = some (.error e)) : isTimeoutError e = false := by
  unfold ClientConnection.recvControlFrame at h
  split at h
  · split at h
    · cases h
    · cases h
      rfl
  · split at h
    · cases h
    · split at h
      · cases h
      · cases h
        rfl

/-- A control message that does not decode is no timeout. -/
theorem nextControl_error {s : Stream} {e : Error} (h : (s.nextControl C).1 = .ok (.error e)) : isTimeoutError e = false := by
  induction s using Stream.nextControl.induct (C := C) with
  | case1 s fe rest hread =>
    rw [Stream.nextControl_failed C hread] at h
    cases h
  | case2 s frame rest hread result hresult =>
    rw [Stream.nextControl_frame C hread, hresult] at h
    cases h
    exact recvControlFrame_error hresult
  | case3 s frame rest hread hnone ih =>
    rw [Stream.nextControl_frame C hread, hnone] at h
    exact ih h

/-- The timeouts among the errors of a read are those of its socket. -/
theorem isTimeoutError_frameReadError (what : String) (e : FrameError) :
    isTimeoutError (frameReadError what e) = true ↔ ∃ io, e = .io io ∧ io.kind = .timedOut := by
  cases e with
  | io io =>
    simp only [frameReadError]
    split
    · rename_i hreset
      simp [isTimeoutError, hreset]
    · simp [isTimeoutError]
  | protocol p => cases p <;> simp [frameReadError, isTimeoutError]

/-- A read ends the wait well exactly when it is not garbled, or the daemon's end is in order. -/
theorem receive_iff (hw : w.exit = none) :
    ((w.receive C t).exit = some 0 → w.meetsNotice C = true ∨ w.meetsEof C = true) ↔
      ¬ (w.garbled C = true ∧ exitAfterWait (w.daemonExit t) = 0) := by
  simp only [receive, Stream.recvControl, meetsNotice, meetsEof, garbled, daemonExit]
  have herror := fun e => nextControl_error (C := C) (s := w.stream) (e := e)
  generalize w.stream.nextControl C = next at herror ⊢
  obtain ⟨result, rest⟩ := next
  cases result with
  | ok result =>
    cases result with
    | error e => simp [herror e rfl]
    | ok message => cases message <;> simp [hw]
  | error e =>
    have htimeout := isTimeoutError_frameReadError "frame decode failed" e
    cases e with
    | io io =>
      by_cases hkind : io.kind = .timedOut
      · simp [htimeout.2 ⟨io, rfl, hkind⟩, hkind, hw]
      · have hno : isTimeoutError (frameReadError "frame decode failed" (.io io)) = false := by
          rw [← Bool.not_eq_true, htimeout]
          simpa using hkind
        simp [hno, hkind]
    | protocol p =>
      have hno : isTimeoutError (frameReadError "frame decode failed" (.protocol p)) = false := by
        rw [← Bool.not_eq_true, htimeout]
        simp
      cases p <;> simp [hno]

theorem timeUp_fails (hw : w.exit = none) : (w.timeUp config t).exit ≠ some 0 := by
  unfold timeUp
  split
  · split <;> simp [hw]
  · cases w.escalated <;> simp

theorem turn_iff (hw : w.exit = none) : ((w.turn C config t).exit = some 0 → (w.turn C config t).SawTheEnd) ↔
    ¬ w.takesErrorForEnd C t := by
  unfold turn
  by_cases hlate : w.deadline ≤ t.now
  · have hnow : ¬ t.now < w.deadline := Nat.not_lt.2 hlate
    simp [hlate, timeUp_fails hw, takesErrorForEnd, hnow]
  · have hnow : t.now < w.deadline := Nat.lt_of_not_le hlate
    rw [if_neg hlate]
    cases hset : t.timeoutSet with
    | error e => simp [takesErrorForEnd, hset, Except.isOk, Except.toBool]
    | ok _ =>
      have := receive_iff (C := C) (t := t) hw
      simp only [SawTheEnd, this, takesErrorForEnd, hnow, hset]
      simp [Except.isOk, Except.toBool]

end KillWait

/-- `kill --wait` succeeds only on the notice of the child's exit or at the end of the stream, exactly in the runs in
which no turn takes another error for the end. -/
theorem success_iff {C : Codec} {config : KillConfig} {steps : List (KillWait × Turn × KillWait)} {w : KillWait}
    (h : (killWait C config).Trace steps w) :
    (w.exit = some 0 → w.SawTheEnd) ↔ ∀ step ∈ steps, ¬ step.1.takesErrorForEnd C step.2.1 := by
  refine System.Trace.inv_iff (I := fun w => w.exit = some 0 → w.SawTheEnd)
    (Q := fun w t => ¬ w.takesErrorForEnd C t) ?_ ?_ h
  · rintro w ⟨-, hexit, -⟩ hzero
    rw [hexit] at hzero
    cases hzero
  · rintro w t w' - hstep
    simp only [killWait] at hstep
    split at hstep
    · cases hstep
    · rename_i hexit
      cases hstep
      rw [KillWait.turn_iff hexit]
      simp [hexit]

section Waits

/-- A wait of ten seconds on a daemon whose lock could not be opened. -/
def waiting (stream : Stream) : KillWait := { deadline := millis 10000, stream, watch := { sockIno := some 7, lock := false } }

def silent : Codec := { encode := fun _ => none, decode := fun _ => none, decodeAck := fun _ => none }

/-- Output of the session arrives and then the end of the stream. -/
theorem success_iff_eof : ((killWait silent ⟨false⟩).Trace
    [(waiting ([2, 0, 0, 0, 0, 0x61].map .byte ++ [.eof]), { now := 0 },
      (waiting ([2, 0, 0, 0, 0, 0x61].map .byte ++ [.eof])).turn silent ⟨false⟩ { now := 0 })]
    ((waiting ([2, 0, 0, 0, 0, 0x61].map .byte ++ [.eof])).turn silent ⟨false⟩ { now := 0 })) ∧
    ((waiting ([2, 0, 0, 0, 0, 0x61].map .byte ++ [.eof])).turn silent ⟨false⟩ { now := 0 }).SawTheEnd := by
  have htrace : (killWait silent ⟨false⟩).Trace
      [(waiting ([2, 0, 0, 0, 0, 0x61].map .byte ++ [.eof]), { now := 0 },
        (waiting ([2, 0, 0, 0, 0, 0x61].map .byte ++ [.eof])).turn silent ⟨false⟩ { now := 0 })]
      ((waiting ([2, 0, 0, 0, 0, 0x61].map .byte ++ [.eof])).turn silent ⟨false⟩ { now := 0 }) :=
    .step (.init ⟨rfl, rfl, rfl, rfl⟩) rfl
  refine ⟨htrace, (success_iff htrace).2 ?_ (by decide +kernel)⟩
  simp only [List.mem_singleton, forall_eq]
  rintro ⟨-, -, hgarbled, -⟩
  revert hgarbled
  decide +kernel

/-- The first bytes of a header are lost to a timeout at the deadline; after the second kill the rest of it is read as
a header of its own, which is refused, and that is taken for the end. -/
theorem cut_frame_succeeds : ∃ w, (killWait silent ⟨true⟩).Reachable w ∧ w.exit = some 0 ∧ ¬ w.SawTheEnd := by
  have hstart : (killWait silent ⟨true⟩).Reachable
      (waiting ([14, 0].map .byte ++ .failed readTimeout :: [0, 0, 1, 0xa1].map .byte)) := .init ⟨rfl, rfl, rfl, rfl⟩
  exact hstart.exists_run
    [{ now := 0 }, { now := millis 10000, later := millis 10000 }, { now := millis 10000 }]
    (p := fun w => w.exit = some 0 ∧ ¬ (w.noticed = true ∨ w.reachedEof = true)) (by decide +kernel)

end Waits

end Hyoui.Client
