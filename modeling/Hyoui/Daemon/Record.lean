import Hyoui.Daemon.World
/-!
# The recorder

`RecordRegistry` holds the records of a session: each `RecordSink` has a bounded queue and a
writer thread that moves the events of the queue to a file. The `push*` calls of the serve loop
hand an event to every sink whose direction and secrecy admit it; a sink whose queue stays full or
whose writer is gone is retired, and the others are told.

What the clock, the file system and the writer threads do during a call is `Answers`. A writer
thread also moves between calls (`Call.writer`).
-/

namespace Hyoui.Daemon.Record

open Hyoui.Protocol

/-! ## Sinks and their writer threads -/

/-- `ts_unix_ms` stands in every event of the source; it is kept beside the event here. -/
structure SeqEvent where
  seq : Nat
  tsUnixMs : Nat
  event : RecordEvent
deriving DecidableEq

def recordQueueCapacity : Nat := 1024

/-- What a writer thread puts in its file for one event. -/
inductive Written where
  | line (e : SeqEvent)
  | bytes (bytes : Bytes)
deriving DecidableEq

/-- An event that was pushed to a sink, and whether its channel took it. -/
structure Push where
  payload : SeqEvent
  taken : Bool
deriving DecidableEq

structure RecordSink where
  recordId : Nat
  direction : RecordDirection
  format : RecordFormat
  outputPath : String
  startedByClientId : ClientId
  startedUnixMs : Nat
  inputSecrecy : InputSecrecy
  maxBytes : Option Nat
  maxDurationMs : Option Nat
  seq : Nat
  /-- The registry's end of the channel. -/
  tx : Bool
  /-- The writer thread runs and holds its end of the channel. -/
  writing : Bool
  queue : List SeqEvent
  rawBytesRecorded : Nat
  file : List Written
  /-- Every event the channel took. -/
  delivered : List SeqEvent
  offered : List Push
deriving DecidableEq

/-- What a writer thread meets when it handles one event. -/
structure WriterTurn where
  /-- The write and the flush succeed. -/
  stored : Bool := true
  now : Nat := 0
deriving DecidableEq

def rawBytesDelta : RecordEvent → Nat
  | .bytesIn _ bytes => bytes.length
  | .bytesOut bytes => bytes.length
  | _ => 0

def encodeRawEvent (p : SeqEvent) : List Written :=
  match p.event with
  | .bytesIn _ bytes => [.bytes bytes]
  | .bytesOut bytes => [.bytes bytes]
  | _ => []

namespace RecordSink

def encodeEvent (s : RecordSink) (p : SeqEvent) : List Written :=
  match s.format with
  | .raw => encodeRawEvent p
  | .jsonl => [.line p]

def exceedsLimits (s : RecordSink) (now : Nat) : Bool :=
  (match s.maxBytes with
    | some maxB => decide (0 < maxB) && decide (maxB ≤ s.rawBytesRecorded)
    | none => false) ||
  (match s.maxDurationMs with
    | some maxD => decide (0 < maxD) && decide (maxD ≤ now - s.startedUnixMs)
    | none => false)

/-- The writer thread returns; what is left in the channel is dropped with its receiver. -/
def quit (s : RecordSink) : RecordSink := { s with writing := false, queue := [] }

/-- `handle_one_event` has put `p` in the file. -/
def store (s : RecordSink) (p : SeqEvent) (rest : List SeqEvent) : RecordSink :=
  { s with
    queue := rest
    file := s.file ++ s.encodeEvent p
    rawBytesRecorded := s.rawBytesRecorded + rawBytesDelta p.event }

/-- One round of `writer_thread_main`'s loop. -/
def handleOne (s : RecordSink) (t : WriterTurn) : RecordSink :=
  match s.writing, s.queue with
  | true, p :: rest =>
    if t.stored then
      if (s.store p rest).exceedsLimits t.now then (s.store p rest).quit else s.store p rest
    else s.quit
  | _, _ => s

def handleAll (s : RecordSink) (ts : List WriterTurn) : RecordSink := ts.foldl handleOne s

/-- `join_writer`: the sender is dropped, the writer empties the queue and returns. -/
def joinWriter (s : RecordSink) (turns : Nat → WriterTurn) : RecordSink :=
  let s := { s with tx := false }
  (s.handleAll ((List.range s.queue.length).map turns)).quit

inductive TrySendError where
  | full
  | disconnected
deriving DecidableEq

def nextSeq (s : RecordSink) : RecordSink := { s with seq := (s.seq + 1) % 2 ^ 32 }

def accept (s : RecordSink) (p : SeqEvent) : RecordSink :=
  { s with queue := s.queue ++ [p], delivered := s.delivered ++ [p], offered := s.offered ++ [⟨p, true⟩] }

def refuse (s : RecordSink) (p : SeqEvent) : RecordSink := { s with offered := s.offered ++ [⟨p, false⟩] }

/-- `try_push`: `turns` is what the writer does while the push waits for room. -/
def tryPush (s : RecordSink) (turns : List WriterTurn) (ts : Nat) (e : RecordEvent) : RecordSink × Option TrySendError :=
  let payload := { seq := s.seq, tsUnixMs := ts, event := e }
  let s := s.nextSeq
  if !s.tx then (s.refuse payload, some .disconnected)
  else
    let s := s.handleAll turns
    if !s.writing then (s.refuse payload, some .disconnected)
    else if s.queue.length < recordQueueCapacity then (s.accept payload, none)
    else (s.refuse payload, some .full)

end RecordSink

/-! ## The registry -/

def takesStdin : RecordDirection → Bool
  | .stdin | .both => true
  | .stdout => false

def takesStdout : RecordDirection → Bool
  | .stdout | .both => true
  | .stdin => false

structure RecordRegistry where
  sinks : List RecordSink
  nextId : Nat
  /-- The sinks taken out of the registry, their writers joined. -/
  stopped : List RecordSink
deriving DecidableEq

def RecordRegistry.new : RecordRegistry := { sinks := [], nextId := 1, stopped := [] }

/-- What the clock and the writer threads do during one call. Round 0 is the call itself; round
`k + 1` is the notice about the `k`-th sink it retires. -/
structure Answers where
  clock : Nat → Nat := fun _ => 0
  /-- Per round and place in the registry: the writer's turns while the push to it waits. -/
  waits : Nat → Nat → List WriterTurn := fun _ _ => []
  /-- Per joined sink: the writer's turns until its queue is empty. -/
  drains : Nat → Nat → WriterTurn := fun _ _ => {}

/-- What the file system and the thread library answer a `start`. -/
structure StartAnswers where
  path : Except RecordStartError Unit := .ok ()
  prompt : Except String Unit := .ok ()
  opened : Except RecordStartError Unit := .ok ()
  spawned : Except String Unit := .ok ()
  headerStored : Bool := true

namespace RecordRegistry

/-- The sink that `start` registers. -/
def newSink (r : RecordRegistry) (request : RecordStartRequest) (startedBy : ClientId) (now : Nat)
    (headerStored : Bool) : RecordSink where
  recordId := r.nextId
  direction := request.direction
  format := request.format
  outputPath := request.outputPath
  startedByClientId := startedBy
  startedUnixMs := now
  inputSecrecy := request.inputSecrecy
  maxBytes := request.maxBytes
  maxDurationMs := request.maxDurationMs
  seq := 1
  tx := true
  -- Only the jsonl format has a header; its writer returns when the header cannot be written.
  writing := headerStored || decide (request.format = .raw)
  queue := []
  rawBytesRecorded := 0
  file := []
  delivered := []
  offered := []

def start (r : RecordRegistry) (request : RecordStartRequest) (startedBy : ClientId) (os : StartAnswers) (now : Nat) :
    RecordRegistry × Except RecordStartError Nat :=
  match os.path with
  | .error e => (r, .error e)
  | .ok () =>
    if request.format = .raw ∧ request.direction = .both then (r, .error .unsupportedDirectionForFormat)
    else if request.inputSecrecy = .redactAfterPrompt then (r, .error .redactionUnimplemented)
    else
      match (if request.promptPattern.isSome then os.prompt else .ok ()), os.opened, os.spawned with
      | .error message, _, _ => (r, .error (.invalidPromptPattern message))
      | .ok (), .error e, _ => (r, .error e)
      | .ok (), .ok (), .error message =>
        ({ r with nextId := (r.nextId + 1) % 2 ^ 32 }, .error (.io s!"spawn writer thread: {message}"))
      | .ok (), .ok (), .ok () =>
        ({ r with
            sinks := r.sinks ++ [r.newSink request startedBy now os.headerStored]
            nextId := (r.nextId + 1) % 2 ^ 32 },
          .ok r.nextId)

/-- The first sink with this id, taken out. -/
def take (recordId : Nat) : List RecordSink → Option (RecordSink × List RecordSink)
  | [] => none
  | s :: rest =>
    if s.recordId = recordId then some (s, rest)
    else (take recordId rest).map fun (found, rest') => (found, s :: rest')

def stop (r : RecordRegistry) (recordId : Nat) (a : Answers) : RecordRegistry :=
  match take recordId r.sinks with
  | none => r
  | some (sink, rest) => { r with sinks := rest, stopped := r.stopped ++ [sink.joinWriter (a.drains 0)] }

def joinEach : (Nat → Nat → WriterTurn) → List RecordSink → List RecordSink
  | _, [] => []
  | drains, s :: rest => s.joinWriter (drains 0) :: joinEach (fun i => drains (i + 1)) rest

def stopAll (r : RecordRegistry) (a : Answers) : RecordRegistry :=
  { r with sinks := [], stopped := r.stopped ++ joinEach a.drains r.sinks }

/-- Every sink that `push` has an event for gets it; the ids of those that could not take it. -/
def pushEach (push : RecordSink → Option RecordEvent) (ts : Nat) :
    (Nat → List WriterTurn) → List RecordSink → List RecordSink × List Nat
  | _, [] => ([], [])
  | waits, s :: rest =>
    let others := pushEach push ts (fun i => waits (i + 1)) rest
    match push s with
    | none => (s :: others.1, others.2)
    | some e =>
      let pushed := s.tryPush (waits 0) ts e
      (pushed.1 :: others.1, if pushed.2.isSome then s.recordId :: others.2 else others.2)

def abortNotice (recordId : Nat) : RecordEvent := .lifecycle (.recordAborted recordId "queue-full" none)

/-- The aborted sinks leave the registry one by one, each announced to the others. -/
def retire (a : Answers) : Nat → List Nat → RecordRegistry → RecordRegistry
  | _, [], r => r
  | round, id :: ids, r =>
    retire a (round + 1) ids <|
      match take id r.sinks with
      | none => r
      | some (sink, rest) =>
        { r with
          sinks := (pushEach (fun _ => some (abortNotice id)) (a.clock round) (a.waits round) rest).1
          stopped := r.stopped ++ [sink.joinWriter (a.drains round)] }

def broadcastFor (r : RecordRegistry) (filter : RecordDirection → Bool) (push : RecordSink → Option RecordEvent)
    (a : Answers) : RecordRegistry :=
  let (sinks, aborted) :=
    pushEach (fun s => if filter s.direction then push s else none) (a.clock 0) (a.waits 0) r.sinks
  retire a 1 aborted { r with sinks }

/-- The events made of what a client typed go to the sinks that may record it. -/
def pushTyped (r : RecordRegistry) (e : RecordEvent) (a : Answers) : RecordRegistry :=
  r.broadcastFor takesStdin (fun s => if s.inputSecrecy = .neverRecordStdin then none else some e) a

def pushBytesIn (r : RecordRegistry) (clientId : ClientId) (bytes : Bytes) (a : Answers) : RecordRegistry :=
  if bytes.isEmpty then r else r.pushTyped (.bytesIn clientId bytes) a

def pushBytesOut (r : RecordRegistry) (bytes : Bytes) (a : Answers) : RecordRegistry :=
  if bytes.isEmpty then r else r.broadcastFor takesStdout (fun _ => some (.bytesOut bytes)) a

def pushInRejected (r : RecordRegistry) (clientId : ClientId) (clientMode : Mode) (lockHolder : Option ClientId)
    (reason : InRejectedReason) (bytes : Bytes) (a : Answers) : RecordRegistry :=
  r.pushTyped (.inRejected clientId clientMode lockHolder reason bytes) a

def pushInWriteError (r : RecordRegistry) (clientId : ClientId) (requestedLen writtenLen : Nat) (error : WriteErrorKind)
    (unwrittenBytes : Bytes) (a : Answers) : RecordRegistry :=
  r.pushTyped (.inWriteError clientId requestedLen writtenLen error unwrittenBytes) a

def pushInSecretRedacted (r : RecordRegistry) (clientId : ClientId) (byteCount : Nat) (reason : String) (a : Answers) :
    RecordRegistry :=
  r.broadcastFor takesStdin (fun _ => some (.inSecretRedacted clientId byteCount reason)) a

def pushLifecycle (r : RecordRegistry) (e : LifecycleEvent) (a : Answers) : RecordRegistry :=
  r.broadcastFor (fun _ => true) (fun _ => some (.lifecycle e)) a

/-- The writer thread of the sink at this place takes a turn. -/
def writerTurn (r : RecordRegistry) (place : Nat) (t : WriterTurn) : RecordRegistry :=
  { r with sinks := r.sinks.modify place (·.handleOne t) }

end RecordRegistry

/-! ## Runs -/

inductive Call where
  | start (request : RecordStartRequest) (startedBy : ClientId) (os : StartAnswers)
  | stop (recordId : Nat)
  | stopAll
  | bytesIn (clientId : ClientId) (bytes : Bytes)
  | bytesOut (bytes : Bytes)
  | inRejected (clientId : ClientId) (clientMode : Mode) (lockHolder : Option ClientId) (reason : InRejectedReason)
      (bytes : Bytes)
  | inWriteError (clientId : ClientId) (requestedLen writtenLen : Nat) (error : WriteErrorKind) (unwrittenBytes : Bytes)
  | inSecretRedacted (clientId : ClientId) (byteCount : Nat) (reason : String)
  | lifecycle (e : LifecycleEvent)
  | writer (place : Nat) (turn : WriterTurn)

structure Move where
  call : Call
  answers : Answers := {}

def step (r : RecordRegistry) (m : Move) : RecordRegistry :=
  match m.call with
  | .start request startedBy os => (r.start request startedBy os (m.answers.clock 0)).1
  | .stop recordId => r.stop recordId m.answers
  | .stopAll => r.stopAll m.answers
  | .bytesIn clientId bytes => r.pushBytesIn clientId bytes m.answers
  | .bytesOut bytes => r.pushBytesOut bytes m.answers
  | .inRejected clientId mode holder reason bytes => r.pushInRejected clientId mode holder reason bytes m.answers
  | .inWriteError clientId requested written error bytes =>
    r.pushInWriteError clientId requested written error bytes m.answers
  | .inSecretRedacted clientId byteCount reason => r.pushInSecretRedacted clientId byteCount reason m.answers
  | .lifecycle e => r.pushLifecycle e m.answers
  | .writer place turn => r.writerTurn place turn

def run (moves : List Move) : RecordRegistry := moves.foldl step .new

end Hyoui.Daemon.Record
