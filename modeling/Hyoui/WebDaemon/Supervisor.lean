import Mathlib.Algebra.Group.Nat.Defs
import Hyoui.Lib.Transition
import Hyoui.WebDaemon.Units
/-!
# The web daemon supervisor

`Supervisor::run` and the handlers it calls, one pass over an event loop a step. A `restart` waits
inside its handler (`pump_until`), and while it waits the same loop runs the same handlers: the
requests being served are a stack (`calls`), and the innermost one's loop takes the next event.

`ticking` says that the loop has handled an event and is about to call `tick`. What the supervisor
did and saw is kept in `acts`; the code keeps no such list.
-/

namespace Hyoui.WebDaemon

open Hyoui.Lib

/-- Milliseconds. -/
abbrev Instant := Nat
abbrev Pid := Nat

structure Timings where
  initialBackoff : Nat
  maxBackoff : Nat
  grace : Nat
  healthInterval : Nat
  healthTimeout : Nat

/-! ## State -/

inductive State where
  | down
  | running (pid : Pid) (startedAt : String)
  | stopping (pid : Pid) (deadline : Instant) (killed : Bool)
deriving DecidableEq

structure Runtime where
  unit : WebUnit
  state : State
  nextStart : Option Instant
  backoff : Nat
  restarts : Nat
  lastExit : Option String
deriving DecidableEq

namespace Runtime

def new (unit : WebUnit) (backoff : Nat) : Runtime :=
  { unit, state := .down, nextStart := none, backoff, restarts := 0, lastExit := none }

def pid (rt : Runtime) : Option Pid :=
  match rt.state with
  | .running pid _ | .stopping pid .. => some pid
  | .down => none

def isRunning (rt : Runtime) : Bool :=
  match rt.state with
  | .running .. => true
  | _ => false

def startedAt (rt : Runtime) : Option String :=
  match rt.state with
  | .running _ startedAt => some startedAt
  | _ => none

end Runtime

/-- `None` is `--all`. -/
abbrev Target := Option String

inductive Request where
  | list (target : Target)
  | status (target : Target)
  | start (target : Target)
  | stop (target : Target)
  | restart (target : Target)
  | log (target : Target) (follow : Bool)
  | reload
deriving DecidableEq

/-- The supervisor's own fields of a `UnitStatus`; the others are read from the config and the probe. -/
structure UnitStatus where
  name : String
  enabled : Bool
  running : Bool
  pid : Option Pid
  startedAt : Option String
  config : String
  binaryPath : String
  restarts : Nat
  lastExit : Option String
deriving DecidableEq

structure ErrorBody where
  kind : String
  message : String
  hint : Option String
deriving DecidableEq

namespace ErrorBody

def unknownUnit (name : String) : ErrorBody :=
  { kind := "unknown_unit", message := "there is no web gateway unit named `" ++ name ++ "`",
    hint := some "run `hyoui web daemon list` to see the registered units" }

def failed (message : String) : ErrorBody := { kind := "request_failed", message, hint := none }

end ErrorBody

inductive Response where
  | units (units : List UnitStatus) (notes : List String)
  | log (lines : List (String × String)) (follow : Bool)
  | error (e : ErrorBody)
deriving DecidableEq

/-- An event of the channel. A request stream that holds no line of JSON is `request none`; a child's
exit report carries the child's name and pid. -/
inductive Event where
  | request (stream : Nat) (r : Option Request)
  | childExited (name : String) (pid : Pid) (summary : String)
  | logLine (name line : String)
  | signal (signal : Nat)
deriving DecidableEq

/-- A `restart` that waits: in `pump_until` for its unit to be down, or between two questions to
`/healthz`. `notes` and `rest` are the locals of `apply_restart --all`. -/
inductive Call where
  | restart (stream : Nat) (name : String) (deadline : Instant)
  | restartAll (stream : Nat) (name : String) (rest notes : List String) (deadline : Instant)
  | healthz (stream : Nat) (name listen : String) (rest notes : List String) (timeout deadline : Instant)
deriving DecidableEq

namespace Call

/-- The unit that this `restart` has stopped and will start again. -/
def restarting : Call → Option String
  | restart _ name _ | restartAll _ name .. => some name
  | healthz .. => none

/-- When its `pump_until` gives up. -/
def deadline : Call → Instant
  | restart _ _ deadline | restartAll _ _ _ _ deadline | healthz _ _ _ _ _ _ deadline => deadline

end Call

inductive Signal where
  | term
  | kill
deriving DecidableEq

/-- What the supervisor did or saw. -/
inductive Act where
  /-- `list` answered. -/
  | listed (units : List (String × WebUnit))
  /-- `set_enabled` answered. -/
  | recorded (name : String) (unit : WebUnit)
  | spawned (name : String) (pid : Pid)
  | signalled (name : String) (pid : Pid) (signal : Signal)
  /-- The child process ended. -/
  | died (name : String) (pid : Pid)
  /-- Its report was handled. -/
  | reaped (name : String)
  | shutdown (signal : Nat)
  /-- `run` left its loop. -/
  | ended
deriving DecidableEq

structure Supervisor where
  registry : Registry
  units : Std.TreeMap String Runtime
  followers : List (Option String × Nat)
  shuttingDown : Bool
  ticking : Bool
  calls : List Call
  /-- The child processes that have not ended. -/
  alive : List (String × Pid)
  /-- The exit reports in the channel. -/
  reports : List (String × Pid)
  replies : List (Nat × Response)
  acts : List Act

/-- What the system answers in one step. -/
structure Io where
  now : Instant
  startedAt : String
  /-- The registry directory cannot be read. -/
  listFailure : Option RegistryError
  lockFailure : String → Option RegistryError
  writeFailure : String → Option RegistryError
  spawn : String → Except String Pid
  /-- `load_config().listen`, empty when the config cannot be read. -/
  listen : String → String
  /-- `healthz_is_ok` -/
  healthzIsOk : String → Bool
  tailLines : String → List String
  /-- The line could be written to this stream. -/
  written : Nat → Bool

/-! ## One runtime -/

namespace Runtime

variable (T : Timings) (io : Io)

/-- The next start waits for the backoff, which doubles. -/
def backOff (rt : Runtime) : Runtime :=
  { rt with restarts := rt.restarts + 1, nextStart := some (io.now + rt.backoff), backoff := min (rt.backoff * 2) T.maxBackoff }

def startFailed (e : String) (rt : Runtime) : Runtime :=
  { rt with lastExit := some ("could not start `" ++ rt.unit.binaryPath ++ "`: " ++ e) }.backOff T io

def started (pid : Pid) (rt : Runtime) : Runtime := { rt with state := .running pid io.startedAt, nextStart := none }

def stop (rt : Runtime) : Runtime :=
  match rt.state with
  | .running pid _ => { rt with nextStart := none, state := .stopping pid (io.now + T.grace) false }
  | _ => { rt with nextStart := none }

/-- The grace is over. -/
def kill (pid : Pid) (rt : Runtime) : Runtime := { rt with state := .stopping pid (io.now + T.grace) true }

def wasStopping (rt : Runtime) : Bool :=
  match rt.state with
  | .stopping .. => true
  | _ => false

/-- `child_exited`: the child of a `stop` stays down, the others start again after the backoff. -/
def exited (shuttingDown : Bool) (summary : String) (rt : Runtime) : Runtime :=
  let rt' := { rt with state := .down, lastExit := some summary }
  if rt.wasStopping || !rt.unit.enabled || shuttingDown then { rt' with nextStart := none } else rt'.backOff T io

/-- A person asked for the unit: no backoff. -/
def startSoon (rt : Runtime) : Runtime :=
  { rt with backoff := T.initialBackoff, nextStart := if rt.isRunning then rt.nextStart else some io.now }

end Runtime

namespace Supervisor

variable (T : Timings) (io : Io)

def modify (s : Supervisor) (name : String) (f : Runtime → Runtime) : Supervisor :=
  { s with units := s.units.modify name f }

def act (s : Supervisor) (a : Act) : Supervisor := { s with acts := s.acts ++ [a] }

/-- `send_signal`: a pid above `i32::MAX` gets none. -/
def sendSignal (s : Supervisor) (name : String) (pid : Pid) (signal : Signal) : Supervisor :=
  if pid < 2 ^ 31 then s.act (.signalled name pid signal) else s

/-! ## Children -/

/-- A child process runs. -/
def spawned (s : Supervisor) (name : String) (pid : Pid) : Supervisor :=
  { s with alive := s.alive ++ [(name, pid)] }.act (.spawned name pid)

def start (s : Supervisor) (name : String) : Supervisor :=
  match s.units[name]? with
  | none => s
  | some rt =>
    if rt.isRunning then s
    else
      match io.spawn name with
      | .error e => s.modify name (.startFailed T io e)
      | .ok pid => (s.spawned name pid).modify name (.started io pid)

def stop (s : Supervisor) (name : String) : Supervisor :=
  match s.units[name]? with
  | none => s
  | some rt =>
    match rt.state with
    | .running pid _ => (s.modify name (.stop T io)).sendSignal name pid .term
    | _ => s.modify name (.stop T io)

/-- One unit of `tick`. -/
def tickUnit (s : Supervisor) (name : String) : Supervisor :=
  match s.units[name]? with
  | none => s
  | some rt =>
    match rt.state with
    | .stopping pid deadline killed =>
      if deadline ≤ io.now ∧ ¬killed then (s.modify name (.kill T io pid)).sendSignal name pid .kill else s
    | .down =>
      if !s.shuttingDown && rt.unit.enabled && rt.nextStart.any (· ≤ io.now) then s.start T io name else s
    | .running .. => s

def tick (s : Supervisor) : Supervisor := s.units.keys.foldl (tickUnit T io) s

/-- `child_exited`: a report of another child than the unit's own is dropped. -/
def childExited (s : Supervisor) (name : String) (pid : Pid) (summary : String) : Supervisor :=
  match s.units[name]? with
  | none => s
  | some rt =>
    if rt.pid.any (· ≠ pid) then s
    else (s.act (.reaped name)).modify name (.exited T io s.shuttingDown summary)

def beginShutdown (s : Supervisor) (signal : Nat) : Supervisor :=
  if s.shuttingDown then s
  else
    let s := { s with shuttingDown := true }.act (.shutdown signal)
    s.units.keys.foldl (stop T io) s

/-! ## The registry -/

def removeDown (s : Supervisor) (name : String) : Supervisor :=
  match s.units[name]? with
  | some rt => if rt.state = .down then { s with units := s.units.erase name } else s
  | none => s

/-- One unit of `reload` that has gone from the registry. -/
def dropUnit (s : Supervisor) (name : String) : Supervisor := (s.stop T io name).removeDown name

/-- The unit has this entry now; an unknown one is new, and down. -/
def setEntry (s : Supervisor) (name : String) (unit : WebUnit) : Supervisor :=
  match s.units[name]? with
  | some _ => s.modify name fun rt => { rt with unit }
  | none => { s with units := s.units.insert name (.new unit T.initialBackoff) }

/-- The unit is started or stopped as its entry says. -/
def settleUnit (s : Supervisor) (name : String) (unit : WebUnit) : Supervisor :=
  if s.shuttingDown then s
  else
    let running := s.units[name]?.any Runtime.isRunning
    if unit.enabled && !running then
      s.modify name fun rt => { rt with nextStart := rt.nextStart.or (some io.now) }
    else if !unit.enabled && running then s.stop T io name
    else s

/-- One unit of the listing in `reload`. -/
def adoptUnit (s : Supervisor) (p : String × WebUnit) : Supervisor :=
  (s.setEntry T p.1 p.2).settleUnit T io p.1 p.2

/-- `reload` with what `list` answered. -/
def adopt (s : Supervisor) (listed : List (String × WebUnit)) : Supervisor :=
  let dropped := s.units.keys.filter fun name => name ∉ listed.map Prod.fst
  let s := dropped.foldl (dropUnit T io) (s.act (.listed listed))
  listed.foldl (adoptUnit T io) s

def reload (s : Supervisor) : Supervisor :=
  match io.listFailure with
  | some _ => s
  | none =>
    match s.registry.list with
    | .error _ => s
    | .ok listed => s.adopt T io listed

/-- `set_enabled`; on failure the note for the reply. -/
def setEnabled (s : Supervisor) (name : String) (enabled : Bool) : Except String Supervisor :=
  match s.registry.setEnabled (io.lockFailure name) (io.writeFailure name) name enabled with
  | .ok (unit, registry) =>
    .ok (({ s with registry }.act (.recorded name unit)).modify name fun rt => { rt with unit })
  | .error e => .error ("could not record the new state of `" ++ name ++ "`: " ++ e.text)

/-! ## Requests -/

def resolve (s : Supervisor) : Target → Except ErrorBody (List String)
  | none => .ok s.units.keys
  | some name => if name ∈ s.units then .ok [name] else .error (.unknownUnit name)

def describe (name : String) (rt : Runtime) : UnitStatus :=
  { name, enabled := rt.unit.enabled, running := rt.isRunning, pid := rt.pid, startedAt := rt.startedAt,
    config := rt.unit.config, binaryPath := rt.unit.binaryPath, restarts := rt.restarts, lastExit := rt.lastExit }

/-- `units_response`; asking the versions changes nothing here, so `status_response` is this too. -/
def unitsResponse (s : Supervisor) (target : Target) (notes : List String) : Response :=
  match s.resolve target with
  | .error e => .error e
  | .ok names => .units (names.filterMap fun name => s.units[name]?.map (describe name)) notes

/-- The request is answered and its handler returns; the loop that took it ticks next. -/
def reply (s : Supervisor) (stream : Nat) (r : Response) : Supervisor :=
  { s with replies := s.replies ++ [(stream, r)], ticking := true }

/-- The handler enters `pump_until`. -/
def await (s : Supervisor) (call : Call) : Supervisor := { s with calls := call :: s.calls, ticking := false }

/-- One unit of `apply_start`, with the notes so far. -/
def startUnit (p : Supervisor × List String) (name : String) : Supervisor × List String :=
  match p.1.setEnabled io name true with
  | .error e => (p.1, p.2 ++ [e])
  | .ok s => (s.modify name (.startSoon T io), p.2)

def applyStart (s : Supervisor) (stream : Nat) (target : Target) : Supervisor :=
  match s.resolve target with
  | .error e => s.reply stream (.error e)
  | .ok names =>
    let (s, notes) := names.foldl (startUnit T io) (s, [])
    let s := s.tick T io
    s.reply stream (s.unitsResponse target notes)

/-- One unit of `apply_stop`, with the notes so far. -/
def stopUnit (p : Supervisor × List String) (name : String) : Supervisor × List String :=
  match p.1.setEnabled io name false with
  | .error e => (p.1, p.2 ++ [e])
  | .ok s => (s.stop T io name, p.2)

def applyStop (s : Supervisor) (stream : Nat) (target : Target) : Supervisor :=
  match s.resolve target with
  | .error e => s.reply stream (.error e)
  | .ok names =>
    let (s, notes) := names.foldl (stopUnit T io) (s, [])
    s.reply stream (s.unitsResponse target notes)

/-- The loop of `restart --all` over the names that are left. -/
def restartNext (s : Supervisor) (stream : Nat) : List String → List String → Supervisor
  | [], notes => s.reply stream (s.unitsResponse none notes)
  | name :: rest, notes =>
    if s.units[name]?.any (·.unit.enabled) then
      (s.stop T io name).await (.restartAll stream name rest notes (io.now + T.grace * 2))
    else restartNext s stream rest (notes ++ ["skipped `" ++ name ++ "` because it is stopped"])

/-- One round of `wait_for_healthz`, and what `restart --all` does with its answer. -/
def checkHealthz (s : Supervisor) (stream : Nat) (name listen : String) (rest notes : List String)
    (timeout : Instant) : Supervisor :=
  if listen ≠ "" ∧ io.healthzIsOk listen then s.restartNext T io stream rest notes
  else if listen = "" ∨ timeout ≤ io.now then
    s.reply stream (s.unitsResponse none (notes ++
      ["`" ++ name ++ "` did not answer /healthz within " ++ toString (T.healthTimeout / 1000) ++
        " seconds; stopped going through the units"]))
  else s.await (.healthz stream name listen rest notes timeout (io.now + T.healthInterval))

/-- The end of `restart <name>`, with the unit not running. -/
def restartNow (s : Supervisor) (stream : Nat) (name : String) : Supervisor :=
  let s := (s.modify name (.startSoon T io)).tick T io
  s.reply stream (s.unitsResponse (some name) [])

/-- `restart <name>` -/
def restartNamed (s : Supervisor) (stream : Nat) (name : String) : Supervisor :=
  match s.setEnabled io name true with
  | .error e => s.reply stream (s.unitsResponse (some name) [e])
  | .ok s =>
    if s.units[name]?.any Runtime.isRunning then
      (s.stop T io name).await (.restart stream name (io.now + T.grace * 2))
    else s.restartNow T io stream name

def applyRestart (s : Supervisor) (stream : Nat) (target : Target) : Supervisor :=
  match s.resolve target with
  | .error e => s.reply stream (.error e)
  | .ok names =>
    match target with
    | some name => s.restartNamed T io stream name
    | none => s.restartNext T io stream names []

/-- `serve_log`: the file's last lines, and the stream becomes a follower. -/
def serveLog (s : Supervisor) (stream : Nat) (target : Target) (follow : Bool) : Supervisor :=
  match s.resolve target with
  | .error e => s.reply stream (.error e)
  | .ok names =>
    let lines := names.flatMap fun name => (io.tailLines name).map (name, ·)
    if io.written stream && follow then
      { s.reply stream (.log lines follow) with followers := s.followers ++ [(target, stream)] }
    else s.reply stream (.log lines follow)

def serveRequest (s : Supervisor) (stream : Nat) : Option Request → Supervisor
  | none => s.reply stream (.error (.failed "the request was not one line of JSON"))
  | some (.list target) | some (.status target) => s.reply stream (s.unitsResponse target [])
  | some (.start target) => s.applyStart T io stream target
  | some (.stop target) => s.applyStop T io stream target
  | some (.restart target) => s.applyRestart T io stream target
  | some .reload =>
    let s := s.reload T io
    s.reply stream (s.unitsResponse none [])
  | some (.log target follow) => s.serveLog io stream target follow

/-- `fan_out_log`: a follower that cannot be written to is dropped. -/
def fanOutLog (s : Supervisor) (name : String) : Supervisor :=
  { s with followers := s.followers.filter fun p => p.1.any (· ≠ name) || io.written p.2 }

def handle (s : Supervisor) : Event → Supervisor
  | .request stream r => s.serveRequest T io stream r
  | .childExited name pid summary => { s.childExited T io name pid summary with ticking := true }
  | .logLine name _ => { s.fanOutLog io name with ticking := true }
  | .signal signal => { s.beginShutdown T io signal with ticking := true }

/-! ## The loops -/

/-- What `pump_until` waits for. -/
def done (s : Supervisor) (call : Call) : Bool :=
  call.restarting.any fun name => s.units[name]?.any (·.state = .down)

/-- `pump_until` has returned whether its condition was met, and the handler goes on. -/
def resume (s : Supervisor) (met : Bool) : Call → Supervisor
  | .restart stream name _ =>
    if met then s.restartNow T io stream name
    else s.reply stream (s.unitsResponse (some name) ["`" ++ name ++ "` did not stop; left it running"])
  | .restartAll stream name rest notes _ =>
    if met then
      let s := (s.modify name fun rt =>
        { rt with backoff := T.initialBackoff, nextStart := some io.now }).tick T io
      let listen := if (s.units[name]?).isSome then io.listen name else ""
      s.checkHealthz T io stream name listen rest notes (io.now + T.healthTimeout)
    else
      s.reply stream (s.unitsResponse none (notes ++ ["`" ++ name ++ "` did not stop; stopped going through the units"]))
  | .healthz stream name listen rest notes timeout _ => s.checkHealthz T io stream name listen rest notes timeout

def finished (s : Supervisor) : Bool := s.shuttingDown && s.units.toList.all fun p => p.2.state = .down

/-- `run` up to its loop. -/
def begin (registry : Registry) : Supervisor :=
  reload T io
    { registry, units := ∅, followers := [], shuttingDown := false, ticking := false, calls := [], alive := [],
      reports := [], replies := [], acts := [] }

end Supervisor

inductive Move where
  /-- The CLI or a person changes the registry directory. -/
  | edit (registry : Registry)
  /-- A child process ends, and the thread that waits for it reports it. -/
  | dies (name : String) (pid : Pid)
  /-- The innermost loop takes an event, or its wait times out. -/
  | take (io : Io) (event : Option Event)
  | tick (io : Io)
  /-- The innermost `pump_until` returns. -/
  | wake (io : Io)
  | leave

/-- The loop may wait for an event: of `run`, not finished, or of a `pump_until` whose condition is not met and whose
limit is not over. -/
def Supervisor.waits (s : Supervisor) (now : Instant) : Bool :=
  match s.calls with
  | [] => !s.finished
  | call :: _ => !s.done call && now < call.deadline

/-- The exit report of a child is in the channel; other events may come at any time. -/
def Supervisor.arrived (s : Supervisor) : Event → Bool
  | .childExited name pid _ => (name, pid) ∈ s.reports
  | _ => true

def Supervisor.received (s : Supervisor) : Event → Supervisor
  | .childExited name pid _ => { s with reports := s.reports.erase (name, pid) }
  | _ => s

open Supervisor in
def step (T : Timings) (s : Supervisor) : Move → Option Supervisor
  | .edit registry => some { s with registry }
  | .dies name pid =>
    if (name, pid) ∈ s.alive then
      some ({ s with alive := s.alive.erase (name, pid), reports := s.reports ++ [(name, pid)] }.act (.died name pid))
    else none
  | .take io event =>
    if s.ticking ∨ ¬s.waits io.now then none
    else
      match event with
      | none => some { s with ticking := true }
      | some e => if s.arrived e then some ((s.received e).handle T io e) else none
  | .tick io => if s.ticking then some { s.tick T io with ticking := false } else none
  | .wake io =>
    match s.calls with
    | [] => none
    | call :: rest =>
      if s.ticking ∨ s.waits io.now then none
      else some ({ s with calls := rest }.resume T io (s.done call) call)
  | .leave => if s.calls = [] ∧ ¬s.ticking ∧ s.finished ∧ .ended ∉ s.acts then some (s.act .ended) else none

/-- The supervisor, its children and its registry directory. -/
def supervisor (T : Timings) : System Supervisor Move where
  init s := ∃ io registry, s = Supervisor.begin T io registry
  step := step T

end Hyoui.WebDaemon
