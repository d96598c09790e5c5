import Hyoui.Daemon.World
/-!
# The child process and `waitpid`

`ChildProcess` is the kernel's side: the child runs, stops, continues and exits on its own
(`ChildEvent`), and `waitpid` reports each change once. An exit is reported to exactly one
call; every later call finds no child. `ChildLifecycle` is the daemon's side, a latch that
remembers a reported stop.
-/

namespace Hyoui.Daemon

inductive ExitStatus where
  | exited (code : Int)
  | signaled (sig : Signal)
deriving DecidableEq

/-- The exit code the daemon gives a status. -/
def ExitStatus.code : ExitStatus → Int
  | .exited code => code
  | .signaled sig => 128 + sig

inductive ChildStatus where
  | running
  | stopped
  | zombie (status : ExitStatus)
  | reaped (status : ExitStatus)
deriving DecidableEq

/-- A change that `waitpid` has yet to report. -/
inductive ChildReport where
  | stopped (sig : Signal)
  | continued
deriving DecidableEq

structure ChildProcess where
  status : ChildStatus := .running
  report : Option ChildReport := none
deriving DecidableEq

inductive ChildEvent where
  | stop (sig : Signal)
  | cont
  | exit (status : ExitStatus)
deriving DecidableEq

def ChildProcess.event (c : ChildProcess) : ChildEvent → ChildProcess
  | .stop sig => if c.status = .running then { status := .stopped, report := some (.stopped sig) } else c
  | .cont => if c.status = .stopped then { status := .running, report := some .continued } else c
  | .exit status =>
    match c.status with
    | .running | .stopped => { status := .zombie status, report := none }
    | .zombie _ | .reaped _ => c

def ChildProcess.events (c : ChildProcess) (evs : List ChildEvent) : ChildProcess := evs.foldl ChildProcess.event c

inductive WaitStatus where
  | exited (code : Int)
  | signaled (sig : Signal)
  | stopped (sig : Signal)
  | continued
  | stillAlive
  | echild
deriving DecidableEq

/-- `waitpid` with `WNOHANG | WUNTRACED`, and `WCONTINUED` where the flag is set. -/
def ChildProcess.waitpid (c : ChildProcess) (wcontinued : Bool) : ChildProcess × WaitStatus :=
  match c.status, c.report with
  | .zombie (.exited code), _ => ({ status := .reaped (.exited code), report := none }, .exited code)
  | .zombie (.signaled sig), _ => ({ status := .reaped (.signaled sig), report := none }, .signaled sig)
  | .reaped _, _ => (c, .echild)
  | _, some (.stopped sig) => ({ c with report := none }, .stopped sig)
  | _, some .continued => if wcontinued then ({ c with report := none }, .continued) else (c, .stillAlive)
  | _, none => (c, .stillAlive)

inductive ChildState where
  | exited (code : Option Int)
  | alive
  | stopped
deriving DecidableEq

inductive ChildTransition where
  | stopped (sig : Signal)
  | continued
  | exited (code : Option Int)
deriving DecidableEq

structure ChildLifecycle where
  stopped : Bool := false
deriving DecidableEq

def ChildLifecycle.latched (l : ChildLifecycle) : ChildState := if l.stopped then .stopped else .alive

def ChildLifecycle.pollWithTransition (l : ChildLifecycle) (child : ChildProcess) :
    ChildLifecycle × ChildProcess × ChildState × Option ChildTransition :=
  let (child, status) := child.waitpid true
  match status with
  | .exited code => ({ stopped := false }, child, .exited (some code), some (.exited (some code)))
  | .signaled sig => ({ stopped := false }, child, .exited (some (128 + sig)), some (.exited (some (128 + sig))))
  | .stopped sig => ({ stopped := true }, child, .stopped, some (.stopped sig))
  | .continued => ({ stopped := false }, child, .alive, some .continued)
  | .stillAlive => (l, child, l.latched, none)
  | .echild => (l, child, l.latched, none)

/-- `child_is_stopped_via_waitpid`: anything but a stop, an exit included, counts as not stopped. -/
def childIsStoppedViaWaitpid (child : ChildProcess) : ChildProcess × Bool :=
  let (child, status) := child.waitpid false
  (child, match status with | .stopped _ => true | _ => false)

/-! ## What a call can do to the child -/

/-- The child has exited and some call has taken the status. -/
def ChildProcess.reaped (c : ChildProcess) : Option ExitStatus :=
  match c.status with
  | .reaped status => some status
  | _ => none

/-- The child has exited and no call has taken the status yet. -/
def ChildProcess.unreaped (c : ChildProcess) : Option ExitStatus :=
  match c.status with
  | .zombie status => some status
  | _ => none

/-- What happens to the child takes no status from anybody. -/
theorem events_reaped (c : ChildProcess) (evs : List ChildEvent) : (c.events evs).reaped = c.reaped := by
  induction evs generalizing c with
  | nil => rfl
  | cons ev evs ih =>
    have hev : (c.event ev).reaped = c.reaped := by
      obtain ⟨st, report⟩ := c
      cases st <;> cases ev <;> simp [ChildProcess.event, ChildProcess.reaped]
    exact (ih _).trans hev

theorem unreaped_not_reaped {c : ChildProcess} {status : ExitStatus} (h : c.unreaped = some status) :
    c.reaped = none := by
  unfold ChildProcess.unreaped at h
  split at h
  · rename_i hst
    rw [ChildProcess.reaped, hst]
  · cases h

/-- A call takes the exit status exactly when it is there to be taken. -/
theorem waitpid_reaped (c : ChildProcess) (wcontinued : Bool) :
    (c.waitpid wcontinued).1.reaped = c.reaped.or c.unreaped := by
  obtain ⟨st, report⟩ := c
  cases st with
  | zombie status => cases status <;> rfl
  | reaped status => rfl
  | running | stopped =>
    cases report with
    | none => rfl
    | some r => cases r <;> cases wcontinued <;> rfl

/-- `poll_with_transition` reports the exit it takes. -/
theorem poll_exited {l : ChildLifecycle} {c : ChildProcess} {status : ExitStatus} (h : c.unreaped = some status) :
    (l.pollWithTransition c).2.2.1 = .exited (some status.code) ∧
      (l.pollWithTransition c).2.2.2 = some (.exited (some status.code)) := by
  obtain ⟨st, report⟩ := c
  cases st <;> simp only [ChildProcess.unreaped, reduceCtorEq, Option.some.injEq] at h
  subst h
  rename_i status
  cases status <;> exact ⟨rfl, rfl⟩

theorem poll_not_exited {l : ChildLifecycle} {c : ChildProcess} (h : c.unreaped = none) (code : Option Int) :
    (l.pollWithTransition c).2.2.1 ≠ .exited code := by
  obtain ⟨st, report⟩ := c
  cases st with
  | zombie status => simp [ChildProcess.unreaped] at h
  | reaped status =>
    simp only [ChildLifecycle.pollWithTransition, ChildProcess.waitpid, ChildLifecycle.latched]
    split <;> simp
  | running | stopped =>
    cases report with
    | none =>
      simp only [ChildLifecycle.pollWithTransition, ChildProcess.waitpid, ChildLifecycle.latched]
      split <;> simp
    | some r => cases r <;> simp [ChildLifecycle.pollWithTransition, ChildProcess.waitpid]

/-- The child has exited, whether the status was taken or not. -/
def ChildProcess.gone (c : ChildProcess) : Bool := c.reaped.isSome || c.unreaped.isSome

def ChildEvent.isExit : ChildEvent → Bool
  | .exit _ => true
  | .stop _ | .cont => false

theorem gone_events (c : ChildProcess) (evs : List ChildEvent) :
    (c.events evs).gone = (c.gone || evs.any (·.isExit)) := by
  induction evs generalizing c with
  | nil => simp [ChildProcess.events]
  | cons ev evs ih =>
    have hev : (c.event ev).gone = (c.gone || ev.isExit) := by
      obtain ⟨st, report⟩ := c
      cases st <;> cases ev <;> simp [ChildProcess.event, ChildProcess.gone, ChildProcess.reaped,
        ChildProcess.unreaped, ChildEvent.isExit]
    rw [List.any_cons, ← Bool.or_assoc, ← hev]
    exact ih _

theorem gone_waitpid (c : ChildProcess) (wcontinued : Bool) : (c.waitpid wcontinued).1.gone = c.gone := by
  obtain ⟨st, report⟩ := c
  cases st with
  | zombie status => cases status <;> rfl
  | reaped status => rfl
  | running | stopped =>
    cases report with
    | none => rfl
    | some r => cases r <;> cases wcontinued <;> rfl

theorem not_reaped_of_not_gone {c : ChildProcess} (h : c.gone = false) : c.reaped = none := by
  simpa using (Bool.or_eq_false_iff.1 h).1

theorem poll_child (l : ChildLifecycle) (c : ChildProcess) :
    (l.pollWithTransition c).2.1 = (c.waitpid true).1 := by
  unfold ChildLifecycle.pollWithTransition
  dsimp only
  split <;> rfl

end Hyoui.Daemon
