import Hyoui.WebDaemon.Runs
/-!
# Enabled units are started

A unit that the registry, as last read, has enabled and that is down has a time to start at whenever the
supervisor is back at its main loop. `child_exited` takes that time away from a unit that was stopping;
so a `start`, a `reload` or a failed `restart` that came while the child was still stopping is lost.
-/

namespace Hyoui.WebDaemon

open Hyoui.Lib

namespace Supervisor

variable {T : Timings} {s : Supervisor} {name : String} {u : WebUnit}

/-- Down and wanted: it has a time to start at, or a restart is about to set it. -/
def Due (v : View) (rt : Runtime) : Prop :=
  v.unit.isSome → rt.unit.enabled = true → rt.state = .down → v.shut = false → rt.nextStart.isSome ∨ v.awaited = true

/-- The exit of a stopping unit that is wanted. -/
def ExitAwaited (v : View) (rt : Runtime) : Prop :=
  v.unit.isSome → rt.wasStopping = true → rt.unit.enabled = true → v.shut = false → v.awaited = true

instance (v : View) (rt : Runtime) : Decidable (ExitAwaited v rt) :=
  inferInstanceAs (Decidable (_ → _ → _ → _ → _))

theorem due_closed (T : Timings) : Closed T Due ExitAwaited fun _ _ => True where
  ticked := by
    intro io v rt rt' ht _ _ _ hdown _
    cases ht with
    | kill hpid hs => cases hdown
    | failed e hs hshut he hn => exact .inl rfl
    | started pid hs hshut he hn => cases hdown
  asked := by
    intro io v rt _ _ _ hdown _
    have hrun : rt.isRunning = false := Runtime.isRunning_of_down hdown
    refine .inl ?_
    simp [Runtime.startSoon, hrun]
  disabled := by
    intro io v rt _ hdis _ hen
    rw [Runtime.stop_unit, hdis] at hen
    cases hen
  shutdown := by
    intro v rt _ _ _ _ hshut
    cases hshut
  shut := by
    intro io v rt hshut _ _ _ _ hno
    rw [hshut] at hno
    cases hno
  awaited := fun _ _ _ _ _ => .inr rfl
  restarted := fun _ _ _ _ _ _ => .inr rfl
  exited := by
    intro io v rt summary hok _ hsome hen _ hshut
    rw [Runtime.exited_unit] at hen
    by_cases hs : rt.wasStopping = true
    · exact .inr (hok hsome hs hen hshut)
    · refine .inl ?_
      simp [Runtime.exited, hs, hen, hshut, Runtime.backOff]
  woken := fun _ _ _ _ _ _ _ => .inl rfl
  left := fun hne _ _ _ hdown _ => absurd hdown hne
  adopted := fun _ had _ hen hdown hshut => .inl (had.2 hshut (had.1 ▸ hen) hdown)
  settled := by
    intro v rt hnone _ hsome
    rw [hnone] at hsome
    cases hsome

/-- Control is at the top of `run`'s loop. -/
def AtTop (s : Supervisor) : Prop := s.calls = [] ∧ s.ticking = false

instance (s : Supervisor) : Decidable s.AtTop := inferInstanceAs (Decidable (_ ∧ _))

/-- Where the exit report of a stopping child is handled and its unit is enabled in the registry as last
read, a restart waits for that unit, or a shutdown has begun. -/
def ExitsAwaited (s : Supervisor) : Move → Prop
  | .take _ (some (.childExited name _ _)) => ∀ rt ∈ s.units[name]?.toList, ExitAwaited (s.view name) rt
  | _ => True

instance (s : Supervisor) : DecidablePred s.ExitsAwaited := fun m => by
  unfold ExitsAwaited
  split <;> infer_instance

theorem due_reach (h : (supervisor T).Reach ExitsAwaited s) : Good Due s := by
  refine h.inv (Good Due) ?_ ?_
  · rintro s ⟨io, registry, rfl⟩
    exact begin_good (due_closed T) registry
  · intro s m s' _ hgood hok hstep
    refine step_good (due_closed T) hgood hstep ?_ fun _ _ _ _ _ _ _ _ _ _ => trivial
    rintro io name pid summary rt rfl _ hrt _
    exact hok rt (by rw [hrt]; exact List.mem_singleton.2 rfl)

/-- A unit that is enabled in the registry as last read is held by the supervisor, and at the top of the
loop it has a time to start at if it is down. -/
theorem enabled_unit_starts (h : (supervisor T).Reach ExitsAwaited s) (htop : s.AtTop) (hrun : s.shuttingDown = false)
    (hu : s.asRead name = some u) (hen : u.enabled = true) :
    ∃ rt, s.units[name]? = some rt ∧ rt.unit = u ∧ (rt.state = .down → rt.nextStart.isSome) := by
  have hgood := due_reach h
  obtain ⟨rt, hrt, rfl⟩ := Option.map_eq_some_iff.1 (hgood.listed name u hu)
  refine ⟨rt, hrt, rfl, fun hdown => ?_⟩
  rcases hgood.each name rt hrt (Option.isSome_of_eq_some hu) hen hdown hrun with hnext | hawaited
  · exact hnext
  · have hnobody : s.awaited name = false := by rw [awaited, htop.1, List.any_nil]
    exact absurd (hnobody.symm.trans hawaited) Bool.false_ne_true

/-! ## Runs -/

/-- A system without failures, at this time. -/
def quietIo (now : Instant) : Io :=
  { now, startedAt := "1970-01-01T00:00:00Z", listFailure := none, lockFailure := fun _ => none,
    writeFailure := fun _ => none, spawn := fun _ => .ok 100, listen := fun _ => "127.0.0.1:43690",
    healthzIsOk := fun _ => true, tailLines := fun _ => [], written := fun _ => true }

/-- `Timings::default`, in milliseconds. -/
def defaultTimings : Timings :=
  { initialBackoff := 1000, maxBackoff := 60000, grace := 10000, healthInterval := 200, healthTimeout := 30000 }

def webUnit (enabled : Bool) : WebUnit :=
  { config := "/etc/web.toml", binaryPath := "/usr/bin/hyoui", enabled, addedAt := "1970-01-01T00:00:00Z" }

/-- One enabled unit is registered, and the supervisor has read the registry. -/
def oneUnit : Supervisor := begin defaultTimings (quietIo 0) ((∅ : Registry).insert "web" (.unit (webUnit true)))

/-- Its child is started. -/
def startOne : List Move := [.take (quietIo 0) none, .tick (quietIo 0)]

/-- One event, and the tick after it. -/
def turn (now : Instant) (e : Event) : List Move := [.take (quietIo now) (some e), .tick (quietIo now)]

theorem oneUnit_reach (ok : Supervisor → Move → Prop) : (supervisor defaultTimings).Reach ok oneUnit :=
  .init ⟨_, _, rfl⟩

/-- A unit whose child died by itself waits for its backoff. -/
theorem enabled_unit_starts_web : ∃ s rt, (supervisor defaultTimings).Reach ExitsAwaited s ∧
    s.units["web"]? = some rt ∧ rt.state = .down ∧ rt.nextStart.isSome := by
  obtain ⟨s, hreach, ⟨htop, hrun, hread⟩, hdown⟩ := (oneUnit_reach ExitsAwaited).exists_run
    (startOne ++ [.dies "web" 100] ++ turn 5 (.childExited "web" 100 "exited with status 1"))
    (p := fun s => (s.AtTop ∧ s.shuttingDown = false ∧ s.asRead "web" = some (webUnit true)) ∧
      s.units["web"]?.any (·.state = .down) = true) (by decide +kernel)
  obtain ⟨rt, hrt, -, hnext⟩ := enabled_unit_starts hreach htop hrun hread rfl
  rw [hrt, Option.any_some, decide_eq_true_eq] at hdown
  exact ⟨s, rt, hreach, hrt, hdown, hnext hdown⟩

/-- A start that arrives while the child is still stopping is lost: the exit takes the time to start at
away, and the enabled unit stays down. -/
theorem start_while_stopping_lost : ¬ ∀ T s, (supervisor T).Reachable s → s.AtTop → s.shuttingDown = false →
    ∀ name u rt, s.asRead name = some u → u.enabled = true → s.units[name]? = some rt → rt.state = .down →
      rt.nextStart.isSome := by
  intro hall
  obtain ⟨s, hreach, ⟨htop, hrun, hread⟩, hlost⟩ := (oneUnit_reach fun _ _ => True).exists_run
    (startOne ++ turn 1 (.request 1 (some (.stop (some "web")))) ++ turn 2 (.request 2 (some (.start (some "web")))) ++
      [.dies "web" 100] ++ turn 3 (.childExited "web" 100 "killed by signal 15"))
    (p := fun s => (s.AtTop ∧ s.shuttingDown = false ∧ s.asRead "web" = some (webUnit true)) ∧
      s.units["web"]?.any (fun rt => rt.state = .down ∧ rt.nextStart = none) = true) (by decide +kernel)
  rw [Option.any_eq_true] at hlost
  obtain ⟨rt, hrt, hdown⟩ := hlost
  obtain ⟨hdown, hnone⟩ := of_decide_eq_true hdown
  have hsome := hall _ s hreach htop hrun "web" _ rt hread rfl hrt hdown
  rw [hnone] at hsome
  cases hsome

end Supervisor

end Hyoui.WebDaemon
