import Hyoui.WebDaemon.Handlers
/-!
# Properties of each unit over the runs of a supervisor

`Closed` says what a property of one runtime has to survive: the changes that the handlers make to one
unit. Such a property is kept by every step (`step_good`).
-/

namespace Hyoui.WebDaemon

open Hyoui.Lib

namespace Supervisor

variable {T : Timings} {io : Io} {s s' : Supervisor} {name n : String} {P exitOk wakeOk : View → Runtime → Prop}

/-- The changes of one unit that a property survives. `exitOk` is assumed of a unit whose exit report is
handled, `wakeOk` of a unit that a restart starts again. -/
structure Closed (T : Timings) (P exitOk wakeOk : View → Runtime → Prop) : Prop where
  ticked : ∀ {io : Io} {v : View} {rt rt' : Runtime}, Ticked T io v.shut rt rt' → P v rt → P v rt'
  asked : ∀ {io : Io} {v : View} {rt : Runtime}, v.unit = some rt.unit → P v (rt.startSoon T io)
  disabled : ∀ {io : Io} {v : View} {rt : Runtime}, v.unit = some rt.unit → rt.unit.enabled = false → P v (rt.stop T io)
  shutdown : ∀ {v : View} {rt : Runtime}, P v rt → P { v with shut := true } rt
  shut : ∀ {io : Io} {v : View} {rt : Runtime}, v.shut = true → P v rt → P v (rt.stop T io)
  awaited : ∀ {io : Io} {v : View} {rt : Runtime}, P v rt → P { v with awaited := true } (rt.stop T io)
  restarted : ∀ {io : Io} {v : View} {rt : Runtime}, v.unit = some rt.unit → rt.isRunning = true →
    P { v with awaited := true } (rt.stop T io)
  exited : ∀ {io : Io} {v : View} {rt : Runtime} {summary : String}, exitOk v rt → P v rt →
    P v (rt.exited T io v.shut summary)
  woken : ∀ {io : Io} {v : View} {rt : Runtime} {b : Bool}, wakeOk v rt → rt.state = .down → P v rt →
    P { v with awaited := b } { rt with backoff := T.initialBackoff, nextStart := some io.now }
  left : ∀ {v : View} {rt : Runtime} {b : Bool}, rt.state ≠ .down → P v rt → P { v with awaited := b } rt
  adopted : ∀ {v : View} {rt : Runtime} {u : WebUnit}, v.unit = some u → Adopted v.shut u rt → P v rt
  settled : ∀ {v : View} {rt : Runtime}, v.unit = none → Settled rt → P v rt

/-- The units of the registry as last read are there, with the entries read. -/
def Listed (s : Supervisor) : Prop :=
  ∀ (n : String) (u : WebUnit), s.asRead n = some u → s.units[n]?.map (·.unit) = some u

theorem Listed.quiet (h : Listed s) (hq : Quiet s s') : Listed s' := by
  intro n u hu
  rw [hq.asRead] at hu
  rw [hq.unit]
  exact h n u hu

structure Good (P : View → Runtime → Prop) (s : Supervisor) : Prop where
  listed : Listed s
  each : Each P s

theorem Good.aside (h : Good P s) (hs : Still s s') (hu : s'.units = s.units) : Good P s' :=
  ⟨h.listed.quiet ⟨hs, fun n => by rw [hu]⟩, h.each.aside hs hu⟩

theorem Good.reply (h : Good P s) (stream : Nat) (r : Response) : Good P (s.reply stream r) :=
  h.aside ⟨rfl, rfl, rfl⟩ rfl

/-- A change of one unit: the registry entries of the others are as they were. -/
theorem Good.at (h : Good P s) (he : Elsewhere name s s')
    (hl : ∀ u, s'.asRead name = some u → s'.units[name]?.map (·.unit) = some u)
    (hE : ∀ rt, s'.units[name]? = some rt → P (s'.view name) rt) : Good P s' := by
  refine ⟨fun n u hu => ?_, h.each.at he hE⟩
  by_cases hn : n = name
  · subst hn
    exact hl u hu
  · obtain ⟨hunits, hview⟩ := he n hn
    have hread : s'.asRead n = s.asRead n := congrArg View.unit hview
    rw [hunits]
    exact h.listed n u (hread ▸ hu)

/-- A handler that waits for its unit: only that unit is awaited now. -/
theorem Elsewhere.await {call : Call} (hc : ∀ n, call.restarting = some n → n = name) : Elsewhere name s (s.await call) := by
  intro n hn
  have hne : ¬ call.restarting = some n := fun h => hn (hc n h)
  refine ⟨rfl, ?_⟩
  simp [view, asRead, awaited, Supervisor.await, hne]

theorem view_await {call : Call} (hc : call.restarting = some name) :
    (s.await call).view name = { s.view name with awaited := true } := by
  simp [view, asRead, awaited, Supervisor.await, hc]

theorem Elsewhere.of_still (h : Still s s') (hu : ∀ n, n ≠ name → s'.units[n]? = s.units[n]?) : Elsewhere name s s' :=
  fun n hn => ⟨hu n hn, h.view n⟩

theorem Elsewhere.stop : Elsewhere name s (s.stop T io name) :=
  .of_still (Quiet.stop T io s name).toStill fun n hn => by rw [stop_units, if_neg hn]

section Closed

variable (hP : Closed T P exitOk wakeOk)

include hP

theorem Good.tick (h : Good P s) : Good P (s.tick T io) :=
  ⟨h.listed.quiet (.tick T io s), h.each.tick fun _ _ _ => hP.ticked⟩

/-! ## Requests -/

/-- The two fields of a state that a handler of requests needs: the property, and that the names it goes
through are units. -/
structure Ready (P : View → Runtime → Prop) (names : List String) (s : Supervisor) : Prop where
  good : Good P s
  present : ∀ n ∈ names, s.units[n]?.isSome

omit hP in
/-- A recorded `enabled`, and one change of the runtime. -/
theorem Ready.record {names : List String} {enabled : Bool} {s₁ : Supervisor} {f : Runtime → Runtime}
    (h : Ready P names s) (hn : name ∈ names) (hset : s.setEnabled io name enabled = .ok s₁)
    (he : Elsewhere name s₁ s') (hread : s'.asRead = s₁.asRead)
    (hu : s'.units[name]? = s₁.units[name]?.map f) (hf : ∀ rt, (f rt).unit = rt.unit)
    (hE : ∀ rt, (s₁.view name).unit = some rt.unit → rt.unit.enabled = enabled →
      s₁.units[name]? = some rt → P (s'.view name) (f rt)) : Ready P names s' := by
  obtain ⟨hels, -, -, u, hen, hr, hunits⟩ := setEnabled_spec hset
  obtain ⟨rt₀, hrt₀⟩ := Option.isSome_iff_exists.1 (h.present name hn)
  have hs₁ : s₁.units[name]? = some { rt₀ with unit := u } := by rw [hunits, hrt₀, Option.map_some]
  have hs' : s'.units[name]? = some (f { rt₀ with unit := u }) := by rw [hu, hs₁, Option.map_some]
  refine ⟨h.good.at (hels.trans he) (fun w hw => ?_) fun rt hrt => ?_, fun n hmem => ?_⟩
  · rw [hread, hr] at hw
    rw [hs', Option.map_some, hf, ← hw]
  · rw [hs'] at hrt
    cases hrt
    exact hE _ hr hen hs₁
  · by_cases hnn : n = name
    · rw [hnn, hs']
      rfl
    · rw [(hels.trans he n hnn).1]
      exact h.present n hmem

theorem Ready.startUnit {names : List String} {p : Supervisor × List String} (h : Ready P names p.1)
    (hn : name ∈ names) : Ready P names (startUnit T io p name).1 := by
  unfold Supervisor.startUnit
  cases hset : p.1.setEnabled io name true with
  | error e => exact h
  | ok s₁ =>
    refine h.record (f := .startSoon T io) hn hset .modify rfl (by rw [modify_units, if_pos rfl])
      (fun rt => rfl) fun rt hr _ _ => ?_
    rw [Still.modify.view]
    exact hP.asked hr

theorem Ready.stopUnit {names : List String} {p : Supervisor × List String} (h : Ready P names p.1)
    (hn : name ∈ names) : Ready P names (stopUnit T io p name).1 := by
  unfold Supervisor.stopUnit
  cases hset : p.1.setEnabled io name false with
  | error e => exact h
  | ok s₁ =>
    have hstill := (Quiet.stop T io s₁ name).toStill
    refine h.record (f := .stop T io) hn hset .stop hstill.asRead (by rw [stop_units, if_pos rfl])
      Runtime.stop_unit fun rt hr he _ => ?_
    rw [hstill.view]
    exact hP.disabled hr he

omit hP in
/-- The names a request resolves to are units. -/
theorem resolve_present {target : Target} {names : List String} (h : s.resolve target = .ok names) :
    ∀ n ∈ names, s.units[n]?.isSome := by
  unfold resolve at h
  cases target with
  | none =>
    cases h
    intro n hn
    rw [Std.TreeMap.mem_keys] at hn
    exact Std.TreeMap.mem_iff_isSome_getElem?.1 hn
  | some name =>
    simp only at h
    split at h
    · rename_i hmem
      cases h
      intro n hn
      rw [List.mem_singleton.1 hn]
      exact Std.TreeMap.mem_iff_isSome_getElem?.1 hmem
    · cases h

theorem Good.startUnits {target : Target} {names : List String} (h : Good P s) (hr : s.resolve target = .ok names) :
    Good P (names.foldl (Supervisor.startUnit T io) (s, [])).1 :=
  (List.foldlRecOn (motive := fun p : Supervisor × List String => Ready P names p.1) names _
    ⟨h, resolve_present hr⟩ fun _ hp _ hn => hp.startUnit hP hn).good

theorem Good.applyStart (stream : Nat) (target : Target) (h : Good P s) : Good P (s.applyStart T io stream target) := by
  unfold Supervisor.applyStart
  cases hr : s.resolve target with
  | error e => exact h.reply stream _
  | ok names => exact ((h.startUnits hP hr).tick hP).reply stream _

theorem Good.applyStop (stream : Nat) (target : Target) (h : Good P s) : Good P (s.applyStop T io stream target) := by
  unfold Supervisor.applyStop
  cases hr : s.resolve target with
  | error e => exact h.reply stream _
  | ok names =>
    have hfold : Ready P names (names.foldl (Supervisor.stopUnit T io) (s, [])).1 :=
      List.foldlRecOn (motive := fun p : Supervisor × List String => Ready P names p.1) names _
        ⟨h, resolve_present hr⟩ fun p hp n hn => hp.stopUnit hP hn
    exact hfold.good.reply stream _

/-- `restart --all` stops the next unit that is enabled, and waits for it. -/
theorem Good.restartNext (stream : Nat) (names notes : List String) (h : Good P s) :
    Good P (s.restartNext T io stream names notes) := by
  induction names generalizing notes with
  | nil => exact h.reply stream _
  | cons name rest ih =>
    unfold Supervisor.restartNext
    split
    · have hv : ((s.stop T io name).await (.restartAll stream name rest notes (io.now + T.grace * 2))).view name =
          { (s.stop T io name).view name with awaited := true } := view_await rfl
      have hq := Quiet.stop T io s name
      refine h.at (Elsewhere.stop.trans (.await fun n hn => (Option.some.inj hn).symm)) (fun u hu => ?_) fun rt hrt => ?_
      · exact (h.listed.quiet hq) name u hu
      · have hrt' : (s.stop T io name).units[name]? = some rt := hrt
        rw [stop_units, if_pos rfl, Option.map_eq_some_iff] at hrt'
        obtain ⟨rt₀, hrt₀, rfl⟩ := hrt'
        rw [hv, hq.toStill.view]
        exact hP.awaited (h.each name rt₀ hrt₀)
    · exact ih _

theorem Good.checkHealthz (stream : Nat) (name listen : String) (rest notes : List String) (timeout : Instant)
    (h : Good P s) : Good P (s.checkHealthz T io stream name listen rest notes timeout) := by
  unfold Supervisor.checkHealthz
  split
  · exact h.restartNext hP stream rest notes
  · split
    · exact h.reply stream _
    · refine ⟨h.listed, fun n rt hrt => ?_⟩
      have hv : ∀ call : Call, call.restarting = none → (s.await call).view n = s.view n := fun call hc => by
        simp [view, asRead, awaited, Supervisor.await, hc]
      rw [hv _ rfl]
      exact h.each n rt hrt

/-- The unit of a restart is started again, and the events it woke from go on. -/
theorem Good.restartNow (stream : Nat) (h : Good P (s.modify name (.startSoon T io))) :
    Good P (s.restartNow T io stream name) :=
  (h.tick hP).reply stream _

/-- The unit is recorded as enabled and is to start now. -/
theorem Good.askUnit {s₁ : Supervisor} (h : Good P s) (hn : s.units[name]?.isSome)
    (hset : s.setEnabled io name true = .ok s₁) : Good P (s₁.modify name (.startSoon T io)) := by
  have hready : Ready P [name] s := ⟨h, fun n hmem => by rwa [List.mem_singleton.1 hmem]⟩
  refine (hready.record (f := .startSoon T io) (List.mem_singleton.2 rfl) hset .modify rfl
    (by rw [modify_units, if_pos rfl]) (fun rt => rfl) fun rt hu _ _ => ?_).good
  rw [Still.modify.view]
  exact hP.asked hu

theorem Good.restartNamed (stream : Nat) (h : Good P s) (hn : s.units[name]?.isSome) :
    Good P (s.restartNamed T io stream name) := by
  unfold Supervisor.restartNamed
  cases hset : s.setEnabled io name true with
  | error e => exact h.reply stream _
  | ok s₁ =>
    simp only
    by_cases hrun : s₁.units[name]?.any Runtime.isRunning = true
    · rw [if_pos hrun]
      have hready : Ready P [name] s := ⟨h, fun n hmem => by rwa [List.mem_singleton.1 hmem]⟩
      have hstill := (Quiet.stop T io s₁ name).toStill
      have hc : (Call.restart stream name (io.now + T.grace * 2)).restarting = some name := rfl
      refine (hready.record (f := .stop T io) (List.mem_singleton.2 rfl) hset
        (Elsewhere.stop.trans (.await fun n hn => (Option.some.inj (hc.symm.trans hn)).symm)) hstill.asRead
        ((stop_units T io s₁ name name).trans (if_pos rfl)) Runtime.stop_unit fun rt hu _ hrt => ?_).good
      rw [view_await hc, hstill.view]
      rw [hrt, Option.any_some] at hrun
      exact hP.restarted hu hrun
    · rw [if_neg hrun]
      exact Good.restartNow hP stream (h.askUnit hP hn hset)

omit hP in
/-- A name that resolves is a unit. -/
theorem resolve_named {names : List String} (h : s.resolve (some name) = .ok names) : s.units[name]?.isSome := by
  unfold resolve at h
  simp only at h
  split at h
  · rename_i hmem
    exact Std.TreeMap.mem_iff_isSome_getElem?.1 hmem
  · cases h

theorem Good.applyRestart (stream : Nat) (target : Target) (h : Good P s) :
    Good P (s.applyRestart T io stream target) := by
  unfold Supervisor.applyRestart
  cases hr : s.resolve target with
  | error e => exact h.reply stream _
  | ok names =>
    cases target with
    | none => exact h.restartNext hP stream names []
    | some name => exact h.restartNamed hP stream (resolve_named hr)

theorem Good.reload (h : Good P s) : Good P (s.reload T io) := by
  unfold Supervisor.reload
  split
  · exact h
  · split
    · exact h
    · rename_i listed hl
      obtain ⟨hshut, -, hset, had⟩ := adopt_spec (T := T) (Registry.list_nodup hl) s
      refine ⟨fun n u hu => ?_, fun n rt hrt => ?_⟩
      · obtain ⟨rt, hrt, hunit, -⟩ := had n u hu
        rw [hrt, Option.map_some, hunit]
      · cases hread : (s.adopt T io listed).asRead n with
        | none => exact hP.settled hread (hset n rt hrt hread)
        | some u =>
          obtain ⟨rt', hrt', had'⟩ := had n u hread
          obtain rfl : rt = rt' := Option.some.inj (hrt.symm.trans hrt')
          refine hP.adopted (u := u) hread ?_
          rw [← hshut] at had'
          exact had'

theorem Good.serveRequest (stream : Nat) (r : Option Request) (h : Good P s) :
    Good P (s.serveRequest T io stream r) := by
  cases r with
  | none => exact h.reply stream _
  | some r =>
    cases r with
    | list target => exact h.reply stream _
    | status target => exact h.reply stream _
    | start target => exact h.applyStart hP stream target
    | stop target => exact h.applyStop hP stream target
    | restart target => exact h.applyRestart hP stream target
    | reload => exact (h.reload hP).reply stream _
    | log target follow =>
      unfold Supervisor.serveRequest Supervisor.serveLog
      simp only
      split
      · exact h.reply stream _
      · split
        · exact h.aside ⟨rfl, rfl, rfl⟩ rfl
        · exact h.reply stream _

/-! ## The other events -/

theorem Good.childExited (pid : Pid) (summary : String) (h : Good P s)
    (hok : ∀ rt, s.units[name]? = some rt → rt.pid.all (· = pid) → exitOk (s.view name) rt) :
    Good P (s.childExited T io name pid summary) := by
  unfold Supervisor.childExited
  split
  · exact h
  · rename_i rt hrt
    split
    · exact h
    · rename_i hpid
      have hreaped : Quiet s (s.act (.reaped name)) := .act fun w => rfl
      have hq : Quiet s ((s.act (.reaped name)).modify name (.exited T io s.shuttingDown summary)) :=
        hreaped.trans (.modify fun rt => rt.exited_unit _ _)
      refine ⟨h.listed.quiet hq, (h.each.aside hreaped.toStill rfl).modify fun rt' hrt' hp => ?_⟩
      obtain rfl : rt = rt' := Option.some.inj (hrt.symm.trans hrt')
      rw [hreaped.toStill.view] at hp ⊢
      refine hP.exited (v := s.view name) (hok rt hrt ?_) hp
      cases hp : rt.pid with
      | none => rfl
      | some p =>
        rw [hp] at hpid
        simpa using hpid

theorem Good.beginShutdown (signal : Nat) (h : Good P s) : Good P (s.beginShutdown T io signal) := by
  unfold Supervisor.beginShutdown
  split
  · exact h
  · have hbegun : Good P ({ s with shuttingDown := true }.act (.shutdown signal)) := by
      have hview : ∀ n, ({ s with shuttingDown := true }.act (.shutdown signal)).view n =
          { s.view n with shut := true } := fun n => by
        simp [view, asRead, awaited, Ledger.after]
      refine ⟨fun n u hu => h.listed n u ?_, fun n rt hrt => ?_⟩
      · rw [← hu]
        simp [asRead, Ledger.after]
      · rw [hview]
        exact hP.shutdown (h.each n rt hrt)
    refine (List.foldlRecOn (motive := fun s => Good P s ∧ s.shuttingDown = true) _ _ ⟨hbegun, rfl⟩
      fun s hs name _ => ?_).1
    have hq := Quiet.stop T io s name
    refine ⟨⟨hs.1.listed.quiet hq, hs.1.each.stop fun rt _ hp => hP.shut hs.2 hp⟩, hq.shuttingDown.trans hs.2⟩

theorem Good.handle (e : Event) (h : Good P s)
    (hok : ∀ name pid summary rt, e = .childExited name pid summary → s.units[name]? = some rt →
      rt.pid.all (· = pid) → exitOk (s.view name) rt) : Good P (s.handle T io e) := by
  cases e with
  | request stream r => exact h.serveRequest hP stream r
  | childExited name pid summary =>
    exact (h.childExited hP pid summary fun rt hrt hp => hok name pid summary rt rfl hrt hp).aside ⟨rfl, rfl, rfl⟩ rfl
  | logLine name line => exact h.aside ⟨rfl, rfl, rfl⟩ rfl
  | signal signal => exact (h.beginShutdown hP signal).aside ⟨rfl, rfl, rfl⟩ rfl

/-! ## A restart that wakes -/

omit hP in
theorem Elsewhere.pop {call : Call} {rest : List Call} (hc : s.calls = call :: rest)
    (hn : ∀ n, call.restarting = some n → n = name) : Elsewhere name s { s with calls := rest } := by
  intro n hne
  have hcall : ¬ call.restarting = some n := fun h => hne (hn n h)
  refine ⟨rfl, ?_⟩
  simp [view, asRead, awaited, hc, hcall]

/-- The restart gives up, with its unit still there. -/
theorem Good.giveUp {call : Call} {rest : List Call} (h : Good P s) (hc : s.calls = call :: rest)
    (hr : call.restarting = some name) (hd : ¬ s.done call = true) : Good P { s with calls := rest } := by
  refine h.at (.pop hc fun n hn => (Option.some.inj (hr.symm.trans hn)).symm) (fun u hu => h.listed name u hu)
    fun rt hrt => ?_
  refine hP.left (v := s.view name) (fun hdown => hd ?_) (h.each name rt hrt)
  have hrt' : s.units[name]? = some rt := hrt
  simp [done, hr, hrt', hdown]

/-- Its unit is down: it is to be started now. -/
theorem Good.wakeUnit {call : Call} {rest : List Call} {f : Runtime → Runtime} (h : Good P s)
    (hc : s.calls = call :: rest) (hr : call.restarting = some name) (hd : s.done call = true)
    (hf : ∀ rt, rt.state = .down → f rt = { rt with backoff := T.initialBackoff, nextStart := some io.now })
    (hok : ∀ rt, s.units[name]? = some rt → rt.state = .down → wakeOk (s.view name) rt) :
    Good P ({ s with calls := rest }.modify name f) := by
  obtain ⟨rt, hrt, hdown⟩ : ∃ rt, s.units[name]? = some rt ∧ rt.state = .down := by
    rw [done, hr, Option.any_some, Option.any_eq_true] at hd
    obtain ⟨rt, hrt, hdown⟩ := hd
    exact ⟨rt, hrt, of_decide_eq_true hdown⟩
  have hunits : ({ s with calls := rest }.modify name f).units[name]? = some (f rt) := by
    rw [modify_units, if_pos rfl]
    exact congrArg (Option.map f) hrt
  refine h.at (.trans (.pop hc fun n hn => (Option.some.inj (hr.symm.trans hn)).symm) .modify) (fun u hu => ?_)
    fun rt' hrt' => ?_
  · rw [hunits, Option.map_some, hf rt hdown]
    have hl := h.listed name u hu
    rwa [hrt] at hl
  · rw [hunits] at hrt'
    cases hrt'
    rw [hf rt hdown, Still.modify.view]
    exact hP.woken (v := s.view name) (hok rt hrt hdown) hdown (h.each name rt hrt)

theorem Good.resume {call : Call} {rest : List Call} (h : Good P s) (hc : s.calls = call :: rest)
    (hok : ∀ name rt, call.restarting = some name → s.units[name]? = some rt → rt.state = .down →
      wakeOk (s.view name) rt) : Good P ({ s with calls := rest }.resume T io (s.done call) call) := by
  have hsoon : ∀ rt : Runtime, rt.state = .down →
      rt.startSoon T io = { rt with backoff := T.initialBackoff, nextStart := some io.now } := fun rt hdown => by
    simp [Runtime.startSoon, Runtime.isRunning_of_down hdown]
  cases call with
  | restart stream name deadline =>
    unfold Supervisor.resume
    by_cases hd : s.done (.restart stream name deadline) = true
    · simp only [hd, if_true]
      exact Good.restartNow hP stream (h.wakeUnit hP hc rfl hd hsoon fun rt => hok name rt rfl)
    · simp only [hd, Bool.false_eq_true, if_false]
      exact (h.giveUp hP hc rfl hd).reply stream _
  | restartAll stream name names notes deadline =>
    unfold Supervisor.resume
    by_cases hd : s.done (.restartAll stream name names notes deadline) = true
    · simp only [hd, if_true]
      have hwoken := h.wakeUnit hP hc rfl hd (fun rt (_ : rt.state = .down) => (rfl : _ = { rt with
        backoff := T.initialBackoff, nextStart := some io.now })) fun rt => hok name rt rfl
      exact (hwoken.tick hP).checkHealthz hP stream name _ names notes _
    · simp only [hd, Bool.false_eq_true, if_false]
      exact (h.giveUp hP hc rfl hd).reply stream _
  | healthz stream name listen names notes timeout deadline =>
    unfold Supervisor.resume
    refine Good.checkHealthz hP stream name listen names notes timeout ⟨h.listed, fun n rt hrt => ?_⟩
    have hv : ({ s with calls := rest } : Supervisor).view n = s.view n := by
      simp [view, asRead, awaited, hc, Call.restarting]
    rw [hv]
    exact h.each n rt hrt

/-! ## Steps -/

/-- A step keeps the property of each unit, if `exitOk` holds of a unit whose exit report it handles, and
`wakeOk` of a unit that a restart, its wait over, starts again. -/
theorem step_good {m : Move} (h : Good P s) (hstep : step T s m = some s')
    (hexit : ∀ io name pid summary rt, m = .take io (some (.childExited name pid summary)) →
      (name, pid) ∈ s.reports → s.units[name]? = some rt → rt.pid.all (· = pid) → exitOk (s.view name) rt)
    (hwake : ∀ io call rest name rt, m = .wake io → s.calls = call :: rest → call.restarting = some name →
      s.units[name]? = some rt → rt.state = .down → wakeOk (s.view name) rt) : Good P s' := by
  cases m with
  | edit registry =>
    cases hstep
    exact h.aside ⟨rfl, rfl, rfl⟩ rfl
  | dies name pid =>
    simp only [step] at hstep
    split at hstep
    · cases hstep
      exact h.aside ⟨rfl, rfl, by simp [asRead, Ledger.after]⟩ rfl
    · cases hstep
  | take io event =>
    simp only [step] at hstep
    split at hstep
    · cases hstep
    · cases event with
      | none =>
        cases hstep
        exact h.aside ⟨rfl, rfl, rfl⟩ rfl
      | some e =>
        simp only at hstep
        split at hstep
        · rename_i harr
          cases hstep
          have hrec : Still s (s.received e) ∧ (s.received e).units = s.units := by
            cases e <;> exact ⟨⟨rfl, rfl, rfl⟩, rfl⟩
          refine (h.aside hrec.1 hrec.2).handle hP e fun name pid summary rt he hrt hp => ?_
          subst he
          rw [hrec.1.view]
          exact hexit io name pid summary rt rfl (of_decide_eq_true harr) hrt hp
        · cases hstep
  | tick io =>
    simp only [step] at hstep
    split at hstep
    · cases hstep
      exact (h.tick hP).aside ⟨rfl, rfl, rfl⟩ rfl
    · cases hstep
  | wake io =>
    simp only [step] at hstep
    split at hstep
    · cases hstep
    · rename_i call rest hc
      split at hstep
      · cases hstep
      · cases hstep
        exact h.resume hP hc fun name rt hr hrt hdown => hwake io call rest name rt rfl hc hr hrt hdown
  | leave =>
    simp only [step] at hstep
    split at hstep
    · cases hstep
      exact h.aside (Quiet.act fun w => rfl).toStill rfl
    · cases hstep

end Closed

/-- At the start the registry is read once, or could not be. -/
theorem begin_good (hP : Closed T P exitOk wakeOk) (registry : Registry) : Good P (begin T io registry) := by
  refine Good.reload hP ⟨fun n u hu => ?_, fun n rt hrt => ?_⟩
  · simp [asRead, ledger, Ledger.empty] at hu
  · simp at hrt

end Supervisor

end Hyoui.WebDaemon
