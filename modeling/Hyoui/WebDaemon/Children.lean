import Hyoui.WebDaemon.Enabled
/-!
# One child a unit

What the supervisor does is lawful for the observer of `Ledger`: at most one child of a unit lives, a child
is started only for a registered and enabled unit and never after a shutdown signal, signals go to the
current child, and after a shutdown the loop ends when no child lives.

A unit that has gone from the registry stays in `units` until its child is down. Nothing starts it again but
a `restart` that has stopped it, or found it among the units, and that waits for it.
-/

namespace Hyoui.WebDaemon

open Hyoui.Lib

namespace Supervisor

variable {T : Timings} {io : Io} {s s' : Supervisor} {name n : String} {pid : Pid} {f : Runtime → Runtime}

/-! ## Units that have gone from the registry -/

/-- A unit that is not in the registry as last read does not run and is not going to be started. -/
def Idle (v : View) (rt : Runtime) : Prop :=
  v.unit = none → rt.isRunning = false ∧ (v.shut = true ∨ rt.unit.enabled = false ∨ rt.nextStart = none)

/-- A restart that starts its unit again finds it in the registry as last read. -/
def Registered (v : View) (rt : Runtime) : Prop := rt.unit.enabled = true → v.shut = false → v.unit.isSome

instance (v : View) (rt : Runtime) : Decidable (Registered v rt) := inferInstanceAs (Decidable (_ → _ → _))

/-- A unit that is down, enabled and due is in the registry as last read. -/
theorem Idle.registered {v : View} {rt : Runtime} (h : Idle v rt) (hshut : v.shut = false) (hen : rt.unit.enabled = true)
    (hn : rt.nextStart.isSome) : ∃ u, v.unit = some u := by
  cases hu : v.unit with
  | some u => exact ⟨u, rfl⟩
  | none =>
    rcases (h hu).2 with h | h | h
    · rw [h] at hshut
      cases hshut
    · rw [h] at hen
      cases hen
    · rw [h] at hn
      cases hn

theorem idle_closed (T : Timings) : Closed T Idle (fun _ rt => rt.pid.isSome) Registered where
  ticked := by
    intro io v rt rt' ht hidle hnone
    cases ht with
    | kill hpid hs => exact ⟨rfl, (hidle hnone).2⟩
    | failed e hs hshut he hn =>
      obtain ⟨u, hu⟩ := hidle.registered hshut he hn
      exact absurd (hnone.symm.trans hu) (by simp)
    | started pid hs hshut he hn =>
      obtain ⟨u, hu⟩ := hidle.registered hshut he hn
      exact absurd (hnone.symm.trans hu) (by simp)
  asked := fun hu hnone => absurd (hnone.symm.trans hu) (by simp)
  disabled := fun hu _ hnone => absurd (hnone.symm.trans hu) (by simp)
  shutdown := fun hidle hnone => ⟨(hidle hnone).1, .inl rfl⟩
  shut := fun hshut _ _ => ⟨Runtime.stop_isRunning _, .inl hshut⟩
  awaited := fun _ _ => ⟨Runtime.stop_isRunning _, .inr (.inr (Runtime.stop_nextStart _))⟩
  restarted := fun _ _ _ => ⟨Runtime.stop_isRunning _, .inr (.inr (Runtime.stop_nextStart _))⟩
  exited := by
    intro io v rt summary hpid hidle hnone
    -- a unit that is not running and has a child is stopping
    have hstop : rt.wasStopping = true := by
      have hrun := (hidle hnone).1
      cases hs : rt.state <;> simp_all [Runtime.pid, Runtime.isRunning, Runtime.wasStopping]
    refine ⟨Runtime.isRunning_of_down (Runtime.exited_state _ _ _), .inr (.inr ?_)⟩
    simp [Runtime.exited, hstop]
  woken := by
    intro io v rt b hok hdown _ hnone
    refine ⟨Runtime.isRunning_of_down hdown, ?_⟩
    by_cases hen : rt.unit.enabled = true
    · cases hshut : v.shut with
      | true => exact .inl rfl
      | false =>
        have hsome := hok hen hshut
        have hnone' : v.unit = none := hnone
        rw [hnone'] at hsome
        cases hsome
    · exact .inr (.inl (Bool.eq_false_iff.2 hen))
  left := fun _ hidle hnone => hidle hnone
  adopted := fun hu _ hnone => absurd (hnone.symm.trans hu) (by simp)
  settled := fun _ hset _ => ⟨hset.1, .inr (.inr hset.2)⟩

/-! ## The children that the supervisor knows of -/

/-- The pid in a unit's state. -/
def pidOf (s : Supervisor) (name : String) : Option Pid := s.units[name]?.bind Runtime.pid

/-- What was done so far was lawful, and the observer and the supervisor agree. Every child that lives, or
whose exit report is still in the channel, is the one in its unit's state. -/
structure Tracked (s : Supervisor) : Prop where
  lawful : Ledger.empty.Lawful s.acts
  shutdown : (ledger s.acts).shutdown = s.shuttingDown
  live : (ledger s.acts).live = s.alive
  current : ∀ n, (ledger s.acts).current n = s.pidOf n
  child : ∀ c ∈ s.alive ++ s.reports, s.pidOf c.1 = some c.2
  single : ((s.alive ++ s.reports).map Prod.fst).Nodup

/-- A change of other fields and of states that keeps the pids. -/
theorem Tracked.congr (h : Tracked s) (ha : s'.acts = s.acts) (hs : s'.shuttingDown = s.shuttingDown)
    (hl : s'.alive = s.alive) (hr : s'.reports = s.reports) (hp : ∀ n, s'.pidOf n = s.pidOf n) : Tracked s' where
  lawful := ha ▸ h.lawful
  shutdown := by rw [ha, hs, h.shutdown]
  live := by rw [ha, hl, h.live]
  current n := by rw [ha, hp, h.current]
  child c hc := by
    rw [hl, hr] at hc
    rw [hp, h.child c hc]
  single := by rw [hl, hr]; exact h.single

theorem Tracked.modify (h : Tracked s) (hf : ∀ rt, s.units[name]? = some rt → (f rt).pid = rt.pid) :
    Tracked (s.modify name f) := by
  refine h.congr rfl rfl rfl rfl fun n => ?_
  rw [pidOf, modify_units]
  by_cases hn : n = name
  · rw [if_pos hn, hn, pidOf]
    cases hrt : s.units[name]? with
    | none => rfl
    | some rt => exact hf rt hrt
  · rw [if_neg hn]
    rfl

/-- An act that the observer allows and that tells it nothing of children and shutdown. -/
theorem Tracked.act {a : Act} (h : Tracked s) (hall : (ledger s.acts).Allows a)
    (ha : ∀ w : Ledger, (w.after a).shutdown = w.shutdown ∧ (w.after a).live = w.live ∧ (w.after a).current = w.current) :
    Tracked (s.act a) where
  lawful := by rw [act_acts, Ledger.lawful_concat]; exact ⟨h.lawful, hall⟩
  shutdown := by rw [act_acts, ledger_concat, (ha _).1]; exact h.shutdown
  live := by rw [act_acts, ledger_concat, (ha _).2.1]; exact h.live
  current n := by rw [act_acts, ledger_concat, (ha _).2.2]; exact h.current n
  child := h.child
  single := h.single

/-- Signals go to the pid in the unit's state, which is that of the current child. -/
theorem Tracked.sendSignal (h : Tracked s) (hp : s.pidOf name = some pid) (signal : Signal) :
    Tracked (s.sendSignal name pid signal) := by
  rcases sendSignal_cases s name pid signal with he | he
  · rw [he]
    exact h
  · rw [he]
    refine h.act ?_ fun w => ⟨rfl, rfl, rfl⟩
    exact (h.current name).trans hp

theorem pidOf_modify (hf : ∀ rt : Runtime, (f rt).pid = rt.pid) : (s.modify name f).pidOf n = s.pidOf n := by
  rw [pidOf, modify_units, pidOf]
  by_cases hn : n = name
  · rw [if_pos hn, Option.bind_map]
    exact congrArg (Option.bind _) (funext hf)
  · rw [if_neg hn]

theorem Tracked.stop (T : Timings) (io : Io) (name : String) (h : Tracked s) : Tracked (s.stop T io name) := by
  have hmod : Tracked (s.modify name (.stop T io)) := h.modify fun rt _ => rt.stop_pid
  rcases stop_cases T io s name with ⟨-, he⟩ | ⟨rt, hrt, he | ⟨pid, hpid, he⟩⟩
  · rw [he]
    exact h
  · rw [he]
    exact hmod
  · rw [he]
    refine hmod.sendSignal ?_ .term
    rw [pidOf_modify Runtime.stop_pid, pidOf, hrt]
    exact hpid

/-- A new child of a unit that has none. -/
theorem Tracked.spawned {rt : Runtime} (h : Tracked s) (hrt : s.units[name]? = some rt) (hnone : rt.pid = none)
    (hen : (s.asRead name).any (·.enabled) = true) (hshut : s.shuttingDown = false) (pid : Pid) :
    Tracked ((s.spawned name pid).modify name (.started io pid)) := by
  have hpid : ∀ n, ((s.spawned name pid).modify name (.started io pid)).pidOf n =
      if n = name then some pid else s.pidOf n := by
    intro n
    rw [pidOf, modify_units]
    by_cases hn : n = name
    · rw [if_pos hn, if_pos hn, hn]
      exact congrArg (Option.bind · Runtime.pid) (congrArg (Option.map (Runtime.started io pid)) hrt)
    · rw [if_neg hn, if_neg hn]
      rfl
  -- nobody of this name is alive or reported
  have hnew : ∀ c ∈ s.alive ++ s.reports, c.1 ≠ name := by
    intro c hc hcn
    have hp := h.child c hc
    rw [hcn, pidOf, hrt, Option.bind_some, hnone] at hp
    cases hp
  have hperm : (s.alive ++ [(name, pid)] ++ s.reports).Perm ((name, pid) :: (s.alive ++ s.reports)) := by
    rw [List.append_assoc]
    exact List.perm_middle
  refine ⟨?_, ?_, ?_, fun n => ?_, fun c hc => ?_, ?_⟩
  · refine Ledger.lawful_concat.2 ⟨h.lawful, hen, fun c hc => ?_, h.shutdown.trans hshut⟩
    exact hnew c (List.mem_append_left _ (h.live ▸ hc))
  · exact (congrArg Ledger.shutdown (ledger_concat s.acts _)).trans h.shutdown
  · exact (congrArg Ledger.live (ledger_concat s.acts _)).trans (congrArg (· ++ [(name, pid)]) h.live)
  · rw [hpid]
    refine (congrFun (congrArg Ledger.current (ledger_concat s.acts _)) n).trans ?_
    simp only [Ledger.after, h.current]
  · rw [hpid]
    rcases List.mem_cons.1 (hperm.mem_iff.1 hc) with rfl | hc
    · exact if_pos rfl
    · rw [if_neg (hnew c hc)]
      exact h.child c hc
  · refine ((hperm.map Prod.fst).nodup_iff).2 (List.nodup_cons.2 ⟨fun hmem => ?_, h.single⟩)
    obtain ⟨c, hc, hcn⟩ := List.mem_map.1 hmem
    exact hnew c hc hcn

theorem Tracked.tickUnit (h : Tracked s) (hg : Good Idle s) : Tracked (s.tickUnit T io name) := by
  rcases tickUnit_cases T io s name with he | ⟨rt, hrt, ⟨pid, hpid, hs, he⟩ | ⟨hs, hshut, hen, hn, ⟨e, he⟩ | ⟨pid, he⟩⟩⟩
  · rw [he]
    exact h
  · rw [he]
    have hkill : (rt.kill T io pid).pid = rt.pid := by rw [hpid]; rfl
    refine Tracked.sendSignal (h.modify fun rt' hrt' => ?_) ?_ .kill
    · obtain rfl : rt = rt' := Option.some.inj (hrt.symm.trans hrt')
      exact hkill
    · rw [pidOf, modify_units, if_pos rfl, hrt]
      rfl
  · rw [he]
    exact h.modify fun rt _ => rfl
  · rw [he]
    obtain ⟨u, hu⟩ := (hg.each name rt hrt).registered hshut hen hn
    refine h.spawned hrt (Runtime.pid_of_down hs) ?_ hshut pid
    -- the entry last read is the one that says enabled
    have hunit : some rt.unit = some u := by
      have hl := hg.listed name u hu
      rwa [hrt] at hl
    have hread : s.asRead name = some u := hu
    rw [hread, ← hunit, Option.any_some, hen]

theorem Tracked.tick (h : Tracked s) (hg : Good Idle s) : Tracked (s.tick T io) := by
  refine (List.foldlRecOn (motive := fun s => Tracked s ∧ Good Idle s) _ _ ⟨h, hg⟩ fun s hs name _ => ?_).1
  exact ⟨hs.1.tickUnit hs.2, hs.2.listed.quiet (.tickUnit T io s name),
    hs.2.each.tickUnit fun rt rt' _ => (idle_closed T).ticked (v := s.view name)⟩

theorem Tracked.reply (h : Tracked s) (stream : Nat) (r : Response) : Tracked (s.reply stream r) :=
  h.congr rfl rfl rfl rfl fun _ => rfl

/-! ## Requests -/

theorem Tracked.setEnabled {enabled : Bool} (h : Tracked s) (hset : s.setEnabled io name enabled = .ok s') :
    Tracked s' := by
  obtain ⟨u, registry, -, rfl⟩ := setEnabled_ok hset
  refine Tracked.modify (Tracked.act (h.congr rfl rfl rfl rfl fun _ => rfl) trivial fun w => ⟨rfl, rfl, rfl⟩) fun rt _ => ?_
  rfl

theorem Tracked.startUnit {p : Supervisor × List String} (h : Tracked p.1) : Tracked (startUnit T io p name).1 := by
  unfold Supervisor.startUnit
  cases hset : p.1.setEnabled io name true with
  | error e => exact h
  | ok s => exact (h.setEnabled hset).modify fun rt _ => rfl

theorem Tracked.stopUnit {p : Supervisor × List String} (h : Tracked p.1) : Tracked (stopUnit T io p name).1 := by
  unfold Supervisor.stopUnit
  cases hset : p.1.setEnabled io name false with
  | error e => exact h
  | ok s => exact (h.setEnabled hset).stop T io name

theorem Tracked.restartNext (stream : Nat) (names notes : List String) (h : Tracked s) :
    Tracked (s.restartNext T io stream names notes) := by
  induction names generalizing notes with
  | nil => exact h.reply stream _
  | cons name rest ih =>
    unfold Supervisor.restartNext
    split
    · exact (h.stop T io name).congr rfl rfl rfl rfl fun _ => rfl
    · exact ih _

theorem Tracked.checkHealthz (stream : Nat) (name listen : String) (rest notes : List String) (timeout : Instant)
    (h : Tracked s) : Tracked (s.checkHealthz T io stream name listen rest notes timeout) := by
  unfold Supervisor.checkHealthz
  split
  · exact h.restartNext stream rest notes
  · split
    · exact h.reply stream _
    · exact h.congr rfl rfl rfl rfl fun _ => rfl

theorem Tracked.restartNow (stream : Nat) (h : Tracked s) (hg : Good Idle (s.modify name (.startSoon T io))) :
    Tracked (s.restartNow T io stream name) := by
  have hsoon : Tracked (s.modify name (.startSoon T io)) := h.modify fun rt _ => rfl
  exact (hsoon.tick hg).reply stream _

theorem Tracked.restartNamed (stream : Nat) (h : Tracked s) (hg : Good Idle s) (hn : s.units[name]?.isSome) :
    Tracked (s.restartNamed T io stream name) := by
  unfold Supervisor.restartNamed
  cases hset : s.setEnabled io name true with
  | error e => exact h.reply stream _
  | ok s₁ =>
    simp only
    split
    · exact ((h.setEnabled hset).stop T io name).congr rfl rfl rfl rfl fun _ => rfl
    · exact (h.setEnabled hset).restartNow stream (hg.askUnit (idle_closed T) hn hset)

/-! ## `reload` -/

/-- A unit is forgotten when it has no child. -/
theorem Tracked.dropUnit (T : Timings) (io : Io) (name : String) (h : Tracked s) : Tracked (s.dropUnit T io name) := by
  have hstop := h.stop T io name
  unfold Supervisor.dropUnit removeDown
  split
  · rename_i rt hrt
    split
    · rename_i hdown
      refine hstop.congr rfl rfl rfl rfl fun n => ?_
      rw [pidOf, pidOf, Std.TreeMap.getElem?_erase]
      split
      · rename_i hn
        rw [← Std.LawfulEqCmp.compare_eq_iff_eq.1 hn, hrt]
        exact (Runtime.pid_of_down hdown).symm
      · rfl
    · exact hstop
  · exact hstop

theorem Tracked.setEntry (T : Timings) (name : String) (unit : WebUnit) (h : Tracked s) :
    Tracked (s.setEntry T name unit) := by
  unfold Supervisor.setEntry
  split
  · exact h.modify fun rt _ => rfl
  · rename_i hnone
    refine h.congr rfl rfl rfl rfl fun n => ?_
    rw [pidOf, pidOf, Std.TreeMap.getElem?_insert]
    split
    · rename_i hn
      rw [← Std.LawfulEqCmp.compare_eq_iff_eq.1 hn, hnone]
      rfl
    · rfl

theorem Tracked.adoptUnit (T : Timings) (io : Io) (p : String × WebUnit) (h : Tracked s) :
    Tracked (s.adoptUnit T io p) := by
  have hentry := h.setEntry T p.1 p.2
  unfold Supervisor.adoptUnit settleUnit
  split
  · exact hentry
  · simp only
    split
    · exact hentry.modify fun rt _ => rfl
    · split
      · exact hentry.stop T io p.1
      · exact hentry

theorem Tracked.reload (T : Timings) (io : Io) (h : Tracked s) : Tracked (s.reload T io) := by
  unfold Supervisor.reload
  split
  · exact h
  · split
    · exact h
    · rename_i listed _
      unfold Supervisor.adopt
      have hlisted : Tracked (s.act (.listed listed)) := h.act trivial fun w => ⟨rfl, rfl, rfl⟩
      refine List.foldlRecOn (motive := Tracked) _ _ ?_ fun s hs p _ => hs.adoptUnit T io p
      exact List.foldlRecOn (motive := Tracked) _ _ hlisted fun s hs name _ => hs.dropUnit T io name

theorem Tracked.serveRequest (stream : Nat) (r : Option Request) (h : Tracked s) (hg : Good Idle s) :
    Tracked (s.serveRequest T io stream r) := by
  cases r with
  | none => exact h.reply stream _
  | some r =>
    cases r with
    | list target => exact h.reply stream _
    | status target => exact h.reply stream _
    | start target =>
      unfold Supervisor.serveRequest Supervisor.applyStart
      simp only
      cases hr : s.resolve target with
      | error e => exact h.reply stream _
      | ok names =>
        have hfold : Tracked (names.foldl (Supervisor.startUnit T io) (s, [])).1 :=
          List.foldlRecOn (motive := fun p : Supervisor × List String => Tracked p.1) names _ h
            fun p hp n _ => hp.startUnit
        exact (hfold.tick (hg.startUnits (idle_closed T) hr)).reply stream _
    | stop target =>
      unfold Supervisor.serveRequest Supervisor.applyStop
      simp only
      cases hr : s.resolve target with
      | error e => exact h.reply stream _
      | ok names =>
        have hfold : Tracked (names.foldl (Supervisor.stopUnit T io) (s, [])).1 :=
          List.foldlRecOn (motive := fun p : Supervisor × List String => Tracked p.1) names _ h
            fun p hp n _ => hp.stopUnit
        exact hfold.reply stream _
    | restart target =>
      unfold Supervisor.serveRequest Supervisor.applyRestart
      simp only
      cases hr : s.resolve target with
      | error e => exact h.reply stream _
      | ok names =>
        cases target with
        | none => exact h.restartNext stream names []
        | some name => exact h.restartNamed stream hg (resolve_named hr)
    | reload => exact (h.reload T io).reply stream _
    | log target follow =>
      unfold Supervisor.serveRequest Supervisor.serveLog
      simp only
      split
      · exact h.reply stream _
      · split
        · exact h.congr rfl rfl rfl rfl fun _ => rfl
        · exact h.reply stream _

/-! ## The other events -/

/-- The report of a child's exit: its unit has no child any more. -/
theorem Tracked.childExited {summary : String} (h : Tracked s) (hr : (name, pid) ∈ s.reports) :
    Tracked ((s.received (.childExited name pid summary)).childExited T io name pid summary) := by
  have hp : s.pidOf name = some pid := h.child _ (List.mem_append_right _ hr)
  obtain ⟨rt, hrt, hpid⟩ := Option.bind_eq_some_iff.1 hp
  have hperm : (s.alive ++ s.reports).Perm ((name, pid) :: (s.alive ++ s.reports.erase (name, pid))) :=
    ((List.perm_cons_erase hr).append_left s.alive).trans List.perm_middle
  have hsingle : (((name, pid) :: (s.alive ++ s.reports.erase (name, pid))).map Prod.fst).Nodup :=
    ((hperm.map Prod.fst).nodup_iff).1 h.single
  rw [List.map_cons, List.nodup_cons] at hsingle
  have heq : (s.received (.childExited name pid summary)).childExited T io name pid summary =
      (({ s with reports := s.reports.erase (name, pid) } : Supervisor).act (.reaped name)).modify name
        (.exited T io s.shuttingDown summary) := by
    unfold Supervisor.childExited Supervisor.received
    simp [hrt, hpid]
  have hpids : ∀ n, ((s.received (.childExited name pid summary)).childExited T io name pid summary).pidOf n =
      if n = name then none else s.pidOf n := by
    intro n
    rw [heq, pidOf, modify_units]
    by_cases hn : n = name
    · rw [if_pos hn, if_pos hn, hn]
      refine (congrArg (Option.bind · Runtime.pid) (congrArg (Option.map _) hrt)).trans ?_
      exact Runtime.pid_of_down (Runtime.exited_state _ _ _)
    · rw [if_neg hn, if_neg hn]
      rfl
  refine ⟨?_, ?_, ?_, fun n => ?_, fun c hc => ?_, ?_⟩
  · rw [heq]
    exact Ledger.lawful_concat.2 ⟨h.lawful, trivial⟩
  · rw [heq]
    exact (congrArg Ledger.shutdown (ledger_concat s.acts _)).trans h.shutdown
  · rw [heq]
    exact (congrArg Ledger.live (ledger_concat s.acts _)).trans h.live
  · rw [hpids]
    rw [heq]
    refine (congrFun (congrArg Ledger.current (ledger_concat s.acts _)) n).trans ?_
    simp only [Ledger.after, h.current]
  · rw [heq] at hc
    rw [hpids, if_neg]
    · exact h.child c (hperm.mem_iff.2 (List.mem_cons_of_mem _ hc))
    · rintro rfl
      exact hsingle.1 (List.mem_map.2 ⟨c, hc, rfl⟩)
  · rw [heq]
    exact hsingle.2

theorem Tracked.beginShutdown (signal : Nat) (h : Tracked s) : Tracked (s.beginShutdown T io signal) := by
  unfold Supervisor.beginShutdown
  split
  · exact h
  · refine List.foldlRecOn (motive := Tracked) _ _ ?_ fun s hs name _ => hs.stop T io name
    exact
      { lawful := Ledger.lawful_concat.2 ⟨h.lawful, trivial⟩
        shutdown := congrArg Ledger.shutdown (ledger_concat s.acts _)
        live := (congrArg Ledger.live (ledger_concat s.acts _)).trans h.live
        current := fun n => (congrFun (congrArg Ledger.current (ledger_concat s.acts _)) n).trans (h.current n)
        child := h.child
        single := h.single }

theorem Tracked.resume {call : Call} {rest : List Call} (h : Tracked s) (hg : Good Idle s) (hc : s.calls = call :: rest)
    (hok : ∀ name rt, call.restarting = some name → s.units[name]? = some rt → rt.state = .down →
      Registered (s.view name) rt) : Tracked ({ s with calls := rest }.resume T io (s.done call) call) := by
  have hpop : Tracked { s with calls := rest } := h.congr rfl rfl rfl rfl fun _ => rfl
  have hsoon : ∀ rt : Runtime, rt.state = .down →
      rt.startSoon T io = { rt with backoff := T.initialBackoff, nextStart := some io.now } := fun rt hdown => by
    simp [Runtime.startSoon, Runtime.isRunning_of_down hdown]
  cases call with
  | restart stream name deadline =>
    unfold Supervisor.resume
    by_cases hd : s.done (.restart stream name deadline) = true
    · simp only [hd, if_true]
      exact hpop.restartNow stream (hg.wakeUnit (idle_closed T) hc rfl hd hsoon fun rt => hok name rt rfl)
    · simp only [hd, Bool.false_eq_true, if_false]
      exact hpop.reply stream _
  | restartAll stream name names notes deadline =>
    unfold Supervisor.resume
    by_cases hd : s.done (.restartAll stream name names notes deadline) = true
    · simp only [hd, if_true]
      have hwoken := hg.wakeUnit (idle_closed T) hc rfl hd (fun rt (_ : rt.state = .down) => (rfl : _ = { rt with
        backoff := T.initialBackoff, nextStart := some io.now })) fun rt => hok name rt rfl
      have hmod : Tracked ({ s with calls := rest }.modify name fun rt =>
          { rt with backoff := T.initialBackoff, nextStart := some io.now }) := hpop.modify fun rt _ => rfl
      exact (hmod.tick hwoken).checkHealthz stream name _ names notes _
    · simp only [hd, Bool.false_eq_true, if_false]
      exact hpop.reply stream _
  | healthz stream name listen names notes timeout deadline =>
    exact hpop.checkHealthz stream name listen names notes timeout

/-! ## Steps -/

theorem Tracked.dies (h : Tracked s) (hc : (name, pid) ∈ s.alive) :
    Tracked ({ s with alive := s.alive.erase (name, pid), reports := s.reports ++ [(name, pid)] }.act (.died name pid)) := by
  have hperm : (s.alive.erase (name, pid) ++ (s.reports ++ [(name, pid)])).Perm (s.alive ++ s.reports) := by
    rw [← List.append_assoc]
    exact (List.perm_append_singleton _ _).trans (((List.perm_cons_erase hc).symm).append_right s.reports)
  exact
    { lawful := Ledger.lawful_concat.2 ⟨h.lawful, trivial⟩
      shutdown := (congrArg Ledger.shutdown (ledger_concat s.acts _)).trans h.shutdown
      live := (congrArg Ledger.live (ledger_concat s.acts _)).trans (congrArg (·.erase (name, pid)) h.live)
      current := fun n => (congrFun (congrArg Ledger.current (ledger_concat s.acts _)) n).trans (h.current n)
      child := fun c hc => h.child c (hperm.mem_iff.1 hc)
      single := ((hperm.map Prod.fst).nodup_iff).2 h.single }

theorem Tracked.leave (h : Tracked s) (hf : s.finished = true) : Tracked (s.act .ended) := by
  rw [finished, Bool.and_eq_true] at hf
  refine h.act ⟨h.shutdown.trans hf.1, h.live.trans ?_⟩ fun w => ⟨rfl, rfl, rfl⟩
  -- a child that lives is the one in its unit's state, and all units are down
  refine List.eq_nil_iff_forall_not_mem.2 fun c hc => ?_
  obtain ⟨rt, hrt, hpid⟩ := Option.bind_eq_some_iff.1 (h.child c (List.mem_append_left _ hc))
  have hdown := List.all_eq_true.1 hf.2 (c.1, rt) (Std.TreeMap.mem_toList_iff_getElem?_eq_some.2 hrt)
  rw [Runtime.pid_of_down (of_decide_eq_true hdown)] at hpid
  cases hpid

/-- Where a restart starts its unit again, the unit is in the registry as last read (or it is disabled, or a
shutdown has begun, and then nothing is started). -/
def RestartsRegistered (s : Supervisor) : Move → Prop
  | .wake _ => ∀ name ∈ (s.calls.head?.bind Call.restarting).toList, ∀ rt ∈ s.units[name]?.toList,
      rt.state = .down → Registered (s.view name) rt
  | _ => True

instance (s : Supervisor) : DecidablePred s.RestartsRegistered := fun m => by
  cases m <;> unfold RestartsRegistered <;> infer_instance

theorem step_tracked {m : Move} (h : Tracked s) (hg : Good Idle s) (hok : RestartsRegistered s m)
    (hstep : step T s m = some s') : Tracked s' := by
  cases m with
  | edit registry =>
    cases hstep
    exact h.congr rfl rfl rfl rfl fun _ => rfl
  | dies name pid =>
    simp only [step] at hstep
    split at hstep
    · rename_i hc
      cases hstep
      exact h.dies hc
    · cases hstep
  | take io event =>
    simp only [step] at hstep
    split at hstep
    · cases hstep
    · cases event with
      | none =>
        cases hstep
        exact h.congr rfl rfl rfl rfl fun _ => rfl
      | some e =>
        simp only at hstep
        split at hstep
        · rename_i harr
          cases hstep
          cases e with
          | request stream r => exact h.serveRequest stream r hg
          | childExited name pid summary =>
            exact (h.childExited (of_decide_eq_true harr)).congr rfl rfl rfl rfl fun _ => rfl
          | logLine name line => exact h.congr rfl rfl rfl rfl fun _ => rfl
          | signal signal => exact (h.beginShutdown signal).congr rfl rfl rfl rfl fun _ => rfl
        · cases hstep
  | tick io =>
    simp only [step] at hstep
    split at hstep
    · cases hstep
      exact (h.tick hg).congr rfl rfl rfl rfl fun _ => rfl
    · cases hstep
  | wake io =>
    simp only [step] at hstep
    split at hstep
    · cases hstep
    · rename_i call rest hc
      split at hstep
      · cases hstep
      · cases hstep
        refine h.resume hg hc fun name rt hr hrt hdown => hok name ?_ rt ?_ hdown
        · rw [hc, List.head?_cons, Option.bind_some, hr]
          exact List.mem_singleton.2 rfl
        · rw [hrt]
          exact List.mem_singleton.2 rfl
  | leave =>
    simp only [step] at hstep
    split at hstep
    · rename_i hc
      cases hstep
      exact h.leave hc.2.2.1
    · cases hstep

theorem begin_tracked (registry : Registry) : Tracked (begin T io registry) := by
  refine Tracked.reload T io ⟨trivial, rfl, rfl, fun n => ?_, by simp, by simp⟩
  simp [ledger, Ledger.empty, pidOf]

theorem tracked_reach (h : (supervisor T).Reach RestartsRegistered s) : Tracked s ∧ Good Idle s := by
  refine h.inv (fun s => Tracked s ∧ Good Idle s) ?_ ?_
  · rintro s ⟨io, registry, rfl⟩
    exact ⟨begin_tracked registry, begin_good (idle_closed T) registry⟩
  · rintro s m s' - ⟨htracked, hgood⟩ hok hstep
    refine ⟨step_tracked htracked hgood hok hstep, step_good (idle_closed T) hgood hstep ?_ ?_⟩
    · rintro io name pid summary rt rfl hr hrt -
      have hp := htracked.child _ (List.mem_append_right _ hr)
      rw [pidOf, hrt] at hp
      exact Option.isSome_of_eq_some hp
    · rintro io call rest name rt rfl hc hr hrt hdown
      refine hok name ?_ rt ?_ hdown
      · rw [hc, List.head?_cons, Option.bind_some, hr]
        exact List.mem_singleton.2 rfl
      · rw [hrt]
        exact List.mem_singleton.2 rfl

/-- What the supervisor does is allowed when it does it, and no unit has two live children. -/
theorem children_lawful (h : (supervisor T).Reach RestartsRegistered s) :
    Ledger.empty.Lawful s.acts ∧ (s.alive.map Prod.fst).Nodup := by
  obtain ⟨htracked, -⟩ := tracked_reach h
  refine ⟨htracked.lawful, htracked.single.sublist ?_⟩
  exact (List.sublist_append_left _ _).map Prod.fst

/-! ## Runs -/

/-- A person restarts the unit, and then the supervisor is told to stop. -/
theorem children_lawful_restart : ∃ s, (supervisor defaultTimings).Reach RestartsRegistered s ∧
    .spawned "web" 100 ∈ s.acts ∧ .ended ∈ s.acts ∧ Ledger.empty.Lawful s.acts ∧ (s.alive.map Prod.fst).Nodup := by
  obtain ⟨s, hreach, hspawned, hended⟩ := (oneUnit_reach RestartsRegistered).exists_run
    (startOne ++ [.take (quietIo 1) (some (.request 1 (some (.restart (some "web"))))), .dies "web" 100] ++
      turn 2 (.childExited "web" 100 "killed by signal 15") ++ [.wake (quietIo 3), .tick (quietIo 3)] ++
      turn 4 (.signal 15) ++ [.dies "web" 100] ++ turn 5 (.childExited "web" 100 "killed by signal 15") ++ [.leave])
    (p := fun s => .spawned "web" 100 ∈ s.acts ∧ .ended ∈ s.acts) (by decide +kernel)
  exact ⟨s, hreach, hspawned, hended, children_lawful hreach⟩

/-- `restart --all` starts a unit that has been removed: it goes through `units`, where a removed unit stays
while its child stops. -/
theorem restart_all_revives_removed : ¬ ∀ T s, (supervisor T).Reachable s → Ledger.empty.Lawful s.acts := by
  intro hall
  obtain ⟨s, hreach, hbad⟩ := (oneUnit_reach fun _ _ => True).exists_run
    (startOne ++ [.edit ∅] ++ turn 1 (.request 1 (some .reload)) ++ [.dies "web" 100] ++
      turn 2 (.childExited "web" 100 "killed by signal 15") ++
      [.take (quietIo 3) (some (.request 2 (some (.restart none)))), .wake (quietIo 4)])
    (p := fun s => ¬ Ledger.empty.Lawful s.acts) (by decide +kernel)
  exact hbad (hall _ s hreach)

end Supervisor

end Hyoui.WebDaemon
