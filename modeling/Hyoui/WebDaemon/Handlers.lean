import Hyoui.WebDaemon.Ledger
/-!
# What the handlers of the supervisor change

`Quiet` is what every handler but `setEnabled` and `adopt` leaves as it was. `Each` is a property of each
unit's runtime, given what is known of its name (`View`); a handler keeps it when the change it makes to
one runtime does (`Each.stop`, `Each.tick` and so on).
-/

namespace Hyoui.WebDaemon

open Hyoui.Lib

namespace Supervisor

variable {T : Timings} {io : Io} {s s' s'' : Supervisor} {name n : String} {f : Runtime → Runtime} {pid : Pid}

/-! ## Lookups -/

@[simp] theorem modify_units (s : Supervisor) (name : String) (f : Runtime → Runtime) (n : String) :
    (s.modify name f).units[n]? = if n = name then s.units[n]?.map f else s.units[n]? := by
  simp only [modify, Std.TreeMap.getElem?_modify, Std.LawfulEqCmp.compare_eq_iff_eq]
  by_cases h : name = n
  · subst h
    simp only [if_true]
  · rw [if_neg h, if_neg (Ne.symm h)]

theorem modify_units_map (s : Supervisor) (name n : String) (hf : ∀ rt, (f rt).unit = rt.unit) :
    (s.modify name f).units[n]?.map (·.unit) = s.units[n]?.map (·.unit) := by
  rw [modify_units]
  by_cases h : n = name
  · rw [if_pos h, Option.map_map]
    exact congrArg (Option.map · _) (funext hf)
  · rw [if_neg h]

@[simp] theorem modify_shuttingDown : (s.modify name f).shuttingDown = s.shuttingDown := rfl
@[simp] theorem modify_calls : (s.modify name f).calls = s.calls := rfl
@[simp] theorem modify_acts : (s.modify name f).acts = s.acts := rfl
@[simp] theorem modify_alive : (s.modify name f).alive = s.alive := rfl
@[simp] theorem modify_reports : (s.modify name f).reports = s.reports := rfl
@[simp] theorem act_units (a : Act) : (s.act a).units = s.units := rfl
@[simp] theorem act_shuttingDown (a : Act) : (s.act a).shuttingDown = s.shuttingDown := rfl
@[simp] theorem act_calls (a : Act) : (s.act a).calls = s.calls := rfl
@[simp] theorem act_alive (a : Act) : (s.act a).alive = s.alive := rfl
@[simp] theorem act_reports (a : Act) : (s.act a).reports = s.reports := rfl
@[simp] theorem act_acts (a : Act) : (s.act a).acts = s.acts ++ [a] := rfl

theorem sendSignal_cases (s : Supervisor) (name : String) (pid : Pid) (signal : Signal) :
    s.sendSignal name pid signal = s ∨ s.sendSignal name pid signal = s.act (.signalled name pid signal) := by
  unfold sendSignal
  split
  · exact .inr rfl
  · exact .inl rfl

@[simp] theorem sendSignal_units (signal : Signal) : (s.sendSignal name pid signal).units = s.units := by
  rcases sendSignal_cases s name pid signal with h | h
  · rw [h]
  · rw [h, act_units]

/-! ## What a handler leaves as it was -/

/-- The registry as last read, by name. -/
def asRead (s : Supervisor) : String → Option WebUnit := (ledger s.acts).registry

structure Still (s s' : Supervisor) : Prop where
  shuttingDown : s'.shuttingDown = s.shuttingDown
  calls : s'.calls = s.calls
  asRead : s'.asRead = s.asRead

/-- Nor does the registry entry of a unit change. -/
structure Quiet (s s' : Supervisor) : Prop extends Still s s' where
  unit : ∀ n : String, s'.units[n]?.map (·.unit) = s.units[n]?.map (·.unit)

theorem Still.refl (s : Supervisor) : Still s s := ⟨rfl, rfl, rfl⟩

theorem Still.trans (h : Still s s') (h' : Still s' s'') : Still s s'' :=
  ⟨h'.shuttingDown.trans h.shuttingDown, h'.calls.trans h.calls, h'.asRead.trans h.asRead⟩

theorem Still.foldl {α : Type} {op : Supervisor → α → Supervisor} (h : ∀ s a, Still s (op s a)) (l : List α)
    (s : Supervisor) : Still s (l.foldl op s) :=
  List.foldlRecOn l op (Still.refl s) fun s' hs a _ => hs.trans (h s' a)

theorem Quiet.refl (s : Supervisor) : Quiet s s := ⟨.refl s, fun _ => rfl⟩

theorem Quiet.trans (h : Quiet s s') (h' : Quiet s' s'') : Quiet s s'' :=
  ⟨h.toStill.trans h'.toStill, fun n => (h'.unit n).trans (h.unit n)⟩

theorem Still.modify : Still s (s.modify name f) := ⟨rfl, rfl, rfl⟩

theorem Quiet.modify (hf : ∀ rt, (f rt).unit = rt.unit) : Quiet s (s.modify name f) :=
  ⟨.modify, fun n => modify_units_map s name n hf⟩

/-- Acts that say nothing of the registry. -/
theorem Quiet.act {a : Act} (ha : ∀ w : Ledger, (w.after a).registry = w.registry) : Quiet s (s.act a) :=
  ⟨⟨rfl, rfl, by simp only [Supervisor.asRead, act_acts, ledger_concat, ha]⟩, fun _ => rfl⟩

theorem Quiet.sendSignal (signal : Signal) : Quiet s (s.sendSignal name pid signal) := by
  rcases sendSignal_cases s name pid signal with h | h <;> rw [h]
  · exact .refl s
  · exact .act fun w => rfl

theorem Quiet.foldl {α : Type} {op : Supervisor → α → Supervisor} (h : ∀ s a, Quiet s (op s a)) (l : List α)
    (s : Supervisor) : Quiet s (l.foldl op s) :=
  List.foldlRecOn l op (Quiet.refl s) fun s' hs a _ => hs.trans (h s' a)

/-! ## A property of each runtime -/

/-- What is known of a name: the registry as last read, the shutdown, and whether a restart waits for it. -/
structure View where
  unit : Option WebUnit
  shut : Bool
  awaited : Bool

/-- A restart of this unit waits for it to be down. -/
def awaited (s : Supervisor) (name : String) : Bool := s.calls.any fun c => c.restarting = some name

def view (s : Supervisor) (name : String) : View := ⟨s.asRead name, s.shuttingDown, s.awaited name⟩

theorem Still.view (h : Still s s') (name : String) : s'.view name = s.view name := by
  simp only [Supervisor.view, Supervisor.awaited, h.shuttingDown, h.calls, h.asRead]

def Each (P : View → Runtime → Prop) (s : Supervisor) : Prop :=
  ∀ (name : String) (rt : Runtime), s.units[name]? = some rt → P (s.view name) rt

variable {P : View → Runtime → Prop}

/-- For all other names nothing changes. -/
def Elsewhere (name : String) (s s' : Supervisor) : Prop :=
  ∀ n, n ≠ name → s'.units[n]? = s.units[n]? ∧ s'.view n = s.view n

theorem Elsewhere.trans (h : Elsewhere name s s') (h' : Elsewhere name s' s'') : Elsewhere name s s'' :=
  fun n hn => ⟨(h' n hn).1.trans (h n hn).1, (h' n hn).2.trans (h n hn).2⟩

theorem Elsewhere.modify : Elsewhere name s (s.modify name f) :=
  fun n hn => ⟨by rw [modify_units, if_neg hn], Still.modify.view n⟩

/-- What changes one unit only keeps a property of each when that unit has it afterwards. -/
theorem Each.at (h : Each P s) (he : Elsewhere name s s')
    (hP : ∀ rt, s'.units[name]? = some rt → P (s'.view name) rt) : Each P s' := by
  intro n rt hn
  by_cases hnn : n = name
  · subst hnn
    exact hP rt hn
  · obtain ⟨hu, hv⟩ := he n hnn
    rw [hu] at hn
    rw [hv]
    exact h n rt hn

theorem Each.aside (h : Each P s) (hq : Still s s') (hu : s'.units = s.units) : Each P s' := by
  intro n rt hn
  rw [hu] at hn
  rw [hq.view]
  exact h n rt hn

theorem Each.modify (h : Each P s)
    (hP : ∀ rt, s.units[name]? = some rt → P (s.view name) rt → P (s.view name) (f rt)) : Each P (s.modify name f) := by
  refine h.at .modify fun rt' hn => ?_
  rw [modify_units, if_pos rfl, Option.map_eq_some_iff] at hn
  obtain ⟨rt, hrt, rfl⟩ := hn
  rw [Still.modify.view]
  exact hP rt hrt (h _ rt hrt)

theorem Each.foldl {α : Type} {op : Supervisor → α → Supervisor} (hop : ∀ s a, Each P s → Each P (op s a)) (l : List α)
    (h : Each P s) : Each P (l.foldl op s) :=
  List.foldlRecOn l op h fun s' hs a _ => hop s' a hs

/-! ## The handlers, one by one -/

end Supervisor

namespace Runtime

variable {T : Timings} {io : Io} (rt : Runtime)

@[simp] theorem stop_unit : (stop T io rt).unit = rt.unit := by
  unfold stop
  split <;> rfl

@[simp] theorem stop_nextStart : (stop T io rt).nextStart = none := by
  unfold stop
  split <;> rfl

@[simp] theorem stop_isRunning : (stop T io rt).isRunning = false := by
  cases hs : rt.state <;> simp [stop, hs, isRunning]

@[simp] theorem stop_pid : (stop T io rt).pid = rt.pid := by
  cases hs : rt.state <;> simp [stop, hs, pid]

@[simp] theorem startFailed_unit (e : String) : (startFailed T io e rt).unit = rt.unit := rfl
@[simp] theorem started_unit (pid : Pid) : (started io pid rt).unit = rt.unit := rfl
@[simp] theorem kill_unit (pid : Pid) : (kill T io pid rt).unit = rt.unit := rfl

@[simp] theorem exited_unit (shut : Bool) (summary : String) : (exited T io shut summary rt).unit = rt.unit := by
  unfold exited
  split <;> rfl

@[simp] theorem exited_state (shut : Bool) (summary : String) : (exited T io shut summary rt).state = .down := by
  unfold exited
  split <;> rfl

theorem isRunning_of_down {rt : Runtime} (h : rt.state = .down) : rt.isRunning = false := by
  simp [isRunning, h]

theorem pid_of_down {rt : Runtime} (h : rt.state = .down) : rt.pid = none := by
  simp [pid, h]

end Runtime

namespace Supervisor

variable {T : Timings} {io : Io} {s s' s'' : Supervisor} {name n : String} {pid : Pid} {P : View → Runtime → Prop}

/-- `stop` is one change of the runtime, and a SIGTERM for a running child. -/
theorem stop_cases (T : Timings) (io : Io) (s : Supervisor) (name : String) :
    (s.units[name]? = none ∧ s.stop T io name = s) ∨
      ∃ rt, s.units[name]? = some rt ∧
        (s.stop T io name = s.modify name (.stop T io) ∨
          ∃ pid, rt.pid = some pid ∧ s.stop T io name = (s.modify name (.stop T io)).sendSignal name pid .term) := by
  cases hrt : s.units[name]? with
  | none => exact .inl ⟨rfl, by simp only [stop, hrt]⟩
  | some rt =>
    refine .inr ⟨rt, rfl, ?_⟩
    cases hs : rt.state with
    | running pid startedAt => exact .inr ⟨pid, by simp only [Runtime.pid, hs], by simp only [stop, hrt, hs]⟩
    | down => exact .inl (by simp only [stop, hrt, hs])
    | stopping pid deadline killed => exact .inl (by simp only [stop, hrt, hs])

theorem stop_units (T : Timings) (io : Io) (s : Supervisor) (name n : String) :
    (s.stop T io name).units[n]? = if n = name then s.units[n]?.map (.stop T io) else s.units[n]? := by
  rcases stop_cases T io s name with ⟨hnone, h⟩ | ⟨rt, -, h | ⟨pid, -, h⟩⟩
  · rw [h]
    by_cases hn : n = name
    · subst hn
      rw [if_pos rfl, hnone, Option.map_none]
    · rw [if_neg hn]
  · rw [h, modify_units]
  · rw [h, sendSignal_units, modify_units]

theorem Quiet.stop (T : Timings) (io : Io) (s : Supervisor) (name : String) : Quiet s (s.stop T io name) := by
  have hmod : Quiet s (s.modify name (.stop T io)) := .modify Runtime.stop_unit
  rcases stop_cases T io s name with ⟨-, h⟩ | ⟨rt, -, h | ⟨pid, -, h⟩⟩
  · rw [h]
    exact .refl s
  · rw [h]
    exact hmod
  · rw [h]
    exact hmod.trans (.sendSignal .term)

theorem Each.stop (h : Each P s)
    (hP : ∀ rt, s.units[name]? = some rt → P (s.view name) rt → P (s.view name) (rt.stop T io)) :
    Each P (s.stop T io name) := by
  have hmod := h.modify hP
  rcases stop_cases T io s name with ⟨-, hs⟩ | ⟨rt, -, hs | ⟨pid, -, hs⟩⟩
  · rw [hs]
    exact h
  · rw [hs]
    exact hmod
  · rw [hs]
    exact hmod.aside (Quiet.sendSignal .term).toStill (sendSignal_units .term)

/-! ### `tick` -/

/-- What `tick` makes of one runtime: the grace of a stopping child is over, or a child that is due is
started, or cannot be. -/
inductive Ticked (T : Timings) (io : Io) (shut : Bool) (rt : Runtime) : Runtime → Prop
  | kill {pid : Pid} (hpid : rt.pid = some pid) (hs : rt.wasStopping = true) : Ticked T io shut rt (rt.kill T io pid)
  | failed (e : String) (hs : rt.state = .down) (hshut : shut = false) (he : rt.unit.enabled = true)
      (hn : rt.nextStart.isSome) : Ticked T io shut rt (rt.startFailed T io e)
  | started (pid : Pid) (hs : rt.state = .down) (hshut : shut = false) (he : rt.unit.enabled = true)
      (hn : rt.nextStart.isSome) : Ticked T io shut rt (rt.started io pid)

/-- One unit of `tick`: nothing, or one change of its runtime with the signal or the new child it takes. -/
theorem tickUnit_cases (T : Timings) (io : Io) (s : Supervisor) (name : String) :
    s.tickUnit T io name = s ∨
      ∃ rt, s.units[name]? = some rt ∧
        ((∃ pid, rt.pid = some pid ∧ rt.wasStopping = true ∧
            s.tickUnit T io name = (s.modify name (.kill T io pid)).sendSignal name pid .kill) ∨
          rt.state = .down ∧ s.shuttingDown = false ∧ rt.unit.enabled = true ∧ rt.nextStart.isSome ∧
            ((∃ e, s.tickUnit T io name = s.modify name (.startFailed T io e)) ∨
              ∃ pid, s.tickUnit T io name = (s.spawned name pid).modify name (.started io pid))) := by
  cases hrt : s.units[name]? with
  | none => exact .inl (by simp only [tickUnit, hrt])
  | some rt =>
    cases hs : rt.state with
    | running pid startedAt => exact .inl (by simp only [tickUnit, hrt, hs])
    | stopping pid deadline killed =>
      by_cases hd : deadline ≤ io.now ∧ ¬killed
      · refine .inr ⟨rt, rfl, .inl ⟨pid, by simp only [Runtime.pid, hs], by simp only [Runtime.wasStopping, hs], ?_⟩⟩
        simp only [tickUnit, hrt, hs]
        rw [if_pos hd]
      · refine .inl ?_
        simp only [tickUnit, hrt, hs]
        rw [if_neg hd]
    | down =>
      by_cases hd : (!s.shuttingDown && rt.unit.enabled && rt.nextStart.any (· ≤ io.now)) = true
      · refine .inr ⟨rt, rfl, .inr ?_⟩
        simp only [tickUnit, hrt, hs, hd, if_true, start, Runtime.isRunning, Bool.false_eq_true, if_false]
        simp only [Bool.and_eq_true, Bool.not_eq_true'] at hd
        refine ⟨trivial, hd.1.1, hd.1.2, ?_, ?_⟩
        · cases hn : rt.nextStart with
          | none =>
            rw [hn] at hd
            exact absurd hd.2 (by simp)
          | some at' => rfl
        · cases io.spawn name with
          | error e => exact .inl ⟨e, rfl⟩
          | ok pid => exact .inr ⟨pid, rfl⟩
      · refine .inl ?_
        simp only [tickUnit, hrt, hs]
        rw [if_neg hd]

theorem Quiet.spawned : Quiet s (s.spawned name pid) :=
  ⟨⟨rfl, rfl, by simp [Supervisor.asRead, Supervisor.spawned, Ledger.after]⟩, fun _ => rfl⟩

theorem Quiet.tickUnit (T : Timings) (io : Io) (s : Supervisor) (name : String) : Quiet s (s.tickUnit T io name) := by
  rcases tickUnit_cases T io s name with h | ⟨rt, -, ⟨pid, -, -, h⟩ | ⟨-, -, -, -, ⟨e, h⟩ | ⟨pid, h⟩⟩⟩
  · rw [h]
    exact .refl s
  · rw [h]
    exact Quiet.trans (.modify (Runtime.kill_unit · pid)) (.sendSignal .kill)
  · rw [h]
    exact .modify (Runtime.startFailed_unit · e)
  · rw [h]
    exact Quiet.trans .spawned (.modify (Runtime.started_unit · pid))

theorem Quiet.tick (T : Timings) (io : Io) (s : Supervisor) : Quiet s (s.tick T io) :=
  .foldl (fun s name => .tickUnit T io s name) _ s

theorem Each.tickUnit (h : Each P s) (hP : ∀ rt rt', s.units[name]? = some rt → Ticked T io s.shuttingDown rt rt' →
    P (s.view name) rt → P (s.view name) rt') : Each P (s.tickUnit T io name) := by
  rcases tickUnit_cases T io s name with ht | ⟨rt, hrt, ⟨pid, hpid, hs, ht⟩ | ⟨hs, hshut, he, hn, ⟨e, ht⟩ | ⟨pid, ht⟩⟩⟩
  · rw [ht]
    exact h
  · rw [ht]
    refine (h.modify fun rt' hrt' hp => ?_).aside (Quiet.sendSignal .kill).toStill (sendSignal_units .kill)
    obtain rfl : rt = rt' := Option.some.inj (hrt.symm.trans hrt')
    exact hP rt _ hrt (.kill hpid hs) hp
  · rw [ht]
    refine h.modify fun rt' hrt' hp => ?_
    obtain rfl : rt = rt' := Option.some.inj (hrt.symm.trans hrt')
    exact hP rt _ hrt (.failed e hs hshut he hn) hp
  · rw [ht]
    refine (h.aside Quiet.spawned.toStill rfl).modify fun rt' hrt' hp => ?_
    obtain rfl : rt = rt' := Option.some.inj (hrt.symm.trans hrt')
    rw [Quiet.spawned.toStill.view] at hp ⊢
    exact hP rt _ hrt (.started pid hs hshut he hn) hp

/-- `tick` keeps what each change it makes keeps. -/
theorem Each.tick (h : Each P s) (hP : ∀ (v : View) rt rt', Ticked T io v.shut rt rt' → P v rt → P v rt') :
    Each P (s.tick T io) :=
  h.foldl (fun s name hs => hs.tickUnit fun rt rt' _ ht hp => hP (s.view name) rt rt' ht hp) _

/-! ### `set_enabled` -/

theorem setEnabled_ok {enabled : Bool} (h : s.setEnabled io name enabled = .ok s') :
    ∃ u registry, u.enabled = enabled ∧
      s' = ({ s with registry }.act (.recorded name u)).modify name fun rt => { rt with unit := u } := by
  unfold setEnabled at h
  split at h
  · rename_i u registry hr
    cases h
    exact ⟨u, registry, Registry.setEnabled_enabled hr, rfl⟩
  · cases h

/-- What a recorded `enabled` leaves: the unit is registered with it, and its state is as it was. -/
theorem setEnabled_spec {enabled : Bool} (h : s.setEnabled io name enabled = .ok s') :
    Elsewhere name s s' ∧ s'.shuttingDown = s.shuttingDown ∧ s'.calls = s.calls ∧
      ∃ u, u.enabled = enabled ∧ s'.asRead name = some u ∧
        s'.units[name]? = s.units[name]?.map fun rt => { rt with unit := u } := by
  obtain ⟨u, registry, hu, rfl⟩ := setEnabled_ok h
  refine ⟨fun n hn => ⟨?_, ?_⟩, rfl, rfl, u, hu, ?_, ?_⟩
  · rw [modify_units, if_neg hn]
    rfl
  · simp [view, asRead, awaited, Ledger.after, hn]
  · simp [asRead, Ledger.after]
  · rw [modify_units, if_pos rfl]
    rfl

/-! ### `reload` -/

theorem removeDown_cases (s : Supervisor) (name : String) :
    s.removeDown name = s ∨ s.removeDown name = { s with units := s.units.erase name } := by
  unfold removeDown
  split
  · split
    · exact .inr rfl
    · exact .inl rfl
  · exact .inl rfl

theorem dropUnit_units (T : Timings) (io : Io) (s : Supervisor) (name n : String) {rt : Runtime}
    (h : (s.dropUnit T io name).units[n]? = some rt) :
    (n ≠ name ∧ s.units[n]? = some rt) ∨ (n = name ∧ ∃ rt₀, s.units[n]? = some rt₀ ∧ rt = rt₀.stop T io) := by
  have hleft : (s.stop T io name).units[n]? = some rt := by
    unfold dropUnit at h
    rcases removeDown_cases (s.stop T io name) name with he | he
    · rwa [he] at h
    · rw [he, Std.TreeMap.getElem?_erase] at h
      split at h
      · cases h
      · exact h
  rw [stop_units] at hleft
  by_cases hn : n = name
  · rw [if_pos hn, Option.map_eq_some_iff] at hleft
    obtain ⟨rt₀, hrt₀, rfl⟩ := hleft
    exact .inr ⟨hn, rt₀, hrt₀, rfl⟩
  · rw [if_neg hn] at hleft
    exact .inl ⟨hn, hleft⟩

theorem Still.dropUnit (T : Timings) (io : Io) (s : Supervisor) (name : String) : Still s (s.dropUnit T io name) := by
  have hstop := (Quiet.stop T io s name).toStill
  unfold Supervisor.dropUnit
  rcases removeDown_cases (s.stop T io name) name with h | h
  · rw [h]
    exact hstop
  · rw [h]
    exact hstop.trans ⟨rfl, rfl, rfl⟩

/-- The unit neither runs nor is going to be started. -/
def Settled (rt : Runtime) : Prop := rt.isRunning = false ∧ rt.nextStart = none

/-- After the units that have gone from the registry are dropped, those that are left of them are settled. -/
theorem dropAll_settled {gone : String → Prop} {names : List String}
    (h : ∀ n rt, s.units[n]? = some rt → gone n → n ∈ names ∨ Settled rt) {rt : Runtime}
    (hrt : (names.foldl (dropUnit T io) s).units[n]? = some rt) (hn : gone n) : Settled rt := by
  induction names generalizing s with
  | nil => exact (h n rt hrt hn).resolve_left (by simp)
  | cons m names ih =>
    refine ih (s := s.dropUnit T io m) (fun k rt hk hgone => ?_) hrt
    rcases dropUnit_units T io s m k hk with ⟨hkm, hk⟩ | ⟨-, rt₀, -, rfl⟩
    · rcases h k rt hk hgone with hmem | hset
      · exact .inl ((List.mem_cons.1 hmem).resolve_left hkm)
      · exact .inr hset
    · exact .inr ⟨rt₀.stop_isRunning, rt₀.stop_nextStart⟩

/-- The unit has the entry just read, and is due if it is to run and is down. -/
def Adopted (shut : Bool) (u : WebUnit) (rt : Runtime) : Prop :=
  rt.unit = u ∧ (shut = false → u.enabled = true → rt.state = .down → rt.nextStart.isSome)

theorem setEntry_spec (T : Timings) (s : Supervisor) (name : String) (unit : WebUnit) :
    Still s (s.setEntry T name unit) ∧ (∀ n, n ≠ name → (s.setEntry T name unit).units[n]? = s.units[n]?) ∧
      ∃ rt, (s.setEntry T name unit).units[name]? = some rt ∧ rt.unit = unit := by
  cases hrt : s.units[name]? with
  | some rt =>
    simp only [setEntry, hrt]
    refine ⟨.modify, fun n hn => by rw [modify_units, if_neg hn], { rt with unit }, ?_, rfl⟩
    rw [modify_units, if_pos rfl, hrt]
    rfl
  | none =>
    simp only [setEntry, hrt]
    refine ⟨⟨rfl, rfl, rfl⟩, fun n hn => ?_, .new unit T.initialBackoff, ?_, rfl⟩
    · rw [Std.TreeMap.getElem?_insert, if_neg]
      rw [Std.LawfulEqCmp.compare_eq_iff_eq]
      exact Ne.symm hn
    · rw [Std.TreeMap.getElem?_insert_self]

theorem settleUnit_spec (T : Timings) (io : Io) {rt : Runtime} (hrt : s.units[name]? = some rt) :
    Still s (s.settleUnit T io name rt.unit) ∧
      (∀ n, n ≠ name → (s.settleUnit T io name rt.unit).units[n]? = s.units[n]?) ∧
      ∃ rt', (s.settleUnit T io name rt.unit).units[name]? = some rt' ∧ Adopted s.shuttingDown rt.unit rt' := by
  unfold settleUnit
  simp only [hrt, Option.any_some]
  by_cases hshut : s.shuttingDown = true
  · rw [if_pos hshut]
    refine ⟨.refl s, fun _ _ => rfl, rt, hrt, rfl, fun h => ?_⟩
    rw [h] at hshut
    cases hshut
  rw [if_neg hshut]
  by_cases hdue : (rt.unit.enabled && !rt.isRunning) = true
  · rw [if_pos hdue]
    refine ⟨.modify, fun n hn => by rw [modify_units, if_neg hn],
      { rt with nextStart := rt.nextStart.or (some io.now) }, ?_, rfl, fun _ _ _ => ?_⟩
    · rw [modify_units, if_pos rfl, hrt]
      rfl
    · cases rt.nextStart <;> rfl
  rw [if_neg hdue]
  by_cases hstop : (!rt.unit.enabled && rt.isRunning) = true
  · rw [if_pos hstop]
    refine ⟨(Quiet.stop T io s name).toStill, fun n hn => by rw [stop_units, if_neg hn], rt.stop T io, ?_,
      rt.stop_unit, fun _ he => ?_⟩
    · rw [stop_units, if_pos rfl, hrt]
      rfl
    · simp [he] at hstop
  · rw [if_neg hstop]
    refine ⟨.refl s, fun _ _ => rfl, rt, hrt, rfl, fun _ he hdown => ?_⟩
    simp [he, Runtime.isRunning_of_down hdown] at hdue

theorem adoptUnit_spec (T : Timings) (io : Io) (s : Supervisor) (p : String × WebUnit) :
    Still s (s.adoptUnit T io p) ∧ (∀ n, n ≠ p.1 → (s.adoptUnit T io p).units[n]? = s.units[n]?) ∧
      ∃ rt, (s.adoptUnit T io p).units[p.1]? = some rt ∧ Adopted s.shuttingDown p.2 rt := by
  obtain ⟨hstill, helse, rt, hrt, hunit⟩ := setEntry_spec T s p.1 p.2
  obtain ⟨hstill', helse', rt', hrt', had⟩ := settleUnit_spec T io hrt
  rw [hunit] at hstill' helse' hrt' had
  rw [hstill.shuttingDown] at had
  exact ⟨hstill.trans hstill', fun n hn => (helse' n hn).trans (helse n hn), rt', hrt', had⟩

theorem adoptAll_spec {listed : List (String × WebUnit)} (hnd : (listed.map Prod.fst).Nodup) (s : Supervisor) :
    (∀ n, n ∉ listed.map Prod.fst → (listed.foldl (adoptUnit T io) s).units[n]? = s.units[n]?) ∧
      ∀ p ∈ listed, ∃ rt, (listed.foldl (adoptUnit T io) s).units[p.1]? = some rt ∧ Adopted s.shuttingDown p.2 rt := by
  induction listed generalizing s with
  | nil => exact ⟨fun _ _ => rfl, by simp⟩
  | cons p listed ih =>
    rw [List.map_cons, List.nodup_cons] at hnd
    obtain ⟨hstill, helse, rt, hrt, had⟩ := adoptUnit_spec T io s p
    obtain ⟨ihelse, ihmem⟩ := ih hnd.2 (s.adoptUnit T io p)
    rw [List.foldl_cons]
    refine ⟨fun n hn => ?_, fun q hq => ?_⟩
    · rw [List.map_cons, List.mem_cons, not_or] at hn
      rw [ihelse n hn.2, helse n hn.1]
    · rcases List.mem_cons.1 hq with rfl | hq
      · exact ⟨rt, by rw [ihelse _ hnd.1, hrt], had⟩
      · rw [← hstill.shuttingDown]
        exact ihmem q hq

/-- What `reload` leaves of a listing: the units listed are those of the registry as last read, with their
entries, and due where they should run; the others that are still there are settled. -/
theorem adopt_spec {listed : List (String × WebUnit)} (hnd : (listed.map Prod.fst).Nodup) (s : Supervisor) :
    (s.adopt T io listed).shuttingDown = s.shuttingDown ∧ (s.adopt T io listed).calls = s.calls ∧
      (∀ n rt, (s.adopt T io listed).units[n]? = some rt → (s.adopt T io listed).asRead n = none → Settled rt) ∧
      ∀ n u, (s.adopt T io listed).asRead n = some u →
        ∃ rt, (s.adopt T io listed).units[n]? = some rt ∧ Adopted s.shuttingDown u rt := by
  have hdrop : Still (s.act (.listed listed)) (((s.units.keys.filter fun name => name ∉ listed.map Prod.fst).foldl
      (dropUnit T io) (s.act (.listed listed)))) := .foldl (fun s n => .dropUnit T io s n) _ _
  have hall : Still (s.act (.listed listed)) (s.adopt T io listed) :=
    hdrop.trans (.foldl (fun s p => (adoptUnit_spec T io s p).1) _ _)
  have hread : (s.adopt T io listed).asRead = fun n => (listed.find? (·.1 = n)).map (·.2) := by
    rw [hall.asRead]
    simp [asRead, Ledger.after]
  obtain ⟨helse, hmem⟩ := adoptAll_spec (T := T) hnd
    ((s.units.keys.filter fun name => name ∉ listed.map Prod.fst).foldl (dropUnit T io) (s.act (.listed listed)))
  refine ⟨hall.shuttingDown, hall.calls, fun n rt hrt hnone => ?_, fun n u hu => ?_⟩
  · have hn : n ∉ listed.map Prod.fst := by
      rw [hread, Option.map_eq_none_iff, List.find?_eq_none] at hnone
      intro hmem
      obtain ⟨p, hp, rfl⟩ := List.mem_map.1 hmem
      exact hnone p hp (decide_eq_true rfl)
    refine dropAll_settled (fun k rt hk (hgone : k ∉ listed.map Prod.fst) => .inl ?_) ((helse n hn).symm.trans hrt) hn
    refine List.mem_filter.2 ⟨?_, by simpa using hgone⟩
    rw [Std.TreeMap.mem_keys, Std.TreeMap.mem_iff_isSome_getElem?]
    exact Option.isSome_of_eq_some hk
  · rw [hread] at hu
    obtain ⟨p, hp, rfl⟩ := Option.map_eq_some_iff.1 hu
    obtain ⟨rt, hrt, had⟩ := hmem p (List.mem_of_find?_eq_some hp)
    have hpn : p.1 = n := by simpa using List.find?_some hp
    rw [hdrop.shuttingDown] at had
    exact ⟨rt, hpn ▸ hrt, had⟩

end Supervisor

end Hyoui.WebDaemon
