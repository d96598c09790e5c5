import Hyoui.Lib.Transition
import Mathlib.Logic.Function.Basic
import Mathlib.Data.List.Basic
/-!
# One work for each key

`single_flight.rs`: who asks for a key while its work is running waits for that work. A work ends in two
steps: its slot is taken off the map, and then its value is sent to those who wait.
-/

namespace Hyoui.Web

open Hyoui.Lib

/-! ## The map and the works -/

/-- A `watch` channel: the value that was sent, and whether the sender is gone. -/
structure Channel (V : Type) where
  value : Option V := none
  closed : Bool := false

/-- Where the task of a work is; a result of `none` is a panic. -/
inductive Stage (V : Type) where
  | running
  | finished (result : Option V)
  /-- The slot is taken off, with the sender that was in it. -/
  | removed (result : Option V) (tx : Option Nat)
  | done (result : Option V)

structure Task (K V : Type) where
  key : K
  stage : Stage V

/-- `SingleFlight` with the channels and tasks it has made, each known by its number. -/
structure Flight (K V : Type) where
  inflight : K → Option Nat := fun _ => none
  channels : List (Channel V) := []
  tasks : List (Task K V) := []

inductive FlightEvent (K V : Type) where
  | join (key : K)
  /-- The blocking thread of a work returns or panics. -/
  | finish (work : Nat) (result : Option V)
  | remove (work : Nat)
  | send (work : Nat)

namespace Flight
variable {K V : Type} [DecidableEq K]

/-- The channel that is waited on, and a new work where none is in flight. -/
def join (f : Flight K V) (key : K) : Nat × Flight K V :=
  match f.inflight key with
  | some tx => (tx, f)
  | none =>
    (f.channels.length,
      { inflight := Function.update f.inflight key (some f.channels.length)
        channels := f.channels ++ [{}]
        tasks := f.tasks ++ [⟨key, .running⟩] })

/-- A value goes to the channel; without one the sender is only dropped. -/
def complete (channels : List (Channel V)) (result : Option V) : Option Nat → List (Channel V)
  | none => channels
  | some tx =>
    match result with
    | some value => channels.modify tx fun _ => { value := some value, closed := true }
    | none => channels.modify tx fun c => { c with closed := true }

def step (f : Flight K V) : FlightEvent K V → Option (Flight K V)
  | .join key => some (f.join key).2
  | .finish work result =>
    match f.tasks[work]? with
    | some ⟨key, .running⟩ => some { f with tasks := f.tasks.set work ⟨key, .finished result⟩ }
    | _ => none
  | .remove work =>
    match f.tasks[work]? with
    | some ⟨key, .finished result⟩ =>
      some { f with
        inflight := Function.update f.inflight key none
        tasks := f.tasks.set work ⟨key, .removed result (f.inflight key)⟩ }
    | _ => none
  | .send work =>
    match f.tasks[work]? with
    | some ⟨key, .removed result tx⟩ =>
      some { f with
        channels := complete f.channels result tx
        tasks := f.tasks.set work ⟨key, .done result⟩ }
    | _ => none

end Flight

def flight (K V : Type) [DecidableEq K] : System (Flight K V) (FlightEvent K V) where
  init f := f = {}
  step := Flight.step

/-- `Pending::wait` when it is polled: `none` goes on waiting, an error is `Abandoned`. -/
def Flight.wait {K V : Type} (f : Flight K V) (rx : Nat) : Option (Except Unit V) :=
  match f.channels[rx]? with
  | some ⟨some value, _⟩ => some (.ok value)
  | some ⟨none, true⟩ => some (.error ())
  | _ => none

/-! ## What holds in every state -/

/-- From its start until its slot is taken off. -/
def Stage.InFlight {V : Type} : Stage V → Prop
  | .running | .finished _ => True
  | .removed .. | .done _ => False

/-- What has been sent so far. -/
def Stage.channel {V : Type} : Stage V → Channel V
  | .done result => ⟨result, true⟩
  | _ => {}

namespace Flight
variable {K V : Type}

structure Sound (f : Flight K V) : Prop where
  paired : f.channels.length = f.tasks.length
  slot : ∀ (key : K) (work : Nat),
    f.inflight key = some work ↔ ∃ stage : Stage V, f.tasks[work]? = some ⟨key, stage⟩ ∧ stage.InFlight
  held : ∀ (work : Nat) (key : K) (result : Option V) (tx : Option Nat),
    f.tasks[work]? = some ⟨key, .removed result tx⟩ → tx = some work
  sent : ∀ (work : Nat) (task : Task K V), f.tasks[work]? = some task → f.channels[work]? = some task.stage.channel

variable {f f' : Flight K V}

theorem getElem?_snoc {α : Type} (l : List α) (a : α) (i : Nat) :
    (l ++ [a])[i]? = if i = l.length then some a else l[i]? := by
  split <;> rename_i hi
  · rw [hi, List.getElem?_concat_length]
  · rcases Nat.lt_or_gt_of_ne hi with hlt | hgt
    · exact List.getElem?_append_left hlt
    · rw [List.getElem?_eq_none (by simp; omega), List.getElem?_eq_none (by omega)]

theorem getElem?_set_of {α : Type} {l : List α} {work : Nat} {a : α} (h : l[work]? = some a) (b : α) (i : Nat) :
    (l.set work b)[i]? = if i = work then some b else l[i]? := by
  rw [List.getElem?_set]
  split <;> rename_i hi
  · rw [if_pos (List.getElem?_eq_some_iff.1 h).1, if_pos hi.symm]
  · rw [if_neg (Ne.symm hi)]

theorem Sound.init : Sound ({} : Flight K V) where
  paired := rfl
  slot key work := by simp
  held := by simp
  sent := by simp

/-- A task goes on to its next stage, and the slot and the channel that are its own follow. -/
theorem Sound.set (h : Sound f) {work : Nat} {key : K} {old new : Stage V} {inflight : K → Option Nat}
    {channels : List (Channel V)} (htask : f.tasks[work]? = some ⟨key, old⟩)
    (hslot : ∀ k w, inflight k = some w ↔ if w = work then k = key ∧ new.InFlight else f.inflight k = some w)
    (hheld : ∀ result tx, new = .removed result tx → tx = some work)
    (hlen : channels.length = f.channels.length)
    (hsent : ∀ w, channels[w]? = if w = work then some new.channel else f.channels[w]?) :
    Sound { inflight, channels, tasks := f.tasks.set work ⟨key, new⟩ } where
  paired := by simp [hlen, h.paired]
  slot k w := by
    rw [hslot, getElem?_set_of htask]
    split
    · constructor
      · rintro ⟨rfl, hflight⟩
        exact ⟨new, rfl, hflight⟩
      · rintro ⟨_, ⟨⟩, hflight⟩
        exact ⟨rfl, hflight⟩
    · exact h.slot k w
  held w k result tx hw := by
    rw [getElem?_set_of htask] at hw
    split at hw <;> rename_i heq
    · cases hw
      rw [heq]
      exact hheld _ _ rfl
    · exact h.held w k result tx hw
  sent w task hw := by
    rw [getElem?_set_of htask] at hw
    rw [hsent]
    split at hw <;> rename_i heq
    · cases hw
      rw [if_pos heq]
    · rw [if_neg heq]
      exact h.sent w task hw

theorem Sound.slot_of_task (h : Sound f) {work : Nat} {key : K} {stage : Stage V}
    (htask : f.tasks[work]? = some ⟨key, stage⟩) (k : K) : f.inflight k = some work ↔ k = key ∧ stage.InFlight := by
  rw [h.slot, htask]
  constructor
  · rintro ⟨_, ⟨⟩, hflight⟩
    exact ⟨rfl, hflight⟩
  · rintro ⟨rfl, hflight⟩
    exact ⟨stage, rfl, hflight⟩

variable [DecidableEq K]

theorem Sound.join (h : Sound f) (key : K) : Sound (f.join key).2 := by
  unfold Flight.join
  split
  · exact h
  · rename_i hfree
    have hlen := h.paired
    constructor
    · simp [hlen]
    · intro k work
      simp only [hlen, getElem?_snoc]
      by_cases hk : k = key
      · subst hk
        rw [Function.update_self]
        split <;> rename_i hwork
        · simp [hwork, Stage.InFlight]
        · rw [← h.slot, hfree]
          simp [Ne.symm hwork]
      · rw [Function.update_of_ne hk, h.slot]
        split <;> rename_i hwork
        · subst hwork
          simp [Ne.symm hk]
        · rfl
    · intro work k result tx htask
      rw [getElem?_snoc] at htask
      split at htask
      · cases htask
      · exact h.held work k result tx htask
    · intro work task htask
      rw [getElem?_snoc] at htask ⊢
      rw [hlen]
      split at htask <;> rename_i hwork
      · cases htask
        rw [if_pos hwork]
        rfl
      · rw [if_neg hwork]
        exact h.sent work task htask

theorem Sound.step (h : Sound f) {e : FlightEvent K V} (hstep : f.step e = some f') : Sound f' := by
  unfold Flight.step at hstep
  split at hstep
  · cases hstep
    exact h.join _
  · rename_i work result
    split at hstep
    · rename_i key htask
      cases hstep
      refine h.set htask (fun k w => ?_) nofun rfl fun w => ?_
      · split <;> rename_i hw
        · rw [hw, h.slot_of_task htask]
          rfl
        · rfl
      · split <;> rename_i hw
        · rw [hw, h.sent work _ htask]
          rfl
        · rfl
    · cases hstep
  · rename_i work
    split at hstep
    · rename_i key result htask
      have hown : f.inflight key = some work := (h.slot_of_task htask key).2 ⟨rfl, trivial⟩
      cases hstep
      refine h.set htask (fun k w => ?_) ?_ rfl fun w => ?_
      · by_cases hk : k = key
        · rw [hk, Function.update_self]
          split <;> rename_i hw
          · simp [Stage.InFlight]
          · simp [hown, Ne.symm hw]
        · rw [Function.update_of_ne hk]
          split <;> rename_i hw
          · rw [hw, h.slot_of_task htask]
            simp [hk]
          · rfl
      · rintro _ _ ⟨⟩
        exact hown
      · split <;> rename_i hw
        · rw [hw, h.sent work _ htask]
          rfl
        · rfl
    · cases hstep
  · rename_i work
    split at hstep
    · rename_i key result tx htask
      obtain rfl := h.held work key result tx htask
      have hchannel := h.sent work _ htask
      cases hstep
      refine h.set htask (fun k w => ?_) nofun ?_ fun w => ?_
      · split <;> rename_i hw
        · rw [hw, h.slot_of_task htask]
          rfl
        · rfl
      · cases result <;> simp [complete]
      · by_cases hw : w = work
        · cases result <;> simp [complete, hw, hchannel, Stage.channel]
        · cases result <;> simp [complete, hw, Ne.symm hw]
    · cases hstep

theorem sound (h : (flight K V).Reachable f) : Sound f := by
  refine h.inv Sound ?_ fun s i s' _ ih _ hstep => ih.step hstep
  rintro _ rfl
  exact .init

/-! ## One step -/

/-- A join leads to a work that is in flight when it returns. -/
theorem Sound.joined (h : Sound f) (key : K) :
    ∃ stage : Stage V, (f.join key).2.tasks[(f.join key).1]? = some ⟨key, stage⟩ ∧ stage.InFlight := by
  rw [← (h.join key).slot]
  unfold Flight.join
  split <;> rename_i hslot
  · exact hslot
  · exact Function.update_self ..

/-- Other steps than a join take one task to its next stage, and only a removal touches the map. -/
theorem step_cases {e : FlightEvent K V} (hstep : f.step e = some f') :
    (∃ key, e = .join key ∧ f' = (f.join key).2) ∨
      ∃ (work : Nat) (key : K) (old new : Stage V),
        f.tasks[work]? = some ⟨key, old⟩ ∧ f'.tasks = f.tasks.set work ⟨key, new⟩ ∧
        (e = .remove work ∧ old.InFlight ∧ f'.inflight = Function.update f.inflight key none ∨
          (∀ w, e ≠ .remove w) ∧ f'.inflight = f.inflight) := by
  unfold Flight.step at hstep
  split at hstep
  · cases hstep
    exact .inl ⟨_, rfl, rfl⟩
  all_goals
    split at hstep
    · rename_i htask
      cases hstep
      first
        | exact .inr ⟨_, _, _, _, htask, rfl, .inl ⟨rfl, trivial, rfl⟩⟩
        | exact .inr ⟨_, _, _, _, htask, rfl, .inr ⟨nofun, rfl⟩⟩
    · cases hstep

theorem join_task {key : K} {work : Nat} {task : Task K V} (htask : f.tasks[work]? = some task) :
    (f.join key).2.tasks[work]? = some task := by
  unfold Flight.join
  split
  · exact htask
  · exact List.getElem?_append_left (List.getElem?_eq_some_iff.1 htask).1 ▸ htask

/-- Tasks stay, under their key. -/
theorem step_task {e : FlightEvent K V} (hstep : f.step e = some f') {work : Nat} {key : K} {stage : Stage V}
    (htask : f.tasks[work]? = some ⟨key, stage⟩) : ∃ stage' : Stage V, f'.tasks[work]? = some ⟨key, stage'⟩ := by
  rcases step_cases hstep with ⟨k, -, rfl⟩ | ⟨w, k, old, new, hw, htasks, -⟩
  · exact ⟨stage, join_task htask⟩
  · rw [htasks, getElem?_set_of hw]
    split <;> rename_i heq
    · subst heq
      rw [hw] at htask
      cases htask
      exact ⟨new, rfl⟩
    · exact ⟨stage, htask⟩

/-- The slot of a work is freed by a removal for its key and by nothing else. -/
theorem Sound.step_slot (h : Sound f) {e : FlightEvent K V} (hstep : f.step e = some f') {key : K} {work : Nat}
    {stage : Stage V} (htask : f.tasks[work]? = some ⟨key, stage⟩) :
    f'.inflight key = some work ↔ f.inflight key = some work ∧
      ∀ w : Nat, e = .remove w → ∀ task : Task K V, f.tasks[w]? = some task → task.key ≠ key := by
  rcases step_cases hstep with ⟨k, rfl, rfl⟩ | ⟨w, k, old, new, hw, -, ⟨rfl, -, hinflight⟩ | ⟨hother, hinflight⟩⟩
  · have hlt : work < f.channels.length := h.paired ▸ (List.getElem?_eq_some_iff.1 htask).1
    simp only [reduceCtorEq, false_implies, implies_true, and_true]
    unfold Flight.join
    split <;> rename_i hslot
    · rfl
    · dsimp only
      by_cases hk : key = k
      · subst hk
        rw [Function.update_self, hslot]
        simp only [Option.some.injEq, reduceCtorEq, iff_false]
        omega
      · rw [Function.update_of_ne hk]
  · rw [hinflight]
    by_cases hk : key = k
    · subst hk
      rw [Function.update_self]
      simp only [reduceCtorEq, false_iff, not_and]
      intro _ hfree
      exact hfree w rfl _ hw rfl
    · rw [Function.update_of_ne hk]
      refine (and_iff_left ?_).symm
      rintro _ ⟨⟩ task htask' hkey
      rw [hw] at htask'
      cases htask'
      exact hk hkey.symm
  · rw [hinflight]
    exact (and_iff_left fun w he => absurd he (hother w)).symm

theorem join_eq_iff (h : Sound f) {key : K} {work : Nat} {stage : Stage V}
    (htask : f.tasks[work]? = some ⟨key, stage⟩) : (f.join key).1 = work ↔ f.inflight key = some work := by
  have hlt : work < f.channels.length := h.paired ▸ (List.getElem?_eq_some_iff.1 htask).1
  unfold Flight.join
  split <;> rename_i hslot
  · simp [hslot]
  · simp only [hslot, reduceCtorEq, iff_false]
    omega

/-! ## Runs -/

/-- The step takes a work of the key off its slot. -/
def Frees (key : K) (t : Flight K V × FlightEvent K V × Flight K V) : Prop :=
  ∃ (work : Nat) (task : Task K V), t.2.1 = .remove work ∧ t.1.tasks[work]? = some task ∧ task.key = key

theorem trace_joined {earlier : List (Flight K V × FlightEvent K V × Flight K V)}
    {t : Flight K V × FlightEvent K V × Flight K V} (h : (flight K V).Trace (t :: earlier) f) {key : K}
    (ht : t.2.1 = .join key) : Sound t.1 ∧ f = (t.1.join key).2 := by
  cases h with
  | step hrest hstep =>
    cases ht
    exact ⟨sound hrest.reachable, (Option.some.inj hstep).symm⟩

theorem trace_task {later earlier : List (Flight K V × FlightEvent K V × Flight K V)}
    {t : Flight K V × FlightEvent K V × Flight K V} (h : (flight K V).Trace (later ++ t :: earlier) f) {key : K}
    (ht : t.2.1 = .join key) : ∃ stage : Stage V, f.tasks[(t.1.join key).1]? = some ⟨key, stage⟩ := by
  induction later generalizing f with
  | nil =>
    obtain ⟨hsound, rfl⟩ := trace_joined h ht
    obtain ⟨stage, htask, -⟩ := hsound.joined key
    exact ⟨stage, htask⟩
  | cons _ later ih =>
    cases h with
    | step hrest hstep =>
      obtain ⟨stage, htask⟩ := ih hrest
      exact step_task hstep htask

/-- The work that a join led to keeps its slot until its key is freed. -/
theorem trace_slot {later earlier : List (Flight K V × FlightEvent K V × Flight K V)}
    {t : Flight K V × FlightEvent K V × Flight K V} (h : (flight K V).Trace (later ++ t :: earlier) f) {key : K}
    (ht : t.2.1 = .join key) : f.inflight key = some (t.1.join key).1 ↔ ∀ u ∈ later, ¬Frees key u := by
  induction later generalizing f with
  | nil =>
    obtain ⟨hsound, rfl⟩ := trace_joined h ht
    simp only [List.not_mem_nil, false_implies, implies_true, iff_true]
    exact ((hsound.join key).slot key _).2 (hsound.joined key)
  | cons u later ih =>
    cases h with
    | @step _ s i _ hrest hstep =>
      obtain ⟨stage, htask⟩ := trace_task hrest ht
      rw [(sound hrest.reachable).step_slot hstep htask, ih hrest, List.forall_mem_cons, and_comm]
      refine and_congr_left fun _ => ?_
      simp only [Frees, not_exists, not_and]
      constructor
      · rintro hfree w task rfl htask' hkey
        exact hfree w rfl task htask' hkey
      · rintro hfree w rfl task htask' hkey
        exact hfree w task rfl htask' hkey

/-- However joins, ends of works, removals and sends interleave: a key has one work in flight at most; a join is
answered by a work that is in flight when it joins, with its value or, after a panic, as abandoned, as soon as that
work is done; a removal frees the slot of the work that is removed; and of two joins of a key the later one leads to
the same work exactly if the key was not freed in between. -/
theorem single_flight {steps : List (Flight K V × FlightEvent K V × Flight K V)} {s : Flight K V}
    (h : (flight K V).Trace steps s) :
    (∀ (w w' : Nat) (key : K) (stage stage' : Stage V), s.tasks[w]? = some ⟨key, stage⟩ → stage.InFlight →
      s.tasks[w']? = some ⟨key, stage'⟩ → stage'.InFlight → w = w') ∧
    (∀ t ∈ steps, ∀ key, t.2.1 = .join key →
      (∃ stage : Stage V, t.2.2.tasks[(t.1.join key).1]? = some ⟨key, stage⟩ ∧ stage.InFlight) ∧
      ∃ stage : Stage V, s.tasks[(t.1.join key).1]? = some ⟨key, stage⟩ ∧
        s.wait (t.1.join key).1 = match stage with
          | .done (some value) => some (.ok value)
          | .done none => some (.error ())
          | _ => none) ∧
    (∀ t ∈ steps, ∀ work : Nat, t.2.1 = .remove work → ∃ key : K, t.1.inflight key = some work ∧
      t.2.2.inflight = Function.update t.1.inflight key none) ∧
    ∀ (later mid earlier : List (Flight K V × FlightEvent K V × Flight K V))
      (first second : Flight K V × FlightEvent K V × Flight K V) (key : K),
      steps = later ++ second :: (mid ++ first :: earlier) → first.2.1 = .join key → second.2.1 = .join key →
      ((second.1.join key).1 = (first.1.join key).1 ↔ ∀ u ∈ mid, ¬Frees key u) := by
  have hsound := sound h.reachable
  refine ⟨?_, ?_, ?_, ?_⟩
  · intro w w' key stage stage' hw hflight hw' hflight'
    have hslot := (hsound.slot key w).2 ⟨stage, hw, hflight⟩
    have hslot' := (hsound.slot key w').2 ⟨stage', hw', hflight'⟩
    exact Option.some.inj (hslot.symm.trans hslot')
  · intro t ht key hjoin
    obtain ⟨later, earlier, rfl⟩ := List.append_of_mem ht
    obtain ⟨htrace, hstep⟩ := h.split
    obtain ⟨stage, htask⟩ := trace_task h hjoin
    refine ⟨?_, stage, htask, ?_⟩
    · rw [hjoin] at hstep
      rw [← Option.some.inj hstep]
      exact (sound htrace.reachable).joined key
    · rw [wait, hsound.sent _ _ htask]
      cases stage with
      | done result => cases result <;> rfl
      | _ => rfl
  · intro t ht work hremove
    obtain ⟨later, earlier, rfl⟩ := List.append_of_mem ht
    obtain ⟨htrace, hstep⟩ := h.split
    have hstep' : t.1.step (.remove work) = some t.2.2 := hremove ▸ hstep
    rcases step_cases hstep' with ⟨_, he, -⟩ | ⟨w, key, old, new, hw, -, ⟨he, hflight, hinflight⟩ | ⟨hother, -⟩⟩
    · cases he
    · cases he
      exact ⟨key, ((sound htrace.reachable).slot key work).2 ⟨old, hw, hflight⟩, hinflight⟩
    · exact absurd rfl (hother work)
  · rintro later mid earlier first second key rfl hfirst hsecond
    obtain ⟨htrace, -⟩ := h.split
    obtain ⟨stage, htask⟩ := trace_task htrace hfirst
    rw [join_eq_iff (sound htrace.reachable) htask, trace_slot htrace hfirst]

/-- Two joins share a work; a third one comes after its slot is free and before its value is sent. -/
theorem single_flight_shared : ∃ (steps : List (Flight Nat Nat × FlightEvent Nat Nat × Flight Nat Nat))
    (s : Flight Nat Nat), (flight Nat Nat).Trace steps s ∧ steps.map (·.2.1) =
      [.send 0, .join 1, .remove 0, .finish 0 (some 7), .join 1, .join 1] ∧
    s.wait 0 = some (.ok 7) ∧ s.wait 1 = none ∧
    ∀ (w w' : Nat) (key : Nat) (stage stage' : Stage Nat), s.tasks[w]? = some ⟨key, stage⟩ → stage.InFlight →
      s.tasks[w']? = some ⟨key, stage'⟩ → stage'.InFlight → w = w' := by
  have h₀ := @System.Trace.init _ _ (flight Nat Nat) {} rfl
  have h₁ := @System.Trace.step _ _ _ _ _ (.join 1) _ h₀ rfl
  have h₂ := @System.Trace.step _ _ _ _ _ (.join 1) _ h₁ rfl
  have h₃ := @System.Trace.step _ _ _ _ _ (.finish 0 (some 7)) _ h₂ rfl
  have h₄ := @System.Trace.step _ _ _ _ _ (.remove 0) _ h₃ rfl
  have h₅ := @System.Trace.step _ _ _ _ _ (.join 1) _ h₄ rfl
  have h₆ := @System.Trace.step _ _ _ _ _ (.send 0) _ h₅ rfl
  exact ⟨_, _, h₆, rfl, rfl, rfl, (single_flight h₆).1⟩

end Flight

end Hyoui.Web
