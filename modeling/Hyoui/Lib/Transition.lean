import Mathlib.Data.List.Basic
/-!
# Runs of a system

A `System` moves by labelled, partial steps. `Reach ok` are the states of the runs all of whose
steps meet `ok`; what such runs keep is proved by one induction, here.
-/

namespace Hyoui.Lib

structure System (σ ι : Type) where
  init : σ → Prop
  step : σ → ι → Option σ

namespace System

variable {σ ι : Type} {S : System σ ι} {ok ok' : σ → ι → Prop}

/-- The states reached by the runs whose steps all meet `ok`. -/
inductive Reach (S : System σ ι) (ok : σ → ι → Prop) : σ → Prop
  | init {s} : S.init s → Reach S ok s
  | step {s i s'} : Reach S ok s → ok s i → S.step s i = some s' → Reach S ok s'

abbrev Reachable (S : System σ ι) : σ → Prop := S.Reach fun _ _ => True

/-- What holds at the start and is kept by every step from a reached state holds in all of them. -/
theorem Reach.inv {s : σ} (h : S.Reach ok s) (I : σ → Prop) (h0 : ∀ s, S.init s → I s)
    (hs : ∀ s i s', S.Reach ok s → I s → ok s i → S.step s i = some s' → I s') : I s := by
  induction h with
  | init hi => exact h0 _ hi
  | step hr hok hstep ih => exact hs _ _ _ hr ih hok hstep

theorem Reach.mono {s : σ} (h : S.Reach ok s) (himp : ∀ s i, ok s i → ok' s i) : S.Reach ok' s := by
  induction h with
  | init hi => exact .init hi
  | step _ hok hstep ih => exact .step ih (himp _ _ hok) hstep

/-- The run from `s` with these labels, as long as its steps meet `ok`. -/
def run (S : System σ ι) (ok : σ → ι → Prop) [∀ s i, Decidable (ok s i)] (s : σ) (labels : List ι) : Option σ :=
  labels.foldlM (fun s i => if ok s i then S.step s i else none) s

theorem Reach.run [∀ s i, Decidable (ok s i)] {s s' : σ} {labels : List ι} (h : S.Reach ok s)
    (hrun : S.run ok s labels = some s') : S.Reach ok s' := by
  induction labels generalizing s with
  | nil =>
    cases hrun
    exact h
  | cons i labels ih =>
    simp only [System.run, List.foldlM_cons, Option.bind_eq_bind, Option.bind_eq_some_iff] at hrun
    obtain ⟨s₁, hstep, hrest⟩ := hrun
    split at hstep
    · rename_i hok
      exact ih (.step h hok hstep) hrest
    · cases hstep

/-- A run on fixed labels reaches a state with a property that can be checked. -/
theorem Reach.exists_run [∀ s i, Decidable (ok s i)] {s : σ} (h : S.Reach ok s) (labels : List ι) {p : σ → Prop}
    [DecidablePred p] (hrun : (S.run ok s labels).any (decide <| p ·) = true) : ∃ s', S.Reach ok s' ∧ p s' := by
  cases hs : S.run ok s labels with
  | none =>
    rw [hs] at hrun
    cases hrun
  | some s' =>
    rw [hs] at hrun
    exact ⟨s', h.run hs, of_decide_eq_true hrun⟩

/-! ## Runs with their steps -/

/-- The runs, with the steps they took, the newest first. -/
inductive Trace (S : System σ ι) : List (σ × ι × σ) → σ → Prop
  | init {s} : S.init s → Trace S [] s
  | step {steps s i s'} : Trace S steps s → S.step s i = some s' → Trace S ((s, i, s') :: steps) s'

theorem Trace.reach {steps : List (σ × ι × σ)} {s : σ} (h : S.Trace steps s) (hok : ∀ t ∈ steps, ok t.1 t.2.1) :
    S.Reach ok s := by
  induction h with
  | init hi => exact .init hi
  | step _ hstep ih =>
    obtain ⟨hlast, hrest⟩ := List.forall_mem_cons.1 hok
    exact .step (ih hrest) hlast hstep

theorem Trace.reachable {steps : List (σ × ι × σ)} {s : σ} (h : S.Trace steps s) : S.Reachable s :=
  h.reach fun _ _ => trivial

/-- A step of a run was taken from where the steps before it led. -/
theorem Trace.split {later earlier : List (σ × ι × σ)} {t : σ × ι × σ} {s : σ}
    (h : S.Trace (later ++ t :: earlier) s) : S.Trace earlier t.1 ∧ S.step t.1 t.2.1 = some t.2.2 := by
  induction later generalizing s with
  | nil =>
    cases h with
    | step hrest hstep => exact ⟨hrest, hstep⟩
  | cons _ later ih =>
    cases h with
    | step hrest _ => exact ih hrest

/-- A reached state has a run to it, all of whose steps meet `ok`. -/
theorem Reach.trace_ok {s : σ} (h : S.Reach ok s) : ∃ steps, S.Trace steps s ∧ ∀ t ∈ steps, ok t.1 t.2.1 := by
  induction h with
  | init hi => exact ⟨[], .init hi, by simp⟩
  | step _ hok hstep ih =>
    obtain ⟨steps, hsteps, hall⟩ := ih
    exact ⟨_, hsteps.step hstep, List.forall_mem_cons.2 ⟨hok, hall⟩⟩

theorem Reach.trace {s : σ} (h : S.Reachable s) : ∃ steps, S.Trace steps s :=
  h.trace_ok.imp fun _ hsteps => hsteps.1

/-- Two properties of a step that agree from every reachable state agree on the steps of every run. -/
theorem Trace.forall_iff {P Q : σ → ι → σ → Prop}
    (hPQ : ∀ s i s', S.Reachable s → S.step s i = some s' → (P s i s' ↔ Q s i s')) {steps : List (σ × ι × σ)} {s : σ}
    (h : S.Trace steps s) : (∀ t ∈ steps, P t.1 t.2.1 t.2.2) ↔ ∀ t ∈ steps, Q t.1 t.2.1 t.2.2 := by
  induction h with
  | init _ => simp
  | step hr hstep ih => simp only [List.forall_mem_cons, ih, hPQ _ _ _ hr.reachable hstep]

/-- A property that a step keeps exactly when the step is allowed holds exactly after the runs of allowed steps. -/
theorem Trace.inv_iff {I : σ → Prop} {Q : σ → ι → Prop} (h0 : ∀ s, S.init s → I s)
    (hs : ∀ s i s', S.Reachable s → S.step s i = some s' → (I s' ↔ I s ∧ Q s i)) {steps : List (σ × ι × σ)} {s : σ}
    (h : S.Trace steps s) : I s ↔ ∀ t ∈ steps, Q t.1 t.2.1 := by
  induction h with
  | init hi => simpa using h0 _ hi
  | step hr hstep ih => rw [hs _ _ _ hr.reachable hstep, ih, List.forall_mem_cons, and_comm]

/-- Every step of a run meets `Q`, which looks at the steps taken before it. -/
def Each (Q : List (σ × ι × σ) → σ → ι → Prop) : List (σ × ι × σ) → Prop
  | [] => True
  | t :: earlier => Each Q earlier ∧ Q earlier t.1 t.2.1

/-- The same for what a step is allowed that depends on the steps before it. -/
theorem Trace.inv_iff_each {I : σ → Prop} {Q : List (σ × ι × σ) → σ → ι → Prop} (h0 : ∀ s, S.init s → I s)
    (hs : ∀ steps s i s', S.Trace steps s → S.step s i = some s' → (I s' ↔ I s ∧ Q steps s i))
    {steps : List (σ × ι × σ)} {s : σ} (h : S.Trace steps s) : I s ↔ Each Q steps := by
  induction h with
  | init hi => exact iff_of_true (h0 _ hi) trivial
  | step hr hstep ih => rw [hs _ _ _ _ hr hstep, ih, Each]

/-- A property of the steps that needs an invariant: it keeps the invariant, and where the invariant holds it is
another property. -/
theorem Trace.steps_iff {I : σ → Prop} {P Q : σ → ι → σ → Prop} (h0 : ∀ s, S.init s → I s)
    (hs : ∀ s i s', S.Reachable s → S.step s i = some s' → I s → (P s i s' ↔ Q s i s') ∧ (P s i s' → I s'))
    {steps : List (σ × ι × σ)} {s : σ} (h : S.Trace steps s) :
    (∀ t ∈ steps, P t.1 t.2.1 t.2.2) ↔ ∀ t ∈ steps, Q t.1 t.2.1 t.2.2 := by
  have hboth : ((∀ t ∈ steps, P t.1 t.2.1 t.2.2) ↔ ∀ t ∈ steps, Q t.1 t.2.1 t.2.2) ∧
      ((∀ t ∈ steps, P t.1 t.2.1 t.2.2) → I s) := by
    induction h with
    | init hi => exact ⟨by simp, fun _ => h0 _ hi⟩
    | step hr hstep ih =>
      simp only [List.forall_mem_cons]
      have hlast := fun hI => hs _ _ _ hr.reachable hstep hI
      refine ⟨⟨fun ⟨hP, hrest⟩ => ?_, fun ⟨hQ, hrest⟩ => ?_⟩, fun ⟨hP, hrest⟩ => (hlast (ih.2 hrest)).2 hP⟩
      · exact ⟨(hlast (ih.2 hrest)).1.1 hP, ih.1.1 hrest⟩
      · have hrest := ih.1.2 hrest
        exact ⟨(hlast (ih.2 hrest)).1.2 hQ, hrest⟩
  exact hboth.1

end System

end Hyoui.Lib
