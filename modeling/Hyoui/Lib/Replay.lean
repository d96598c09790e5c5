import Mathlib.Data.List.Basic
/-!
# Replaying a log

A machine that reads a log entry by entry, and refuses an entry that cannot be. `Retells` says
that what a system wrote to its log between two states takes the machine from any account `R` of the
first to an account of the second; it composes along a run (`Retells.trans`), so a system whose steps
retell themselves writes a log the machine reads to the end (`Retells.read`). What the machine keeps then says
which entries come before which (`replay_at`, `Since`).
-/

namespace Hyoui.Lib

section Replay

variable {β α : Type} (step : β → α → Option β)

def replay (b : β) (entries : List α) : Option β := entries.foldlM step b

@[simp] theorem replay_nil (b : β) : replay step b [] = some b := rfl

theorem replay_cons (b : β) (e : α) (entries : List α) :
    replay step b (e :: entries) = (step b e).bind fun b' => replay step b' entries := rfl

@[simp] theorem replay_single (b : β) (e : α) : replay step b [e] = step b e := by
  cases h : step b e <;> simp [replay_cons, h]

theorem replay_append (b : β) (entries more : List α) :
    replay step b (entries ++ more) = (replay step b entries).bind fun b' => replay step b' more := by
  induction entries generalizing b with
  | nil => rfl
  | cons e entries ih =>
    rw [List.cons_append, replay_cons, replay_cons, Option.bind_assoc]
    exact congrArg _ (funext fun b' => ih b')

variable {step} {b b' : β} {e : α} {entries later : List α}

/-- What every entry keeps, of the log so far and of the account, holds at the end. -/
theorem replay_kept (I : List α → β → Prop)
    (hstep : ∀ read b e b', I read b → step b e = some b' → I (read ++ [e]) b')
    (h : replay step b entries = some b') (hb : I [] b) : I entries b' := by
  have key : ∀ (entries read : List α) (b : β), I read b → replay step b entries = some b' → I (read ++ entries) b' := by
    intro entries
    induction entries with
    | nil =>
      intro read b hb h
      rw [List.append_nil]
      exact Option.some.inj h ▸ hb
    | cons e entries ih =>
      intro read b hb h
      rw [replay_cons, Option.bind_eq_some_iff] at h
      obtain ⟨b₁, hb₁, h⟩ := h
      rw [List.append_cons]
      exact ih _ b₁ (hstep read b e b₁ hb hb₁) h
  exact key entries [] b hb h

/-- The account an entry of a log found, and what was kept up to it. -/
theorem replay_at (I : List α → β → Prop)
    (hstep : ∀ read b e b', I read b → step b e = some b' → I (read ++ [e]) b')
    (h : replay step b (entries ++ e :: later) = some b') (hb : I [] b) :
    ∃ b₁ b₂, I entries b₁ ∧ step b₁ e = some b₂ ∧ replay step b₂ later = some b' := by
  rw [replay_append, Option.bind_eq_some_iff] at h
  obtain ⟨b₁, hb₁, h⟩ := h
  rw [replay_cons, Option.bind_eq_some_iff] at h
  obtain ⟨b₂, hb₂, h⟩ := h
  exact ⟨b₁, b₂, replay_kept I hstep hb₁ hb, hb₂, h⟩

/-- What an account owes: every entry pays a part of it and adds to it, and so does the log. -/
theorem replay_balance {γ : Type} (owed : β → List γ) (due paid : α → List γ)
    (hstep : ∀ b e b', step b e = some b' → owed b ++ due e = paid e ++ owed b')
    (h : replay step b entries = some b') : owed b ++ entries.flatMap due = entries.flatMap paid ++ owed b' := by
  induction entries generalizing b with
  | nil => simpa using congrArg owed (Option.some.inj h)
  | cons e entries ih =>
    rw [replay_cons, Option.bind_eq_some_iff] at h
    obtain ⟨b₁, hb₁, h⟩ := h
    rw [List.flatMap_cons, List.flatMap_cons, ← List.append_assoc, hstep b e b₁ hb₁, List.append_assoc, ih h,
      List.append_assoc]

end Replay

section Retells

variable {β α σ : Type} (step : β → α → Option β) (log : σ → List α) (R : β → σ → Prop)

/-- From `s` to `s'` the log grew by entries that take every account of `s` to one of `s'`. -/
def Retells (s s' : σ) : Prop :=
  ∃ more, log s' = log s ++ more ∧ ∀ b, R b s → ∃ b', replay step b more = some b' ∧ R b' s'

variable {step log R} {s s' s'' : σ}

/-- Nothing was written, and nothing happened that an account tells of. -/
theorem Retells.same (hlog : log s' = log s) (h : ∀ b, R b s → R b s') : Retells step log R s s' :=
  ⟨[], by rw [hlog, List.append_nil], fun b hb => ⟨b, rfl, h b hb⟩⟩

theorem Retells.refl (s : σ) : Retells step log R s s := .same rfl fun _ h => h

theorem Retells.entry (e : α) (hlog : log s' = log s ++ [e]) (h : ∀ b, R b s → ∃ b', step b e = some b' ∧ R b' s') :
    Retells step log R s s' :=
  ⟨[e], hlog, fun b hb => by simpa using h b hb⟩

theorem Retells.trans (h : Retells step log R s s') (h' : Retells step log R s' s'') : Retells step log R s s'' := by
  obtain ⟨more, hlog, hmore⟩ := h
  obtain ⟨more', hlog', hmore'⟩ := h'
  refine ⟨more ++ more', by rw [hlog', hlog, List.append_assoc], fun b hb => ?_⟩
  obtain ⟨b₁, hb₁, hR₁⟩ := hmore b hb
  obtain ⟨b₂, hb₂, hR₂⟩ := hmore' b₁ hR₁
  exact ⟨b₂, by rw [replay_append, hb₁]; exact hb₂, hR₂⟩

/-- The log of a run that began with an empty one is read to the end. -/
theorem Retells.read (h : Retells step log R s s') (hlog : log s = []) {b : β} (hb : R b s) :
    ∃ b', replay step b (log s') = some b' ∧ R b' s' := by
  obtain ⟨more, hmore, hall⟩ := h
  rw [hmore, hlog, List.nil_append]
  exact hall b hb

end Retells

/-! ## Since -/

section Since

variable {α : Type} {P Q : α → Prop} {log : List α} {e : α}

/-- An entry with `P` was written, and only entries with `Q` since. -/
def Since (P Q : α → Prop) (log : List α) : Prop :=
  ∃ earlier e later, log = earlier ++ e :: later ∧ P e ∧ ∀ x ∈ later, Q x

theorem not_since_nil : ¬ Since P Q [] := by
  rintro ⟨earlier, e, later, h, -⟩
  cases earlier <;> cases h

theorem since_snoc : Since P Q (log ++ [e]) ↔ P e ∨ Since P Q log ∧ Q e := by
  constructor
  · rintro ⟨earlier, x, later, h, hx, hlater⟩
    rcases List.eq_nil_or_concat later with rfl | ⟨later, y, rfl⟩
    · obtain ⟨-, hxe⟩ := List.append_inj' h rfl
      exact .inl (List.head_eq_of_cons_eq hxe ▸ hx)
    · rw [List.concat_eq_append, ← List.cons_append, ← List.append_assoc] at h
      obtain ⟨hlog, hy⟩ := List.append_inj' h rfl
      have hlast : e = y := List.head_eq_of_cons_eq hy
      have hall : ∀ z ∈ later, Q z := fun z hz => hlater z (by simp [hz])
      exact .inr ⟨⟨earlier, x, later, hlog, hx, hall⟩, hlast ▸ hlater y (by simp)⟩
  · rintro (he | ⟨⟨earlier, x, later, rfl, hx, hlater⟩, he⟩)
    · exact ⟨log, e, [], rfl, he, by simp⟩
    · refine ⟨earlier, x, later ++ [e], by simp, hx, ?_⟩
      intro z hz
      rcases List.mem_append.1 hz with hz | hz
      · exact hlater z hz
      · exact List.mem_singleton.1 hz ▸ he

end Since

end Hyoui.Lib
