import Mathlib.Data.List.Basic
/-!
# Followers of a growing log

A log grows, and some of its operations emit an entry that every follower is sent. A follower that
joins late is sent the state of the log as well, and everything that is emitted after that. `Feed`
says what one follower has seen; while the log is `held`, the state may be withheld from it.
-/

namespace Hyoui.Lib

variable {α β : Type}

/-- An element of a list with one more element is the new one, or it was there before. -/
theorem snoc_eq_split {l before after : List α} {x y : α} (h : l ++ [x] = before ++ y :: after) :
    (l = before ∧ x = y ∧ after = []) ∨ ∃ after', after = after' ++ [x] ∧ l = before ++ y :: after' := by
  rcases List.eq_nil_or_concat after with rfl | ⟨after, z, rfl⟩
  · obtain ⟨hl, hx⟩ := List.append_inj' h rfl
    exact .inl ⟨hl, List.singleton_inj.1 hx, rfl⟩
  · rw [List.concat_eq_append, ← List.cons_append, ← List.append_assoc] at h
    obtain ⟨hl, hx⟩ := List.append_inj' h rfl
    exact .inr ⟨after, by rw [List.concat_eq_append, List.singleton_inj.1 hx], hl⟩

/-- What a follower is sent: the state of a log, or an entry. -/
inductive Seen (α β : Type) where
  | state (log : List α)
  | entry (b : β)
deriving DecidableEq

def Seen.isState : Seen α β → Bool
  | .state _ => true
  | .entry _ => false

/-- A follower of the log has seen this, and whether the state of the log was part of it. -/
inductive Feed (emit : α → Option β) (held : List α → Prop) : List α → List (Seen α β) → Bool → Prop
  | join (log : List α) : Feed emit held log [] false
  | state {log seen caught} : Feed emit held log seen caught → Feed emit held log (seen ++ [.state log]) true
  | emitted {log seen caught a b} : Feed emit held log seen caught → emit a = some b →
      (caught = true ∨ held log) → Feed emit held (log ++ [a]) (seen ++ [.entry b]) caught
  | silent {log seen caught a} : Feed emit held log seen caught → emit a = none →
      Feed emit held (log ++ [a]) seen caught

namespace Feed

variable {emit : α → Option β} {held : List α → Prop} {log : List α} {seen : List (Seen α β)} {caught : Bool}

/-- The state of the log, several times over. -/
theorem states (h : Feed emit held log seen caught) {more : List (Seen α β)} (hm : ∀ x ∈ more, x = .state log) :
    ∃ caught', Feed emit held log (seen ++ more) caught' ∧ (caught' = false → caught = false ∧ more = []) := by
  induction more generalizing seen caught with
  | nil => exact ⟨caught, by rwa [List.append_nil], fun hc => ⟨hc, rfl⟩⟩
  | cons x more ih =>
    obtain rfl := hm x List.mem_cons_self
    obtain ⟨caught', hfeed, hcaught⟩ := ih h.state fun y hy => hm y (List.mem_cons_of_mem _ hy)
    refine ⟨caught', ?_, fun hc => nomatch (hcaught hc).1⟩
    rwa [List.append_assoc] at hfeed

/-- A follower has caught up once it was sent a state. -/
theorem caught_iff (h : Feed emit held log seen caught) : caught = true ↔ ∃ x ∈ seen, x.isState = true := by
  induction h with
  | join => simp
  | state _ _ => simp [Seen.isState]
  | emitted _ _ _ ih => simpa [Seen.isState] using ih
  | silent _ _ ih => exact ih

/-- The entries after the last state are those emitted since. -/
theorem after_state (h : Feed emit held log seen caught) {before after : List (Seen α β)} {log₀ : List α}
    (hs : seen = before ++ .state log₀ :: after) (hlast : ∀ x ∈ after, x.isState = false) :
    ∃ post, log = log₀ ++ post ∧ after = (post.filterMap emit).map .entry := by
  induction h generalizing after with
  | join => simp at hs
  | state _ _ =>
    rcases snoc_eq_split hs with ⟨-, hx, rfl⟩ | ⟨after, rfl, -⟩
    · obtain rfl := Seen.state.inj hx
      exact ⟨[], (List.append_nil _).symm, rfl⟩
    · exact absurd (hlast _ List.mem_concat_self) (by simp [Seen.isState])
  | @emitted log seen _ a b _ hab _ ih =>
    rcases snoc_eq_split hs with ⟨-, hx, -⟩ | ⟨after, rfl, hs'⟩
    · cases hx
    · obtain ⟨post, rfl, rfl⟩ := ih hs' fun y hy => hlast y (by simp [hy])
      refine ⟨post ++ [a], by rw [List.append_assoc], ?_⟩
      rw [List.filterMap_append, List.map_append]
      simp [hab]
  | @silent log _ _ a _ ha ih =>
    obtain ⟨post, rfl, rfl⟩ := ih hs hlast
    refine ⟨post ++ [a], by rw [List.append_assoc], ?_⟩
    rw [List.filterMap_append]
    simp [ha]

/-- An entry that a follower saw before any state was emitted while the log was held. -/
theorem entry_held (h : Feed emit held log seen caught) {before after : List (Seen α β)} {b : β}
    (hs : seen = before ++ .entry b :: after) (hnone : ∀ x ∈ before, x.isState = false) :
    ∃ pre a post, log = pre ++ a :: post ∧ emit a = some b ∧ held pre ∧
      after.filter (!·.isState) = (post.filterMap emit).map .entry := by
  induction h generalizing after with
  | join => simp at hs
  | state _ ih =>
    rcases snoc_eq_split hs with ⟨-, hx, -⟩ | ⟨after, rfl, hs'⟩
    · cases hx
    · obtain ⟨pre, a, post, hlog, ha, hheld, hafter⟩ := ih hs'
      refine ⟨pre, a, post, hlog, ha, hheld, ?_⟩
      rw [List.filter_append, hafter]
      simp [Seen.isState]
  | @emitted log seen caught a _ hfeed hab hgo ih =>
    rcases snoc_eq_split hs with ⟨rfl, hx, rfl⟩ | ⟨after, rfl, hs'⟩
    · obtain rfl := Seen.entry.inj hx
      refine ⟨log, a, [], rfl, hab, hgo.resolve_left fun hc => ?_, rfl⟩
      obtain ⟨x, hx, hstate⟩ := hfeed.caught_iff.1 hc
      exact absurd hstate (by rw [hnone x hx]; decide)
    · obtain ⟨pre, a₀, post, rfl, ha, hheld, hafter⟩ := ih hs'
      refine ⟨pre, a₀, post ++ [a], by simp, ha, hheld, ?_⟩
      rw [List.filter_append, hafter, List.filterMap_append, List.map_append]
      simp [Seen.isState, hab]
  | @silent log _ _ a _ ha ih =>
    obtain ⟨pre, a₀, post, rfl, hb, hheld, hafter⟩ := ih hs
    refine ⟨pre, a₀, post ++ [a], by simp, hb, hheld, ?_⟩
    rw [hafter, List.filterMap_append]
    simp [ha]

end Feed

end Hyoui.Lib
