import Mathlib.Data.List.Basic
/-!
# Things held by the members of a list

The members of a list (processes, say) each hold at most one thing of a kind (a lock, a file). What
keeps two of them from holding the same one is that a member takes only what nobody holds
(`Exclusive.set`).
-/

namespace Hyoui.Lib

section Holders

variable {σ κ : Type} {f : σ → Option κ} {as : List σ} {i j : Nat} {p q r : σ} {k : κ}

theorem getElem?_set_eq (hp : as[i]? = some p) :
    (as.set i q)[j]? = some r ↔ (j = i ∧ r = q) ∨ (j ≠ i ∧ as[j]? = some r) := by
  obtain ⟨hlt, -⟩ := List.getElem?_eq_some_iff.1 hp
  rw [List.getElem?_set]
  by_cases hij : i = j
  · subst hij
    simp only [hlt, if_true, Option.some.injEq, true_and, ne_eq, not_true_eq_false, false_and, or_false, eq_comm]
  · simp only [hij, if_false, Ne.symm hij, false_and, ne_eq, not_false_iff, true_and, false_or]

/-- No two members hold the same thing. -/
def Exclusive (f : σ → Option κ) (as : List σ) : Prop :=
  ∀ (i j : Nat) (p q : σ) (k : κ), as[i]? = some p → as[j]? = some q → f p = some k → f q = some k → i = j

/-- Nobody holds it. -/
def Free (f : σ → Option κ) (k : κ) (as : List σ) : Prop := ∀ p ∈ as, f p ≠ some k

instance [DecidableEq κ] : Decidable (Free f k as) := inferInstanceAs (Decidable (∀ p ∈ as, f p ≠ some k))

theorem Free.getElem? (h : Free f k as) (hp : as[i]? = some p) : f p ≠ some k :=
  h p (List.mem_of_getElem? hp)

theorem Exclusive.nil : Exclusive f [] := by
  intro i j p q k hp
  cases hp

theorem Exclusive.set (h : Exclusive f as) (hp : as[i]? = some p)
    (hk : ∀ k, f q = some k → f p = some k ∨ Free f k as) : Exclusive f (as.set i q) := by
  intro a b x y k hx hy hfx hfy
  rw [getElem?_set_eq hp] at hx hy
  rcases hx with ⟨rfl, rfl⟩ | ⟨ha, hx⟩ <;> rcases hy with ⟨rfl, rfl⟩ | ⟨hb, hy⟩
  · rfl
  · rcases hk k hfx with hold | hfree
    · exact h _ _ _ _ k hp hy hold hfy
    · exact absurd hfy (hfree.getElem? hy)
  · rcases hk k hfy with hold | hfree
    · exact h _ _ _ _ k hx hp hfx hold
    · exact absurd hfx (hfree.getElem? hx)
  · exact h _ _ _ _ k hx hy hfx hfy

theorem getElem?_concat_eq : (as ++ [q])[j]? = some r ↔ as[j]? = some r ∨ (j = as.length ∧ r = q) := by
  rw [List.getElem?_append]
  split
  · rename_i hlt
    constructor
    · exact .inl
    · rintro (h | ⟨rfl, -⟩)
      · exact h
      · exact absurd hlt (Nat.lt_irrefl _)
  · rename_i hge
    rw [List.getElem?_singleton]
    constructor
    · intro h
      split at h
      · exact .inr ⟨by omega, (Option.some.inj h).symm⟩
      · cases h
    · rintro (h | ⟨rfl, rfl⟩)
      · exact absurd (List.getElem?_eq_some_iff.1 h).1 hge
      · simp

/-- A newcomer holds nothing. -/
theorem Exclusive.concat (h : Exclusive f as) (hq : f q = none) : Exclusive f (as ++ [q]) := by
  intro a b x y k hx hy hfx hfy
  rcases getElem?_concat_eq.1 hx with hx | ⟨-, rfl⟩
  · rcases getElem?_concat_eq.1 hy with hy | ⟨-, rfl⟩
    · exact h _ _ _ _ k hx hy hfx hfy
    · rw [hq] at hfy
      cases hfy
  · rw [hq] at hfx
    cases hfx

end Holders

end Hyoui.Lib
