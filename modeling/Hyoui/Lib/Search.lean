import Mathlib.Data.List.DropRight
import Mathlib.Data.List.Infix
import Mathlib.Data.Nat.Find
/-!
# Searching a stream piece by piece

A list is found where it ends. To find what ends in the next piece of a stream, the last items before
the piece are enough, one less than the list is long.
-/

namespace Hyoui.Lib

variable {α : Type*}

/-! ## The last items -/

section Last

theorem rtake_of_length_le {xs : List α} {k : Nat} (h : xs.length ≤ k) : xs.rtake k = xs := by
  rw [List.rtake, Nat.sub_eq_zero_of_le h, List.drop_zero]

theorem length_rtake (xs : List α) (k : Nat) : (xs.rtake k).length = min k xs.length := by
  rw [List.rtake, List.length_drop]
  omega

theorem rtake_suffix (xs : List α) (k : Nat) : xs.rtake k <:+ xs := List.drop_suffix _ _

/-- Of a front only its last items matter to the last items. -/
theorem rtake_append_rtake (xs ys : List α) (k : Nat) : (xs.rtake k ++ ys).rtake k = (xs ++ ys).rtake k := by
  simp only [List.rtake, List.length_append, List.length_drop, List.drop_append, List.drop_drop]
  rcases Nat.le_total xs.length k with h | h
  · simp [Nat.sub_eq_zero_of_le h]
  · congr 2 <;> omega

/-- A short list ends a stream where it ends the last items of it. -/
theorem suffix_rtake_append {needle xs ys : List α} {k : Nat} (h : needle.length ≤ k + ys.length) :
    needle <:+ xs.rtake k ++ ys ↔ needle <:+ xs ++ ys := by
  have hwindow : xs.rtake k ++ ys <:+ xs ++ ys := List.suffix_append_self_iff.2 (rtake_suffix xs k)
  constructor
  · intro hn
    exact hn.trans hwindow
  · intro hn
    rcases Nat.le_total xs.length k with hshort | hlong
    · rwa [rtake_of_length_le hshort]
    · refine List.suffix_of_suffix_length_le hn hwindow ?_
      rw [List.length_append, length_rtake, Nat.min_eq_left hlong]
      exact h

end Last

/-! ## Occurrences -/

section Occurrences

variable {needle xs ys : List α} {k m n p : Nat}

/-- The first occurrence of `needle` begins after `p` items. -/
def FirstAt (needle xs : List α) (p : Nat) : Prop := needle <+: xs.drop p ∧ ∀ q < p, ¬ needle <+: xs.drop q

theorem infix_iff_drop : needle <:+: xs ↔ ∃ p, needle <+: xs.drop p := by
  constructor
  · rintro ⟨front, back, rfl⟩
    refine ⟨front.length, back, ?_⟩
    rw [List.append_assoc, List.drop_left]
  · rintro ⟨p, hp⟩
    exact hp.isInfix.trans (List.drop_suffix p xs).isInfix

/-- What occurs in a stream occurs first somewhere. -/
theorem exists_firstAt (h : needle <:+: xs) : ∃ p, FirstAt needle xs p := by
  classical
  have hex := infix_iff_drop.1 h
  exact ⟨Nat.find hex, Nat.find_spec hex, fun q hq => Nat.find_min hex hq⟩

/-- A front of the stream has an occurrence exactly when the first one ends in it. -/
theorem infix_take_iff (h : FirstAt needle xs p) : needle <:+: xs.take m ↔ p + needle.length ≤ m := by
  rw [infix_iff_drop]
  constructor
  · rintro ⟨q, hq⟩
    rw [List.drop_take] at hq
    obtain ⟨hq, hfit⟩ := List.prefix_take_iff.1 hq
    have hle : p ≤ q := Nat.not_lt.1 fun hlt => h.2 q hlt hq
    rcases Nat.le_total q m with hqm | hqm
    · omega
    · -- nothing is left of the front, so the list is empty and occurs at once
      have hnil : needle = [] := List.eq_nil_of_length_eq_zero (by omega)
      have hzero : p = 0 := by
        by_contra hp
        exact h.2 0 (Nat.pos_of_ne_zero hp) (hnil ▸ List.nil_prefix)
      rw [hzero, hnil, List.length_nil]
      exact Nat.zero_le m
  · intro hle
    refine ⟨p, ?_⟩
    rw [List.drop_take]
    exact List.prefix_take_iff.2 ⟨h.1, by omega⟩

/-- An occurrence that is not in the front ends in the piece, so the last items of the front show it. -/
theorem infix_append_iff (hk : needle.length ≤ k + 1) (hnone : ¬ needle <:+: xs) :
    needle <:+: xs.rtake k ++ ys ↔ needle <:+: xs ++ ys := by
  constructor
  · intro h
    exact h.trans (List.suffix_append_self_iff.2 (rtake_suffix xs k)).isInfix
  · rintro ⟨front, back, h⟩
    rcases List.append_eq_append_iff.1 h with ⟨rest, hxs, -⟩ | ⟨more, hfound, hys⟩
    · exact absurd ⟨front, rest, hxs.symm⟩ hnone
    · cases more with
      | nil =>
        rw [List.append_nil] at hfound
        exact absurd ⟨front, [], by rw [List.append_nil, hfound]⟩ hnone
      | cons a more =>
        have hends : needle <:+ xs ++ a :: more := ⟨front, hfound⟩
        have hlen : needle.length ≤ k + (a :: more).length := by
          rw [List.length_cons]
          omega
        rw [hys, ← List.append_assoc]
        exact ((suffix_rtake_append hlen).2 hends).isInfix.trans (List.infix_append_left ..)

end Occurrences

end Hyoui.Lib
