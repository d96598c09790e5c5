import Std.Data.TreeMap.Lemmas
/-!
# Maps of maps

An ordered map from a first key to ordered maps from a second one: reading, putting, removing and
sweeping the values under both keys.
-/

namespace Hyoui.Lib

open Std (TreeMap TransOrd LawfulEqOrd)

/-! ## The values of a map -/

section Values

variable {α β : Type} [Ord α] {t : TreeMap α β}

theorem values_eq_map : t.values = t.toList.map Prod.snd := by
  have hfold : t.values = t.foldr (fun _ v l => v :: l) [] := rfl
  rw [hfold, TreeMap.foldr_eq_foldr_toList]
  exact (List.foldr_map ..).symm.trans (List.foldr_cons_nil ..)

theorem mem_values [TransOrd α] [LawfulEqOrd α] {v : β} : v ∈ t.values ↔ ∃ a : α, t[a]? = some v := by
  rw [values_eq_map, List.mem_map]
  constructor
  · rintro ⟨⟨a, v⟩, hmem, rfl⟩
    exact ⟨a, TreeMap.mem_toList_iff_getElem?_eq_some.1 hmem⟩
  · rintro ⟨a, ha⟩
    exact ⟨(a, v), TreeMap.mem_toList_iff_getElem?_eq_some.2 ha, rfl⟩

end Values

/-! ## Two keys -/

/-- Values under two keys. -/
abbrev Nested (α β γ : Type) [Ord α] [Ord β] : Type := TreeMap α (TreeMap β γ)

namespace Nested

variable {α β γ : Type} [Ord α] [Ord β]

def look (m : Nested α β γ) (a : α) (b : β) : Option γ := (m[a]?).bind (·[b]?)

def put (m : Nested α β γ) (a : α) (b : β) (v : γ) : Nested α β γ := m.insert a ((m.getD a ∅).insert b v)

def remove (m : Nested α β γ) (a : α) (b : β) : Nested α β γ := m.modify a fun inner => inner.erase b

/-- Keeps the values that fit, and drops the inner maps that end up empty. -/
def retain (m : Nested α β γ) (p : γ → Bool) : Nested α β γ :=
  (m.map fun _ inner => inner.filter fun _ v => p v).filter fun _ inner => !inner.isEmpty

variable [TransOrd α] [LawfulEqOrd α] [TransOrd β] [LawfulEqOrd β]
variable {m : Nested α β γ} {a a' : α} {b b' : β}

omit [LawfulEqOrd α] [TransOrd β] [LawfulEqOrd β] in
@[simp] theorem look_empty : look (∅ : Nested α β γ) a b = none := by simp [look]

omit [TransOrd α] [LawfulEqOrd α] [TransOrd β] [LawfulEqOrd β] in
theorem look_eq_some {v : γ} : look m a b = some v ↔ ∃ inner, m[a]? = some inner ∧ inner[b]? = some v := by
  simp [look, Option.bind_eq_some_iff]

theorem mem_values_values {v : γ} :
    v ∈ m.values.flatMap (·.values) ↔ ∃ a b, look m a b = some v := by
  simp only [List.mem_flatMap, mem_values, look_eq_some]
  constructor
  · rintro ⟨inner, ⟨a, ha⟩, b, hb⟩
    exact ⟨a, b, inner, ha, hb⟩
  · rintro ⟨a, b, inner, ha, hb⟩
    exact ⟨inner, ⟨a, ha⟩, b, hb⟩

theorem look_put [DecidableEq α] [DecidableEq β] {v : γ} :
    look (put m a b v) a' b' = if a = a' ∧ b = b' then some v else look m a' b' := by
  simp only [look, put, TreeMap.getElem?_insert, Std.compare_eq_iff_eq]
  by_cases ha : a = a'
  · subst ha
    by_cases hb : b = b'
    · simp [hb]
    · cases hm : m[a]? <;> simp [hb, hm, TreeMap.getElem?_insert, TreeMap.getD_eq_getD_getElem?]
  · simp [ha]

theorem look_remove [DecidableEq α] [DecidableEq β] :
    look (remove m a b) a' b' = if a = a' ∧ b = b' then none else look m a' b' := by
  simp only [look, remove, TreeMap.getElem?_modify, Std.compare_eq_iff_eq]
  by_cases ha : a = a'
  · subst ha
    by_cases hb : b = b'
    · cases hm : m[a]? <;> simp [hb]
    · cases hm : m[a]? <;> simp [hb, TreeMap.getElem?_erase]
  · simp [ha]

omit [LawfulEqOrd β] in
theorem look_retain {p : γ → Bool} : look (retain m p) a b = (look m a b).filter p := by
  simp only [look, retain, TreeMap.getElem?_filter, TreeMap.getElem?_map]
  cases hm : m[a]? with
  | none => simp
  | some inner =>
    simp only [Option.map_some, Option.pfilter_some, Option.bind_some]
    have hinner : (inner.filter fun _ v => p v)[b]? = (inner[b]?).filter p := by
      rw [TreeMap.getElem?_filter]
      cases inner[b]? <;> simp [Option.pfilter, Option.filter]
    split
    · simp only [Option.bind_some]
      exact hinner
    · rename_i hempty
      rw [← hinner]
      have : (inner.filter fun _ v => p v).isEmpty = true := by simpa using hempty
      simp [TreeMap.getElem?_of_isEmpty this]

end Nested

end Hyoui.Lib
