import Mathlib.Data.List.Basic
import Mathlib.Data.Option.Basic
/-!
# Layered tables

A table gives values to keys, and a value is a leaf or a table again. Laying one table over another goes
into the tables that both have and takes every other value of the upper one whole. What a path of keys
leads to is `entry`: nothing at all, no leaf, or a leaf. `leafAt_merge` is the rule for two layers and
`leafAt_stack` the one for any number of them: the first layer with an entry decides.
-/

namespace Hyoui.Lib

/-! ## Tables -/

mutual

inductive Value (κ α : Type) where
  | leaf (a : α)
  | table (t : Table κ α)

/-- The keys of a table with their values. -/
inductive Table (κ α : Type) where
  | nil
  | cons (key : κ) (value : Value κ α) (rest : Table κ α)

end

variable {κ α : Type}

namespace Table

/-- Induction along the keys of one table, without going into its values. -/
@[elab_as_elim]
theorem along {motive : Table κ α → Prop} (nil : motive nil)
    (cons : ∀ key value rest, motive rest → motive (cons key value rest)) : ∀ t, motive t
  | .nil => nil
  | .cons key value rest => cons key value rest (along nil cons rest)

variable [DecidableEq κ]

def get (k : κ) : Table κ α → Option (Value κ α)
  | nil => none
  | cons key value rest => if key = k then some value else rest.get k

/-- The value takes the place of the one the key had, or comes last. -/
def insert (k : κ) (v : Value κ α) : Table κ α → Table κ α
  | nil => cons k v nil
  | cons key value rest => if key = k then cons key v rest else cons key value (rest.insert k v)

def remove (k : κ) : Table κ α → Table κ α
  | nil => nil
  | cons key value rest => if key = k then rest.remove k else cons key value (rest.remove k)

def modify (k : κ) (f : Value κ α → Value κ α) : Table κ α → Table κ α
  | nil => nil
  | cons key value rest => cons key (if key = k then f value else value) (rest.modify k f)

end Table

variable [DecidableEq κ]

mutual

/-- The keys of `overlay` go into `base` one after the other. -/
def Table.merge (base : Table κ α) (overlay : Table κ α) : Table κ α :=
  match overlay with
  | .nil => base
  | .cons k v rest => (base.insert k (Value.merge (base.get k) v)).merge rest
termination_by structural overlay

def Value.merge (base : Option (Value κ α)) (overlay : Value κ α) : Value κ α :=
  match overlay with
  | .leaf a => .leaf a
  | .table o =>
    match base with
    | some (.table b) => .table (b.merge o)
    | _ => .table o
termination_by structural overlay

end

namespace Table
variable {t : Table κ α} {k k' : κ} {v : Value κ α} {f : Value κ α → Value κ α}

@[simp] theorem get_nil : (nil : Table κ α).get k = none := rfl

theorem get_cons {rest : Table κ α} : (cons k' v rest).get k = if k' = k then some v else rest.get k := rfl

theorem get_insert : (t.insert k v).get k' = if k = k' then some v else t.get k' := by
  induction t using Table.along with
  | nil => rfl
  | cons key value rest ih =>
    by_cases hkey : key = k
    · subst hkey
      simp only [insert, if_true, get_cons]
      split <;> rfl
    · simp only [insert, hkey, if_false, get_cons, ih]
      split <;> rename_i hk'
      · subst hk'
        simp [Ne.symm hkey]
      · rfl

theorem get_remove : (t.remove k).get k' = if k = k' then none else t.get k' := by
  induction t using Table.along with
  | nil => simp [remove]
  | cons key value rest ih =>
    by_cases hkey : key = k
    · subst hkey
      simp only [remove, if_true, get_cons, ih]
      split <;> rfl
    · simp only [remove, hkey, if_false, get_cons, ih]
      split <;> rename_i hk'
      · subst hk'
        simp [Ne.symm hkey]
      · rfl

theorem remove_of_get (h : t.get k = none) : t.remove k = t := by
  induction t using Table.along with
  | nil => rfl
  | cons key value rest ih =>
    rw [get_cons] at h
    split at h <;> rename_i hk
    · cases h
    · rw [remove, if_neg hk, ih h]

theorem get_modify : (t.modify k f).get k' = if k = k' then (t.get k).map f else t.get k' := by
  induction t using Table.along with
  | nil => simp [modify]
  | cons key value rest ih =>
    simp only [modify, get_cons, ih]
    by_cases hkey : key = k
    · subst hkey
      split <;> simp_all
    · by_cases hk' : key = k'
      · subst hk'
        simp [hkey, Ne.symm hkey]
      · simp [hkey, hk']

end Table

/-! ## No key twice -/

mutual

/-- No table in it has a key twice. -/
def Table.Unique : Table κ α → Prop
  | .nil => True
  | .cons k v rest => rest.get k = none ∧ v.Unique ∧ rest.Unique

def Value.Unique : Value κ α → Prop
  | .leaf _ => True
  | .table t => t.Unique

end

namespace Table
variable {t b o : Table κ α} {k : κ} {v : Value κ α}

theorem Unique.get (h : t.Unique) (hget : t.get k = some v) : v.Unique := by
  induction t using Table.along with
  | nil => cases hget
  | cons key value rest ih =>
    obtain ⟨-, hvalue, hrest⟩ := h
    rw [get_cons] at hget
    split at hget
    · cases hget
      exact hvalue
    · exact ih hrest hget

theorem Unique.insert (h : t.Unique) (hv : v.Unique) : (t.insert k v).Unique := by
  induction t using Table.along with
  | nil => exact ⟨rfl, hv, trivial⟩
  | cons key value rest ih =>
    obtain ⟨hkey, hvalue, hrest⟩ := h
    rw [Table.insert]
    split <;> rename_i hk
    · exact ⟨hkey, hv, hrest⟩
    · exact ⟨by rw [get_insert, if_neg (Ne.symm hk), hkey], hvalue, ih hrest⟩

theorem Unique.remove (h : t.Unique) : (t.remove k).Unique := by
  induction t using Table.along with
  | nil => trivial
  | cons key value rest ih =>
    obtain ⟨hkey, hvalue, hrest⟩ := h
    rw [Table.remove]
    split
    · exact ih hrest
    · exact ⟨by rw [get_remove, hkey, ite_self], hvalue, ih hrest⟩

theorem Unique.modify {f : Value κ α → Value κ α} (h : t.Unique) (hf : ∀ v, v.Unique → (f v).Unique) :
    (t.modify k f).Unique := by
  induction t using Table.along with
  | nil => trivial
  | cons key value rest ih =>
    obtain ⟨hkey, hvalue, hrest⟩ := h
    refine ⟨?_, ?_, ih hrest⟩
    · rw [get_modify]
      split <;> rename_i hk
      · rw [hk, hkey, Option.map_none]
      · exact hkey
    · split
      · exact hf _ hvalue
      · exact hvalue

/-- A key of the upper table is laid over what the lower one has there; the other keys stay. -/
theorem get_merge (h : o.Unique) :
    (b.merge o).get k = match o.get k with
      | none => b.get k
      | some v => some (Value.merge (b.get k) v) := by
  induction o using Table.along generalizing b with
  | nil => rw [merge, get_nil]
  | cons key value rest ih =>
    obtain ⟨hkey, -, hrest⟩ := h
    rw [merge, ih hrest, get_cons, get_insert]
    by_cases hk : key = k
    · subst hk
      simp only [hkey, if_true]
    · simp only [hk, if_false]

end Table

mutual

theorem Table.Unique.merge {b : Table κ α} : ∀ {o : Table κ α}, b.Unique → o.Unique → (b.merge o).Unique
  | .nil, hb, _ => hb
  | .cons _ _ _, hb, ⟨_, hv, hrest⟩ => (hb.insert (Value.Unique.merge (fun _ hw => hb.get hw) hv)).merge hrest

theorem Value.Unique.merge {m : Option (Value κ α)} :
    ∀ {v : Value κ α}, (∀ w, m = some w → w.Unique) → v.Unique → (Value.merge m v).Unique
  | .leaf _, _, hv => hv
  | .table _, hm, hv => by
    cases m with
    | none => exact hv
    | some w =>
      cases w with
      | leaf a => exact hv
      | table b => exact Table.Unique.merge (hm _ rfl) hv

end

/-! ## What a path of keys leads to -/

namespace Value

/-- `some none` where the value is a table, or a leaf before the path ends; `none` where a key is missing. -/
def entry : List κ → Value κ α → Option (Option α)
  | [], leaf a => some (some a)
  | [], table _ => some none
  | _ :: _, leaf _ => some none
  | k :: ks, table t => (t.get k).bind (entry ks)

def leafAt (ks : List κ) (v : Value κ α) : Option α := (v.entry ks).join

/-- `f` on the leaf at the end of the path, where there is one. -/
def modifyAt (f : α → α) : List κ → Value κ α → Value κ α
  | [], leaf a => leaf (f a)
  | [], table t => table t
  | _ :: _, leaf a => leaf a
  | k :: ks, table t => table (t.modify k (modifyAt f ks))

variable {f : α → α} {v : Value κ α} {ks ks' : List κ} {t b o : Table κ α} {k : κ}

theorem Unique.modifyAt (h : v.Unique) : (v.modifyAt f ks).Unique := by
  induction ks generalizing v with
  | nil => cases v <;> exact h
  | cons k ks ih =>
    cases v with
    | leaf a => exact h
    | table t => exact Table.Unique.modify h fun _ hw => ih hw

theorem entry_modifyAt :
    (v.modifyAt f ks).entry ks' = if ks' = ks then (v.entry ks).map (·.map f) else v.entry ks' := by
  induction ks generalizing v ks' with
  | nil => cases v <;> cases ks' <;> simp [modifyAt, entry]
  | cons k ks ih =>
    cases v with
    | leaf a => cases ks' <;> simp [modifyAt, entry]
    | table t =>
      cases ks' with
      | nil => simp [modifyAt, entry]
      | cons k' ks' =>
        simp only [modifyAt, entry, Table.get_modify, List.cons.injEq]
        by_cases hk : k = k'
        · subst hk
          cases t.get k <;> simp [ih]
        · simp [hk, Ne.symm hk]

theorem entry_remove : (table (t.remove k)).entry ks = if ks.head? = some k then none else (table t).entry ks := by
  cases ks with
  | nil => simp [entry]
  | cons k' ks =>
    simp only [entry, Table.get_remove, List.head?_cons, Option.some.injEq, eq_comm (a := k')]
    split <;> rfl

/-- What the upper table has no entry for is read in the lower one. -/
theorem leafAt_merge (h : o.Unique) :
    (table (b.merge o)).leafAt ks = ((table o).entry ks).getD ((table b).leafAt ks) := by
  induction ks generalizing b o with
  | nil => rfl
  | cons k ks ih =>
    simp only [leafAt, entry, Table.get_merge h]
    cases ho : o.get k with
    | none => rfl
    | some v =>
      cases v with
      | leaf a => cases ks <;> rfl
      | table o' =>
        cases hb : b.get k with
        | none =>
          simp only [Value.merge, Option.bind_some, Option.bind_none, Option.join_none]
          cases (table o').entry ks <;> rfl
        | some w =>
          cases w with
          | leaf a =>
            simp only [Value.merge, Option.bind_some]
            cases ks with
            | nil => rfl
            | cons k' ks => cases (table o').entry (k' :: ks) <;> rfl
          | table b' => exact ih (h.get ho)

end Value

/-! ## Layers -/

/-- A table whose keys are unique at every depth. -/
structure Layer (κ α : Type) [DecidableEq κ] where
  table : Table κ α
  unique : table.Unique

namespace Layer

def empty : Layer κ α := ⟨.nil, trivial⟩

def get (l : Layer κ α) (k : κ) : Option (Value κ α) := l.table.get k

def remove (l : Layer κ α) (k : κ) : Layer κ α := ⟨l.table.remove k, l.unique.remove⟩

def modifyAt (l : Layer κ α) (f : α → α) : List κ → Layer κ α
  | [] => l
  | k :: ks => ⟨l.table.modify k (Value.modifyAt f ks), l.unique.modify fun _ h => h.modifyAt⟩

def merge (base overlay : Layer κ α) : Layer κ α :=
  ⟨base.table.merge overlay.table, base.unique.merge overlay.unique⟩

def entry (l : Layer κ α) (ks : List κ) : Option (Option α) := (Value.table l.table).entry ks

def leafAt (l : Layer κ α) (ks : List κ) : Option α := (Value.table l.table).leafAt ks

/-- The first over the others, which lie in the order of the list. -/
def stack (top : Layer κ α) : List (Layer κ α) → Layer κ α
  | [] => top
  | next :: below => (stack next below).merge top

variable {l base overlay : Layer κ α} {f : α → α} {k : κ} {ks ks' : List κ}

theorem entry_modifyAt :
    (l.modifyAt f ks).entry ks' = if ks' = ks then (l.entry ks).map (·.map f) else l.entry ks' := by
  rw [entry, entry, entry, ← Value.entry_modifyAt]
  cases ks <;> rfl

theorem entry_remove : (l.remove k).entry ks = if ks.head? = some k then none else l.entry ks := Value.entry_remove

theorem remove_of_get (h : l.get k = none) : l.remove k = l := by
  simp only [remove, Table.remove_of_get h]

/-- Keys that differ in their first one do not meet. -/
theorem get_modifyAt (h : ks.head? ≠ some k) : (l.modifyAt f ks).get k = l.get k := by
  cases ks with
  | nil => rfl
  | cons k' ks =>
    have hne : k' ≠ k := by simpa using h
    simp only [modifyAt, get, Table.get_modify, hne, if_false]

theorem leafAt_merge : (base.merge overlay).leafAt ks = (overlay.entry ks).getD (base.leafAt ks) :=
  Value.leafAt_merge overlay.unique

/-- The first layer that has an entry for the keys decides what the stack has there. -/
theorem leafAt_stack {below : List (Layer κ α)} :
    (stack l below).leafAt ks = ((l :: below).findSome? (entry · ks)).join := by
  induction below generalizing l with
  | nil =>
    simp only [stack, leafAt, Value.leafAt, List.findSome?_cons, List.findSome?_nil]
    cases h : l.entry ks <;> rw [entry] at h <;> rw [h]
  | cons next below ih =>
    rw [stack, leafAt_merge, ih]
    conv_rhs => rw [List.findSome?_cons]
    cases l.entry ks <;> rfl

end Layer
end Hyoui.Lib
