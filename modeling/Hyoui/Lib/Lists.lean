import Mathlib.Data.List.Forall2
/-!
# Lists

Lists related element by element, the last answer a list gives to a question, and erasing
several positions of a list whose elements have distinct keys.
-/

namespace Hyoui.Lib

/-! ## Lists related element by element -/

section Lists

variable {α β γ : Type} {R : α → β → Prop} {l : List α} {l' : List β}

theorem forall₂_trans {Q : β → γ → Prop} {T : α → γ → Prop} {l'' : List γ} (hRQ : ∀ a b c, R a b → Q b c → T a c)
    (h : List.Forall₂ R l l') (h' : List.Forall₂ Q l' l'') : List.Forall₂ T l l'' := by
  induction h generalizing l'' with
  | nil => cases h'; exact .nil
  | cons hab _ ih =>
    cases h' with
    | cons hbc hrest => exact .cons (hRQ _ _ _ hab hbc) (ih hrest)

theorem forall₂_mem_left (h : List.Forall₂ R l l') {a : α} (ha : a ∈ l) : ∃ b ∈ l', R a b := by
  induction h with
  | nil => simp at ha
  | cons hab _ ih =>
    rcases List.mem_cons.1 ha with rfl | ha
    · exact ⟨_, List.mem_cons_self, hab⟩
    · obtain ⟨b, hb, hR⟩ := ih ha
      exact ⟨b, List.mem_cons_of_mem _ hb, hR⟩

theorem forall₂_mem_right (h : List.Forall₂ R l l') {b : β} (hb : b ∈ l') : ∃ a ∈ l, R a b := by
  obtain ⟨a, ha, hR⟩ := forall₂_mem_left h.flip hb
  exact ⟨a, ha, hR⟩

theorem forall₂_imp_mem {Q : α → β → Prop} (h : List.Forall₂ R l l') (himp : ∀ a ∈ l, ∀ b ∈ l', R a b → Q a b) :
    List.Forall₂ Q l l' := by
  induction h with
  | nil => exact .nil
  | cons hab _ ih =>
    refine .cons (himp _ List.mem_cons_self _ List.mem_cons_self hab) (ih ?_)
    exact fun a ha b hb => himp a (List.mem_cons_of_mem _ ha) b (List.mem_cons_of_mem _ hb)

theorem forall₂_and {Q : α → β → Prop} (h : List.Forall₂ R l l') (h' : List.Forall₂ Q l l') :
    List.Forall₂ (fun a b => R a b ∧ Q a b) l l' := by
  induction h with
  | nil => exact .nil
  | cons hab _ ih =>
    cases h' with
    | cons hab' hrest => exact .cons ⟨hab, hab'⟩ (ih hrest)

theorem forall₂_set {R : α → α → Prop} (hrefl : ∀ a, R a a) {i : Nat} {a b : α} (ha : l[i]? = some a) (h : R a b) :
    List.Forall₂ R l (l.set i b) := by
  induction l generalizing i with
  | nil => simp at ha
  | cons c l ih =>
    cases i with
    | zero =>
      rw [List.getElem?_cons_zero, Option.some.injEq] at ha
      subst ha
      exact .cons h (List.forall₂_same.2 fun x _ => hrefl x)
    | succ i => exact .cons (hrefl c) (ih ha)

theorem forall₂_modify {R : α → α → Prop} (hrefl : ∀ a, R a a) {f : α → α} (hf : ∀ a, R a (f a)) (i : Nat) (l : List α) :
    List.Forall₂ R l (l.modify i f) := by
  induction l generalizing i with
  | nil => simp
  | cons a l ih =>
    cases i with
    | zero => exact .cons (hf a) (List.forall₂_same.2 fun x _ => hrefl x)
    | succ i => exact .cons (hrefl a) (ih i)

theorem forall₂_map_of {R : α → α → Prop} {f : α → α} (h : ∀ a ∈ l, R a (f a)) : List.Forall₂ R l (l.map f) := by
  rw [List.forall₂_map_right_iff, List.forall₂_same]
  exact h

theorem forall₂_map_eq {f : α → γ} {g : β → γ} (hf : ∀ a b, R a b → g b = f a) (h : List.Forall₂ R l l') :
    l'.map g = l.map f := by
  induction h with
  | nil => rfl
  | cons hab _ ih => rw [List.map_cons, List.map_cons, hf _ _ hab, ih]

end Lists

/-! ## The last answer -/

section Last

variable {α β : Type}

/-- The last `some` that `f` gives on the list. -/
def lastOf (f : α → Option β) (l : List α) : Option β := l.foldl (fun acc a => (f a).or acc) none

theorem lastOf_foldl (f : α → Option β) (l : List α) (acc : Option β) :
    l.foldl (fun acc a => (f a).or acc) acc = (lastOf f l).or acc := by
  induction l generalizing acc with
  | nil => rfl
  | cons a l ih =>
    have hl : lastOf f (a :: l) = l.foldl (fun acc a => (f a).or acc) ((f a).or none) := rfl
    rw [hl, List.foldl_cons, ih, ih, Option.or_assoc, Option.or_none]

theorem lastOf_append (f : α → Option β) (l l' : List α) : lastOf f (l ++ l') = (lastOf f l').or (lastOf f l) := by
  rw [lastOf, List.foldl_append, lastOf_foldl]
  rfl

theorem lastOf_singleton (f : α → Option β) (a : α) : lastOf f [a] = f a := by
  simp [lastOf]

theorem lastOf_cons (f : α → Option β) (a : α) (l : List α) : lastOf f (a :: l) = (lastOf f l).or (f a) := by
  rw [← List.singleton_append, lastOf_append, lastOf_singleton]

theorem lastOf_some {f : α → Option β} {l : List α} {b : β} (h : lastOf f l = some b) : ∃ a ∈ l, f a = some b := by
  induction l with
  | nil => cases h
  | cons a l ih =>
    rw [lastOf_cons, Option.or_eq_some_iff] at h
    rcases h with h | ⟨-, h⟩
    · obtain ⟨x, hx, hfx⟩ := ih h
      exact ⟨x, List.mem_cons_of_mem _ hx, hfx⟩
    · exact ⟨a, List.mem_cons_self, h⟩

end Last

/-! ## Erasing several positions -/

section Erase

variable {α κ : Type} [DecidableEq κ]

/-- Erase the elements at these positions, one after another. -/
def eraseAll (idxs : List Nat) (l : List α) : List α := idxs.foldl List.eraseIdx l

/-- The keys of the elements at these positions. -/
def keysAt (key : α → κ) (idxs : List Nat) (l : List α) : List κ := idxs.filterMap fun i => l[i]?.map key

theorem eraseIdx_eq_filter {key : α → κ} {l : List α} (hn : (l.map key).Nodup) {i : Nat} {a : α} (ha : l[i]? = some a) :
    l.eraseIdx i = l.filter fun b => key b ≠ key a := by
  induction l generalizing i with
  | nil => simp at ha
  | cons b l ih =>
    rw [List.map_cons, List.nodup_cons] at hn
    cases i with
    | zero =>
      rw [List.getElem?_cons_zero, Option.some.injEq] at ha
      subst ha
      have hall : ∀ c ∈ l, key c ≠ key b := fun c hc he => hn.1 (List.mem_map.2 ⟨c, hc, he⟩)
      rw [List.eraseIdx_cons_zero, List.filter_cons_of_neg (by simp)]
      exact (List.filter_eq_self.2 fun c hc => by simpa using hall c hc).symm
    | succ i =>
      rw [List.getElem?_cons_succ] at ha
      have hb : key b ≠ key a := fun he => hn.1 (he ▸ List.mem_map.2 ⟨a, List.mem_of_getElem? ha, rfl⟩)
      rw [List.eraseIdx_cons_succ, List.filter_cons_of_pos (by simpa using hb), ih hn.2 ha]

/-- With distinct keys an element is found by its own. -/
theorem find?_key {key : α → κ} {l : List α} (hn : (l.map key).Nodup) {a : α} (ha : a ∈ l) :
    l.find? (fun b => key b = key a) = some a := by
  induction l with
  | nil => cases ha
  | cons b l ih =>
    rw [List.map_cons, List.nodup_cons] at hn
    rcases List.mem_cons.1 ha with rfl | hmem
    · simp
    · have hne : key b ≠ key a := fun heq => hn.1 (heq ▸ List.mem_map_of_mem hmem)
      rw [List.find?_cons_of_neg (by simpa using hne)]
      exact ih hn.2 hmem

/-- With distinct keys an element is found where it stands. -/
theorem findIdx?_key {key : α → κ} {l : List α} (hn : (l.map key).Nodup) {i : Nat} {a : α} (ha : l[i]? = some a) :
    l.findIdx? (fun b => decide (key b = key a)) = some i := by
  induction l generalizing i with
  | nil => simp at ha
  | cons b l ih =>
    rw [List.map_cons, List.nodup_cons] at hn
    cases i with
    | zero =>
      rw [List.getElem?_cons_zero, Option.some.injEq] at ha
      subst ha
      simp [List.findIdx?_cons]
    | succ i =>
      rw [List.getElem?_cons_succ] at ha
      have hb : key b ≠ key a := fun he => hn.1 (he ▸ List.mem_map.2 ⟨a, List.mem_of_getElem? ha, rfl⟩)
      rw [List.findIdx?_cons, decide_eq_false hb, ih hn.2 ha]
      rfl

/-- With distinct keys, to change the element at a position is to change the one with its key. -/
theorem set_eq_map_key {key : α → κ} {l : List α} (hn : (l.map key).Nodup) {i : Nat} {a : α} (ha : l[i]? = some a)
    (f : α → α) : l.set i (f a) = l.map fun b => if key b = key a then f b else b := by
  induction l generalizing i with
  | nil => rfl
  | cons b l ih =>
    rw [List.map_cons, List.nodup_cons] at hn
    cases i with
    | zero =>
      rw [List.getElem?_cons_zero, Option.some.injEq] at ha
      subst ha
      have hall : ∀ c ∈ l, (if key c = key b then f c else c) = c := fun c hc =>
        if_neg fun he => hn.1 (List.mem_map.2 ⟨c, hc, he⟩)
      rw [List.set_cons_zero, List.map_cons, if_pos rfl, List.map_congr_left hall, List.map_id']
    | succ i =>
      rw [List.getElem?_cons_succ] at ha
      have hb : key b ≠ key a := fun he => hn.1 (he ▸ List.mem_map.2 ⟨a, List.mem_of_getElem? ha, rfl⟩)
      rw [List.set_cons_succ, List.map_cons, if_neg hb, ih hn.2 ha]

/-- Positions taken from the last on erase exactly the elements that stood there. -/
theorem eraseAll_eq_filter {key : α → κ} {idxs : List Nat} (hd : idxs.Pairwise (· > ·)) {l : List α}
    (hn : (l.map key).Nodup) : eraseAll idxs l = l.filter fun b => key b ∉ keysAt key idxs l := by
  induction idxs generalizing l with
  | nil => simp [eraseAll, keysAt]
  | cons i idxs ih =>
    rw [List.pairwise_cons] at hd
    have hsame : ∀ j ∈ idxs, (l.eraseIdx i)[j]? = l[j]? := fun j hj => List.getElem?_eraseIdx_of_lt (hd.1 j hj)
    have hkeys : keysAt key idxs (l.eraseIdx i) = keysAt key idxs l :=
      List.filterMap_congr fun j hj => by rw [hsame j hj]
    have hn' : ((l.eraseIdx i).map key).Nodup := hn.sublist ((List.eraseIdx_sublist l i).map key)
    have hstep : eraseAll (i :: idxs) l = eraseAll idxs (l.eraseIdx i) := rfl
    rw [hstep, ih hd.2 hn', hkeys]
    cases ha : l[i]? with
    | none =>
      rw [List.eraseIdx_of_length_le (List.getElem?_eq_none_iff.1 ha)]
      simp [keysAt, ha]
    | some a =>
      have hcons : keysAt key (i :: idxs) l = key a :: keysAt key idxs l := by simp [keysAt, ha]
      rw [eraseIdx_eq_filter hn ha, List.filter_filter, hcons]
      refine List.filter_congr fun b _ => ?_
      simp [Bool.and_comm]

end Erase

end Hyoui.Lib
