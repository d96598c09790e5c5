import Mathlib.Data.List.Basic
/-!
# Scanning a buffer item by item

A *scanner* looks at the front of a buffer and says that an item is there, that the input is
bad, or that more input is needed. Its laws say that more input never changes a verdict already
given. For such a scanner it does not matter how the input arrives: draining the buffer after
each chunk gives the items, the error and the unread rest of one drain of the whole input
(`feedAll_eq_drain`).

Nothing here is about any particular format.
-/

namespace Hyoui.Lib

/-- What a look at the front of a buffer says. -/
inductive Look (ε β : Type*) where
  | more
  | bad (e : ε)
  | item (b : β) (len : Nat)
deriving DecidableEq

/-- A scanner: its verdicts are stable under further input, and an item is a
non-empty part of the buffer. -/
structure Scanner (α ε β : Type*) where
  look : List α → Look ε β
  item_pos : ∀ {xs b n}, look xs = .item b n → 0 < n
  item_le : ∀ {xs b n}, look xs = .item b n → n ≤ xs.length
  item_append : ∀ {xs b n} ys, look xs = .item b n → look (xs ++ ys) = .item b n
  bad_append : ∀ {xs e} ys, look xs = .bad e → look (xs ++ ys) = .bad e

variable {α ε β : Type*}

namespace Scanner

/-- Take items off the buffer until more input is needed (the unread rest is returned)
or the input is bad. -/
def drain (S : Scanner α ε β) (xs : List α) : List β × Except ε (List α) :=
  match _h : S.look xs with
  | .more => ([], .ok xs)
  | .bad e => ([], .error e)
  | .item b n =>
    let r := S.drain (xs.drop n)
    (b :: r.1, r.2)
termination_by xs.length
decreasing_by
  have hp := S.item_pos _h
  have hl := S.item_le _h
  simp only [List.length_drop]; omega

theorem drain_more (S : Scanner α ε β) {xs : List α} (h : S.look xs = .more) : S.drain xs = ([], .ok xs) := by
  rw [drain]; split <;> simp_all

theorem drain_bad (S : Scanner α ε β) {xs : List α} {e : ε} (h : S.look xs = .bad e) :
    S.drain xs = ([], .error e) := by
  rw [drain]; split <;> simp_all

theorem drain_item (S : Scanner α ε β) {xs : List α} {b : β} {n : Nat} (h : S.look xs = .item b n) :
    S.drain xs = (b :: (S.drain (xs.drop n)).1, (S.drain (xs.drop n)).2) := by
  rw [drain]; split <;> simp_all

/-- Draining after one more chunk `ys`, from what an earlier drain left. -/
def resume (S : Scanner α ε β) (r : List β × Except ε (List α)) (ys : List α) : List β × Except ε (List α) :=
  match r.2 with
  | .error e => (r.1, .error e)
  | .ok rest => (r.1 ++ (S.drain (rest ++ ys)).1, (S.drain (rest ++ ys)).2)

/-- A drain of a longer input is a drain of its front, resumed. -/
theorem drain_append (S : Scanner α ε β) (xs ys : List α) : S.drain (xs ++ ys) = S.resume (S.drain xs) ys := by
  induction xs using drain.induct (S := S) with
  | case1 xs h => simp [S.drain_more h, resume]
  | case2 xs e h => rw [S.drain_bad h, S.drain_bad (S.bad_append ys h)]; rfl
  | case3 xs b n h ih =>
    rw [S.drain_item h, S.drain_item (S.item_append ys h), List.drop_append_of_le_length (S.item_le h), ih]
    simp only [resume]
    split <;> simp_all

/-- Of an input that drains well, a front drains well, to the first of its items. -/
theorem drain_front (S : Scanner α ε β) {xs ys rest : List α} (hfront : xs <+: ys) (h : (S.drain ys).2 = .ok rest) :
    (S.drain xs).1 <+: (S.drain ys).1 ∧ ∃ rest', (S.drain xs).2 = .ok rest' := by
  obtain ⟨zs, rfl⟩ := hfront
  rw [S.drain_append] at h ⊢
  unfold resume at h ⊢
  cases hx : (S.drain xs).2 with
  | error e =>
    rw [hx] at h
    cases h
  | ok rest' => exact ⟨List.prefix_append _ _, rest', rfl⟩

/-- Chunk after chunk, draining after each; after an error nothing more is read. -/
def feedAll (S : Scanner α ε β) (r : List β × Except ε (List α)) : List (List α) → List β × Except ε (List α)
  | [] => r
  | c :: cs => S.feedAll (S.resume r c) cs

theorem feedAll_drain (S : Scanner α ε β) (xs : List α) (cs : List (List α)) :
    S.feedAll (S.drain xs) cs = S.drain (xs ++ cs.flatten) := by
  induction cs generalizing xs with
  | nil => simp [feedAll]
  | cons c cs ih => rw [feedAll, ← drain_append, ih, List.flatten_cons, List.append_assoc]

/-- However the input is cut, feeding it chunk by chunk drains the whole of it. -/
theorem feedAll_eq_drain (S : Scanner α ε β) (cs : List (List α)) (h : S.look [] = .more) :
    S.feedAll ([], .ok []) cs = S.drain cs.flatten := by
  rw [← S.drain_more h, feedAll_drain, List.nil_append]

/-- After a drain that ends well, the rest has no item in front. -/
theorem look_rest (S : Scanner α ε β) {xs rest : List α} (h : (S.drain xs).2 = .ok rest) : S.look rest = .more := by
  induction xs using drain.induct (S := S) with
  | case1 xs hl => rw [S.drain_more hl] at h; simp_all
  | case2 xs e hl => rw [S.drain_bad hl] at h; cases h
  | case3 xs b n hl ih => rw [S.drain_item hl] at h; exact ih h

/-! ## Item by item -/

/-- Of the input these items have been taken off, and `rest` is left of it. -/
def Reads (S : Scanner α ε β) (xs : List α) (items : List β) (rest : List α) : Prop :=
  S.drain xs = (items ++ (S.drain rest).1, (S.drain rest).2)

section Reads

variable {S : Scanner α ε β} {xs rest : List α} {items : List β}

theorem Reads.refl (S : Scanner α ε β) (xs : List α) : S.Reads xs [] xs := rfl

theorem resume_append (S : Scanner α ε β) (items : List β) (r : List β × Except ε (List α)) (ys : List α) :
    S.resume (items ++ r.1, r.2) ys = (items ++ (S.resume r ys).1, (S.resume r ys).2) := by
  unfold resume
  cases r.2 with
  | error e => rfl
  | ok rest => simp only [List.append_assoc]

/-- More input is left to be read. -/
theorem Reads.more (h : S.Reads xs items rest) (ys : List α) : S.Reads (xs ++ ys) items (rest ++ ys) := by
  rw [Reads, S.drain_append, S.drain_append, h, resume_append]

/-- The item in front is taken off what is left. -/
theorem Reads.take (h : S.Reads xs items rest) {b : β} {n : Nat} (hlook : S.look rest = .item b n) :
    S.Reads xs (items ++ [b]) (rest.drop n) := by
  rw [Reads, h, S.drain_item hlook, List.append_assoc]
  rfl

/-- What has been taken off are the first of all the items. -/
theorem Reads.front (h : S.Reads xs items rest) : items <+: (S.drain xs).1 := by
  rw [h]
  exact List.prefix_append _ _

end Reads

end Scanner

end Hyoui.Lib
