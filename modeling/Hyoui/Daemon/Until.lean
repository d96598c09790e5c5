import Hyoui.Daemon.Session
import Hyoui.Lib.Search
/-!
# Waiting for a text in the output

`run --until` ends the session at the first read after which its needle has been output. The watcher
keeps one byte less than the needle has of what it has seen, and looks at those bytes and the new ones.
-/

namespace Hyoui.Daemon

open Hyoui.Protocol Hyoui.Lib

namespace UntilWatcher

/-- `UntilWatcher::new` -/
def new (needle : Bytes) : UntilWatcher := { needle }

/-- The first of the chunks for which `feed` returns true. -/
def firstMatch (w : UntilWatcher) : List Bytes → Option Nat
  | [] => none
  | chunk :: chunks =>
    let (w, matched) := w.feed chunk
    if matched then some 0 else (w.firstMatch chunks).map (· + 1)

/-- The number of bytes up to the end of chunk `i`. -/
def boundary (chunks : List Bytes) (i : Nat) : Nat := (chunks.take (i + 1)).flatten.length

/-- Chunk `i` is the first that ends at `n` or later. -/
structure FirstBoundary (chunks : List Bytes) (n i : Nat) : Prop where
  lt : i < chunks.length
  reached : n ≤ boundary chunks i
  before : ∀ j < i, boundary chunks j < n

section Feed

variable {needle seen chunk : Bytes} {w : UntilWatcher}

/-- The watcher of `needle` after `seen`, in which it does not occur. -/
structure After (needle seen : Bytes) (w : UntilWatcher) : Prop where
  watches : w.needle = needle
  carry : w.carry = seen.rtake (needle.length - 1)
  unseen : ¬ needle <:+: seen

theorem new_after (hne : needle ≠ []) : After needle [] (new needle) where
  watches := rfl
  carry := (List.rtake_nil _).symm
  unseen h := hne (List.infix_nil.1 h)

theorem any_tails_iff (needle window : Bytes) : window.tails.any (needle.isPrefixOf ·) = true ↔ needle <:+: window := by
  rw [List.any_eq_true, List.infix_iff_prefix_suffix]
  constructor
  · rintro ⟨t, ht, hp⟩
    exact ⟨t, List.isPrefixOf_iff_prefix.1 hp, (List.mem_tails t window).1 ht⟩
  · rintro ⟨t, hp, ht⟩
    exact ⟨t, (List.mem_tails t window).2 ht, List.isPrefixOf_iff_prefix.2 hp⟩

/-- What is carried over are the last bytes of the window. -/
theorem carry_eq (window : Bytes) (keep : Nat) :
    (if window.length > keep then window.drop (window.length - keep) else window) = window.rtake keep := by
  by_cases h : window.length > keep
  · rw [if_pos h, List.rtake]
  · rw [if_neg h, rtake_of_length_le (Nat.not_lt.1 h)]

/-- A chunk in which the needle ends. -/
theorem After.feed_found (h : After needle seen w) (hfound : needle <:+: seen ++ chunk) : (w.feed chunk).2 = true := by
  have hne : ¬ w.needle.isEmpty = true := by
    rw [h.watches, List.isEmpty_iff]
    rintro rfl
    exact h.unseen (List.nil_infix)
  have hwindow : ((w.carry ++ chunk).tails.any (w.needle.isPrefixOf ·)) = true := by
    rw [any_tails_iff, h.watches, h.carry]
    exact (infix_append_iff (by omega) h.unseen).2 hfound
  simp only [UntilWatcher.feed, if_neg hne, if_pos hwindow]

/-- Any other chunk. -/
theorem After.feed_missed (h : After needle seen w) (hmissed : ¬ needle <:+: seen ++ chunk) :
    ∃ w', w.feed chunk = (w', false) ∧ After needle (seen ++ chunk) w' := by
  have hne : ¬ w.needle.isEmpty = true := by
    rw [h.watches, List.isEmpty_iff]
    rintro rfl
    exact h.unseen (List.nil_infix)
  have hwindow : ¬ ((w.carry ++ chunk).tails.any (w.needle.isPrefixOf ·)) = true := by
    rw [any_tails_iff, h.watches, h.carry]
    exact fun hfound => hmissed ((infix_append_iff (by omega) h.unseen).1 hfound)
  simp only [UntilWatcher.feed, if_neg hne, if_neg hwindow]
  refine ⟨_, rfl, h.watches, ?_, hmissed⟩
  rw [carry_eq, h.watches, h.carry, rtake_append_rtake]

/-- The first match is at the chunk with which the needle first occurs. -/
theorem After.firstMatch_found (h : After needle seen w) (chunks : List Bytes) (i : Nat) :
    w.firstMatch chunks = some i ↔ i < chunks.length ∧ needle <:+: seen ++ (chunks.take (i + 1)).flatten ∧
      ¬ needle <:+: seen ++ (chunks.take i).flatten := by
  induction chunks generalizing w seen i with
  | nil =>
    constructor
    · intro hcontra
      cases hcontra
    · rintro ⟨hlt, -⟩
      exact absurd hlt (Nat.not_lt_zero i)
  | cons chunk chunks ih =>
    by_cases hfound : needle <:+: seen ++ chunk
    · have hmatch := h.feed_found hfound
      have hfirst : w.firstMatch (chunk :: chunks) = some 0 := by
        rw [firstMatch]
        exact if_pos hmatch
      rw [hfirst, Option.some.injEq]
      constructor
      · rintro rfl
        refine ⟨Nat.succ_pos _, by simpa using hfound, by simpa using h.unseen⟩
      · rintro ⟨-, -, hnone⟩
        by_contra hi
        obtain ⟨j, rfl⟩ := Nat.exists_eq_succ_of_ne_zero (Ne.symm hi)
        apply hnone
        rw [List.take_succ_cons, List.flatten_cons, ← List.append_assoc]
        exact hfound.trans (List.prefix_append _ _).isInfix
    · obtain ⟨w', hfeed, h'⟩ := h.feed_missed hfound
      have hnext : w.firstMatch (chunk :: chunks) = (w'.firstMatch chunks).map (· + 1) := by
        rw [firstMatch, hfeed]
        rfl
      rw [hnext, Option.map_eq_some_iff]
      cases i with
      | zero =>
        constructor
        · rintro ⟨j, -, hj⟩
          omega
        · rintro ⟨-, hfirst, -⟩
          exact absurd (by simpa using hfirst) hfound
      | succ i =>
        have hshift : ∀ n, seen ++ ((chunk :: chunks).take (n + 1)).flatten = seen ++ chunk ++ (chunks.take n).flatten := by
          intro n
          rw [List.take_succ_cons, List.flatten_cons, List.append_assoc]
        have hsucc := ih h' i
        rw [← hshift, ← hshift] at hsucc
        rw [List.length_cons, Nat.succ_lt_succ_iff, ← hsucc]
        constructor
        · rintro ⟨j, hj, hji⟩
          rwa [← Nat.succ.inj hji]
        · intro hi
          exact ⟨i, hi, rfl⟩

end Feed

/-! ## When the watcher first matches -/

theorem flatten_take (chunks : List Bytes) (i : Nat) :
    (chunks.take i).flatten = chunks.flatten.take (chunks.take i).flatten.length := by
  apply List.prefix_iff_eq_take.1
  exact ⟨(chunks.drop i).flatten, by rw [← List.flatten_append, List.take_append_drop]⟩

theorem flatten_take_length_mono (chunks : List Bytes) {i j : Nat} (h : i ≤ j) :
    (chunks.take i).flatten.length ≤ (chunks.take j).flatten.length :=
  (List.Sublist.flatten (List.take_sublist_take_left h)).length_le

/-- However the output is cut, the watcher of a needle first matches at the chunk whose end is the first at or
after the end of the needle's first occurrence. -/
theorem firstMatch_iff {needle : Bytes} (hne : needle ≠ []) (chunks : List Bytes) (i : Nat) :
    (new needle).firstMatch chunks = some i ↔
      ∃ p, FirstAt needle chunks.flatten p ∧ FirstBoundary chunks (p + needle.length) i := by
  have hpos : 0 < needle.length := List.length_pos_iff.2 hne
  rw [(new_after hne).firstMatch_found, List.nil_append, List.nil_append, flatten_take chunks (i + 1), flatten_take chunks i]
  constructor
  · rintro ⟨hlt, hin, hnone⟩
    obtain ⟨p, hp⟩ := exists_firstAt (hin.trans (List.take_prefix _ _).isInfix)
    rw [infix_take_iff hp] at hin hnone
    refine ⟨p, hp, hlt, hin, fun j hj => lt_of_le_of_lt ?_ (Nat.not_le.1 hnone)⟩
    exact flatten_take_length_mono chunks hj
  · rintro ⟨p, hp, hlt, hreached, hbefore⟩
    rw [infix_take_iff hp, infix_take_iff hp]
    refine ⟨hlt, hreached, Nat.not_le.2 ?_⟩
    cases i with
    | zero =>
      rw [List.take_zero, List.flatten_nil, List.length_nil]
      omega
    | succ i => exact hbefore i (Nat.lt_succ_self i)

def abNeedle : Bytes := [97, 98]

/-- A needle that is cut in the middle. -/
theorem firstMatch_cut : (new abNeedle).firstMatch [[120, 97], [98, 121]] = some 1 ↔
    ∃ p, FirstAt abNeedle [[120, 97], [98, 121]].flatten p ∧
      FirstBoundary [[120, 97], [98, 121]] (p + abNeedle.length) 1 :=
  firstMatch_iff (by decide) _ _

end UntilWatcher

end Hyoui.Daemon
