import Mathlib.Data.List.Basic
import Mathlib.Tactic.Common
/-!
# Glob patterns

A pattern over any alphabet in which `many` stands for any run and `one` for exactly one letter. `glob` is
the recursive matcher and `Matches` what it decides. `Fill` reads a pattern as letters with wildcard runs
between them, each of which asks only for the size of what it covers: patterns over characters and over
their codes differ in that size and in nothing else (`matches_flatMap`). `touches` follows the matcher and
says whether a `one` of the pattern is ever held against part of a longer code; while it is not, matching codes
is matching letters (`glob_untouched`).
-/

namespace Hyoui.Lib.Glob

variable {α β : Type}

/-! ## Matching -/

inductive Matches (many one : α) : List α → List α → Prop where
  | nil : Matches many one [] []
  | many {p s : List α} (run : List α) : Matches many one p s → Matches many one (many :: p) (run ++ s)
  | one {p s : List α} (a : α) : Matches many one p s → Matches many one (one :: p) (a :: s)
  | letter {p s : List α} {a : α} :
    a ≠ many → a ≠ one → Matches many one p s → Matches many one (a :: p) (a :: s)

section Letters
variable {many one a b : α} {p s rest : List α}

theorem matches_nil : Matches many one [] s ↔ s = [] := by
  constructor
  · rintro ⟨⟩
    rfl
  · rintro rfl
    exact .nil

theorem matches_many (h : many ≠ one) :
    Matches many one (many :: p) s ↔ ∃ run rest, s = run ++ rest ∧ Matches many one p rest := by
  constructor
  · intro hm
    cases hm with
    | many run hrest => exact ⟨run, _, rfl, hrest⟩
    | one => exact absurd rfl h
    | letter hne => exact absurd rfl hne
  · rintro ⟨run, rest, rfl, hrest⟩
    exact .many run hrest

theorem matches_one (h : many ≠ one) :
    Matches many one (one :: p) s ↔ ∃ b rest, s = b :: rest ∧ Matches many one p rest := by
  constructor
  · intro hm
    cases hm with
    | many => exact absurd rfl h
    | one b hrest => exact ⟨b, _, rfl, hrest⟩
    | letter _ hne => exact absurd rfl hne
  · rintro ⟨b, rest, rfl, hrest⟩
    exact .one b hrest

theorem matches_letter (hmany : a ≠ many) (hone : a ≠ one) :
    Matches many one (a :: p) s ↔ ∃ rest, s = a :: rest ∧ Matches many one p rest := by
  constructor
  · intro hm
    cases hm with
    | many => exact absurd rfl hmany
    | one => exact absurd rfl hone
    | letter _ _ hrest => exact ⟨_, rfl, hrest⟩
  · rintro ⟨rest, rfl, hrest⟩
    exact .letter hmany hone hrest

/-- A run is empty, or takes one letter and goes on. -/
theorem matches_many_step (h : many ≠ one) :
    Matches many one (many :: p) s ↔
      Matches many one p s ∨ ∃ b rest, s = b :: rest ∧ Matches many one (many :: p) rest := by
  rw [matches_many h]
  constructor
  · rintro ⟨run, rest, rfl, hrest⟩
    cases run with
    | nil => exact .inl hrest
    | cons b run => exact .inr ⟨b, run ++ rest, rfl, .many run hrest⟩
  · rintro (hp | ⟨b, rest, rfl, hrest⟩)
    · exact ⟨[], s, rfl, hp⟩
    · obtain ⟨run, rest, rfl, hp⟩ := (matches_many h).1 hrest
      exact ⟨b :: run, rest, rfl, hp⟩

/-- Letters in a row match themselves. -/
theorem matches_letters {l : List α} (hmany : many ∉ l) (hone : one ∉ l) :
    Matches many one (l ++ p) s ↔ ∃ rest, s = l ++ rest ∧ Matches many one p rest := by
  induction l generalizing s with
  | nil => simp
  | cons a l ih =>
    simp only [List.mem_cons, not_or] at hmany hone
    rw [List.cons_append, matches_letter (Ne.symm hmany.1) (Ne.symm hone.1)]
    constructor
    · rintro ⟨t, rfl, ht⟩
      obtain ⟨rest, rfl, hrest⟩ := (ih hmany.2 hone.2).1 ht
      exact ⟨rest, rfl, hrest⟩
    · rintro ⟨rest, rfl, hrest⟩
      exact ⟨l ++ rest, rfl, (ih hmany.2 hone.2).2 ⟨rest, rfl, hrest⟩⟩

theorem matches_replicate_one (h : many ≠ one) {n : Nat} :
    Matches many one (List.replicate n one) s ↔ s.length = n := by
  induction n generalizing s with
  | zero => rw [List.replicate_zero, matches_nil, List.length_eq_zero_iff]
  | succ n ih =>
    rw [List.replicate_succ, matches_one h, List.length_eq_succ_iff]
    simp only [ih, eq_comm]

variable [DecidableEq α]

def glob (many one : α) : List α → List α → Bool
  | [], s => s.isEmpty
  | a :: p, s =>
    if a = many then
      if glob many one p s then true
      else
        match s with
        | [] => false
        | _ :: rest => glob many one (a :: p) rest
    else
      match s with
      | [] => false
      | b :: rest => if a = one then glob many one p rest else if b ≠ a then false else glob many one p rest
termination_by p s => p.length + s.length

/-- The matcher decides `Matches`. -/
theorem glob_iff (h : many ≠ one) : glob many one p s = true ↔ Matches many one p s := by
  induction p, s using glob.induct many one with
  | case1 s => rw [glob, matches_nil, List.isEmpty_iff]
  | case2 p s hp ihp =>
    rw [glob.eq_def, matches_many_step h, ← ihp]
    simp only [if_true, hp, true_or]
  | case3 p hp ihp =>
    rw [glob, if_pos rfl, if_neg hp, matches_many_step h, ← ihp]
    simp [hp]
  | case4 p b rest hp ihp ih =>
    rw [glob, if_pos rfl, if_neg hp, matches_many_step h, ← ihp]
    simp [hp, ih]
  | case5 a p hmany =>
    rw [glob, if_neg hmany]
    refine iff_of_false Bool.false_ne_true ?_
    by_cases hone : a = one
    · subst hone
      simp [matches_one h]
    · simp [matches_letter hmany hone]
  | case6 p b rest _ ih =>
    rw [glob, if_neg (Ne.symm h), matches_one h]
    simpa using ih
  | case7 a p hmany b rest hone hne =>
    rw [glob, if_neg hmany, matches_letter hmany hone]
    simp [hone, hne]
  | case8 a p hmany b rest hone _ ih =>
    rw [glob, if_neg hmany, matches_letter hmany hone]
    simp_all

end Letters

/-! ## Runs of wildcards -/

/-- Wildcards in a row: how many letters they take at least, and whether they may take more. -/
structure Run where
  free : Bool
  least : Nat

def Run.Fits (w : Run) (n : Nat) : Prop := if w.free then w.least ≤ n else n = w.least

/-- The first run, and every letter with the run that follows it. -/
def shape [DecidableEq β] (many one : β) : List β → Run × List (β × Run)
  | [] => (⟨false, 0⟩, [])
  | b :: p =>
    let (w, rest) := shape many one p
    if b = many then (⟨true, w.least⟩, rest)
    else if b = one then (⟨w.free, w.least + 1⟩, rest)
    else (⟨false, 0⟩, (b, w) :: rest)

/-- The text is the codes of the letters, with runs of the right length around them. -/
def Cover (enc : β → List α) : Run → List (β × Run) → List α → Prop
  | w, [], s => w.Fits s.length
  | w, (b, w') :: rest, s => ∃ x y, s = x ++ (enc b ++ y) ∧ w.Fits x.length ∧ Cover enc w' rest y

/-- The same over the letters themselves, `size` being what a run is measured by. -/
def Fill (size : List β → Nat) : Run → List (β × Run) → List β → Prop
  | w, [], s => w.Fits (size s)
  | w, (b, w') :: rest, s => ∃ x y, s = x ++ b :: y ∧ w.Fits (size x) ∧ Fill size w' rest y

/-- A code in which the wildcards are letters of their own. -/
structure Encodes (enc : β → List α) (many one : β) (many' one' : α) : Prop where
  enc_many : enc many = [many']
  enc_one : enc one = [one']
  letter : ∀ b, b ≠ many → b ≠ one → many' ∉ enc b ∧ one' ∉ enc b

/-- The code of a letter stands in a text only where the letter does. -/
def Aligned (enc : β → List α) : Prop :=
  ∀ t x b y, t.flatMap enc = x ++ (enc b ++ y) →
    ∃ t₁ t₂, t = t₁ ++ b :: t₂ ∧ x = t₁.flatMap enc ∧ y = t₂.flatMap enc

theorem Aligned.eq_of_mem {enc : β → List α} (h : Aligned enc) {b c : β} {a : α} (hc : enc c = [a]) (ha : a ∈ enc b) :
    b = c := by
  obtain ⟨x, y, hxy⟩ := List.append_of_mem ha
  obtain ⟨t₁, t₂, ht, -⟩ := h [b] x c y (by simp [hc, hxy])
  cases t₁ with
  | nil =>
    cases ht
    rfl
  | cons b' t₁ => simp at ht

/-- Wildcards whose code is one letter are letters of their own. -/
theorem Aligned.encodes {enc : β → List α} (h : Aligned enc) {many one : β} {many' one' : α}
    (hmany : enc many = [many']) (hone : enc one = [one']) : Encodes enc many one many' one' :=
  ⟨hmany, hone, fun _ hne hne' => ⟨fun hin => hne (h.eq_of_mem hmany hin), fun hin => hne' (h.eq_of_mem hone hin)⟩⟩

section Runs
variable {enc : β → List α} {w : Run} {rest : List (β × Run)} {s : List α}

theorem Run.Fits.least_le {n : Nat} (h : w.Fits n) : w.least ≤ n := by
  unfold Run.Fits at h
  split at h <;> omega

theorem Run.fits_least : w.Fits w.least := by
  unfold Run.Fits
  split <;> omega

/-- What a free run covers is any text with a part at its end that fits. -/
theorem Run.fits_free : Run.Fits ⟨true, w.least⟩ s.length ↔ ∃ run t, s = run ++ t ∧ w.Fits t.length := by
  constructor
  · intro h
    have hle : w.least ≤ s.length := h.least_le
    refine ⟨s.take (s.length - w.least), s.drop (s.length - w.least), (List.take_append_drop ..).symm, ?_⟩
    rw [List.length_drop, Nat.sub_sub_self hle]
    exact w.fits_least
  · rintro ⟨run, t, rfl, ht⟩
    have hle := ht.least_le
    simp only [Run.Fits, if_true, List.length_append]
    omega

theorem Run.fits_succ : Run.Fits ⟨w.free, w.least + 1⟩ s.length ↔ ∃ a t, s = a :: t ∧ w.Fits t.length := by
  cases s with
  | nil => simp [Run.Fits]
  | cons a s => simp [Run.Fits]

theorem cover_free :
    Cover enc ⟨true, w.least⟩ rest s ↔ ∃ run t, s = run ++ t ∧ Cover enc w rest t := by
  cases rest with
  | nil => exact Run.fits_free
  | cons first rest =>
    obtain ⟨b, w'⟩ := first
    constructor
    · rintro ⟨x, y, rfl, hx, hy⟩
      obtain ⟨run, t, rfl, ht⟩ := Run.fits_free.1 hx
      exact ⟨run, t ++ (enc b ++ y), by simp, t, y, rfl, ht, hy⟩
    · rintro ⟨run, t, rfl, x, y, rfl, hx, hy⟩
      exact ⟨run ++ x, y, by simp, Run.fits_free.2 ⟨run, x, rfl, hx⟩, hy⟩

theorem cover_succ :
    Cover enc ⟨w.free, w.least + 1⟩ rest s ↔ ∃ a t, s = a :: t ∧ Cover enc w rest t := by
  cases rest with
  | nil => exact Run.fits_succ
  | cons first rest =>
    obtain ⟨b, w'⟩ := first
    constructor
    · rintro ⟨x, y, rfl, hx, hy⟩
      obtain ⟨a, t, rfl, ht⟩ := Run.fits_succ.1 hx
      exact ⟨a, t ++ (enc b ++ y), rfl, t, y, rfl, ht, hy⟩
    · rintro ⟨a, t, rfl, x, y, rfl, hx, hy⟩
      exact ⟨a :: x, y, rfl, Run.fits_succ.2 ⟨a, x, rfl, hx⟩, hy⟩

theorem cover_letter {b : β} :
    Cover enc ⟨false, 0⟩ ((b, w) :: rest) s ↔ ∃ t, s = enc b ++ t ∧ Cover enc w rest t := by
  constructor
  · rintro ⟨x, y, rfl, hx, hy⟩
    obtain rfl : x = [] := List.length_eq_zero_iff.1 hx
    exact ⟨y, rfl, hy⟩
  · rintro ⟨t, rfl, ht⟩
    exact ⟨[], t, rfl, rfl, ht⟩

theorem matches_iff_cover [DecidableEq β] {many one : β} {many' one' : α} (henc : Encodes enc many one many' one')
    (h : many ≠ one) (h' : many' ≠ one') {p : List β} :
    Matches many' one' (p.flatMap enc) s ↔ Cover enc (shape many one p).1 (shape many one p).2 s := by
  induction p generalizing s with
  | nil => rw [List.flatMap_nil, matches_nil]; exact List.length_eq_zero_iff.symm
  | cons b p ih =>
    rw [List.flatMap_cons, shape]
    by_cases hmany : b = many
    · subst hmany
      simp only [henc.enc_many, List.singleton_append, matches_many h', ih, if_true, cover_free]
    · by_cases hone : b = one
      · subst hone
        simp only [henc.enc_one, List.singleton_append, matches_one h', ih, if_neg hmany, if_true, cover_succ]
      · obtain ⟨hm, ho⟩ := henc.letter b hmany hone
        simp only [matches_letters hm ho, ih, if_neg hmany, if_neg hone, cover_letter]

theorem cover_flatMap (halign : Aligned enc) {t : List β} :
    Cover enc w rest (t.flatMap enc) ↔ Fill (fun x => (x.flatMap enc).length) w rest t := by
  induction rest generalizing w t with
  | nil => exact Iff.rfl
  | cons first rest ih =>
    obtain ⟨b, w'⟩ := first
    constructor
    · rintro ⟨x, y, ht, hx, hy⟩
      obtain ⟨t₁, t₂, rfl, rfl, rfl⟩ := halign t x b y ht
      exact ⟨t₁, t₂, rfl, hx, ih.1 hy⟩
    · rintro ⟨x, y, rfl, hx, hy⟩
      exact ⟨x.flatMap enc, y.flatMap enc, by simp, hx, ih.2 hy⟩

end Runs

section Sizes
variable [DecidableEq β] {many one : β} {p t : List β} {w : Run} {rest : List (β × Run)}

/-- On codes a pattern asks for lengths of codes. -/
theorem matches_flatMap {enc : β → List α} {many' one' : α} (henc : Encodes enc many one many' one')
    (halign : Aligned enc) (h : many ≠ one) (h' : many' ≠ one') :
    Matches many' one' (p.flatMap enc) (t.flatMap enc) ↔
      Fill (fun x => (x.flatMap enc).length) (shape many one p).1 (shape many one p).2 t := by
  rw [matches_iff_cover henc h h', cover_flatMap halign]

theorem matches_iff_fill (h : many ≠ one) :
    Matches many one p t ↔ Fill List.length (shape many one p).1 (shape many one p).2 t := by
  have henc : Encodes (fun b : β => [b]) many one many one :=
    ⟨rfl, rfl, fun b hmany hone => ⟨by simpa using Ne.symm hmany, by simpa using Ne.symm hone⟩⟩
  have halign : Aligned fun b : β => [b] := by
    intro t x b y ht
    exact ⟨x, y, by simpa using ht, by simp, by simp⟩
  simpa using matches_flatMap (p := p) (t := t) henc halign h h

omit [DecidableEq β] in
/-- Two sizes on which every run agrees let the same texts through. -/
theorem fill_congr {size size' : List β → Nat}
    (h : ∀ x, x <:+: t → ∀ v ∈ w :: rest.map Prod.snd, v.Fits (size x) ↔ v.Fits (size' x)) :
    Fill size w rest t ↔ Fill size' w rest t := by
  induction rest generalizing w t with
  | nil => exact h t (List.infix_refl t) w (List.mem_singleton_self w)
  | cons first rest ih =>
    obtain ⟨b, w'⟩ := first
    have hpart : ∀ x y, t = x ++ b :: y → (w.Fits (size x) ∧ Fill size w' rest y ↔
        w.Fits (size' x) ∧ Fill size' w' rest y) := by
      rintro x y rfl
      have hy : y <:+: x ++ b :: y := ⟨x ++ [b], [], by simp⟩
      refine and_congr (h x ⟨[], b :: y, by simp⟩ w List.mem_cons_self) (ih fun z hz v hv => ?_)
      exact h z (hz.trans hy) v (List.mem_cons_of_mem _ hv)
    constructor
    · rintro ⟨x, y, ht, hxy⟩
      exact ⟨x, y, ht, (hpart x y ht).1 hxy⟩
    · rintro ⟨x, y, ht, hxy⟩
      exact ⟨x, y, ht, (hpart x y ht).2 hxy⟩

/-! ### A text for every shape -/

theorem mem_of_mem_shape {q : β × Run} (h : q ∈ (shape many one p).2) : q.1 ∈ p := by
  induction p with
  | nil => cases h
  | cons b p ih =>
    rw [shape] at h
    dsimp only at h
    split at h
    · exact List.mem_cons_of_mem _ (ih h)
    · split at h
      · exact List.mem_cons_of_mem _ (ih h)
      · rcases List.mem_cons.1 h with rfl | h
        · exact List.mem_cons_self
        · exact List.mem_cons_of_mem _ (ih h)

/-- The letters of a shape, with `j` copies of `z` for each run. -/
def sample (z : β) (j : Run → Nat) : Run → List (β × Run) → List β
  | w, [] => List.replicate (j w) z
  | w, (b, w') :: rest => List.replicate (j w) z ++ b :: sample z j w' rest

/-- How many letters are not `z`. -/
def apart (z : β) (t : List β) : Nat := t.countP (· != z)

theorem apart_append {z : β} {x y : List β} : apart z (x ++ y) = apart z x + apart z y := List.countP_append

theorem apart_cons {z b : β} (h : b ≠ z) : apart z (b :: t) = apart z t + 1 := by simp [apart, h]

theorem apart_replicate {z : β} {n : Nat} : apart z (List.replicate n z) = 0 := by simp [apart]

theorem eq_replicate_of_apart {z : β} (h : apart z t = 0) : t = List.replicate t.length z := by
  rw [List.eq_replicate_iff]
  refine ⟨rfl, fun a ha => ?_⟩
  simpa using List.countP_eq_zero.1 h a ha

theorem Fill.apart {size : List β → Nat} {z : β} (hz : ∀ q ∈ rest, q.1 ≠ z) (h : Fill size w rest t) :
    rest.length ≤ apart z t := by
  induction rest generalizing w t with
  | nil => exact Nat.zero_le _
  | cons first rest ih =>
    rw [List.forall_mem_cons] at hz
    obtain ⟨x, y, rfl, -, hy⟩ := h
    have hle := ih hz.2 hy
    rw [apart_append, apart_cons hz.1, List.length_cons]
    omega

theorem apart_sample {z : β} {j : Run → Nat} (hz : ∀ q ∈ rest, q.1 ≠ z) :
    apart z (sample z j w rest) = rest.length := by
  induction rest generalizing w with
  | nil => exact apart_replicate
  | cons first rest ih =>
    rw [List.forall_mem_cons] at hz
    rw [sample, apart_append, apart_cons hz.1, apart_replicate, ih hz.2, List.length_cons]
    omega

/-- With a letter that is not the shape's own, there is one way to read its sample. -/
theorem fill_sample {size : List β → Nat} {z : β} {j : Run → Nat} (hz : ∀ q ∈ rest, q.1 ≠ z) :
    Fill size w rest (sample z j w rest) ↔
      ∀ v ∈ w :: rest.map Prod.snd, v.Fits (size (List.replicate (j v) z)) := by
  induction rest generalizing w with
  | nil => simp [Fill, sample]
  | cons first rest ih =>
    obtain ⟨b, w'⟩ := first
    have hall := hz
    rw [List.forall_mem_cons] at hz
    have hb : b ≠ z := hz.1
    rw [List.map_cons, List.forall_mem_cons, ← ih hz.2]
    constructor
    · rintro ⟨x, y, heq, hx, hy⟩
      have hcount := apart_sample (w := w) (j := j) hall
      have hcounty := hy.apart hz.2
      rw [heq, apart_append, apart_cons hb, List.length_cons] at hcount
      -- every letter of the sample is taken by a letter of the shape, so nothing but `z` is left for the run
      have hxz := eq_replicate_of_apart (z := z) (t := x) (by omega)
      rw [hxz, sample] at heq
      have htake : ∀ n (l : List β), (List.replicate n z ++ b :: l).takeWhile (· = z) = List.replicate n z := by
        intro n l
        rw [List.takeWhile_append_of_pos (by simp)]
        simp [hb]
      have hrep := congrArg (List.takeWhile (· = z)) heq
      rw [htake, htake] at hrep
      rw [hrep, List.append_cancel_left_eq, List.cons.injEq] at heq
      rw [hxz, ← hrep] at hx
      exact ⟨hx, heq.2 ▸ hy⟩
    · rintro ⟨hw, hrest⟩
      exact ⟨_, _, rfl, hw, hrest⟩

end Sizes

/-- A run that only asks whether it covers anything. -/
def Run.Plain (w : Run) : Prop := w.least = 0 ∨ w.free ∧ w.least = 1

theorem Run.Plain.fits_iff {w : Run} (h : w.Plain) {m n : Nat} (hzero : m = 0 ↔ n = 0) : w.Fits m ↔ w.Fits n := by
  obtain ⟨free, least⟩ := w
  rcases h with h | ⟨hfree, h⟩ <;> simp only at h
  · subst h
    cases free <;> simp [Run.Fits, hzero]
  · simp only at hfree
    subst h hfree
    simp only [Run.Fits, if_true]
    omega

/-! ## Where the wildcard for one letter comes to stand -/

section Touches
variable [DecidableEq α]

/-- Some `one` of the pattern is held against a wide letter before `glob` has its answer. -/
def touches (many one : α) (wide : α → Bool) : List α → List α → Bool
  | [], _ => false
  | a :: p, s =>
    if a = many then
      if touches many one wide p s then true
      else if glob many one p s then false
      else
        match s with
        | [] => false
        | _ :: rest => touches many one wide (a :: p) rest
    else
      match s with
      | [] => false
      | b :: rest =>
        if a = one then wide b || touches many one wide p rest
        else if b ≠ a then false
        else touches many one wide p rest
termination_by p s => p.length + s.length

variable {many one a b : α} {wide : α → Bool} {p s rest l : List α}

theorem glob_many : glob many one (many :: p) s =
    (glob many one p s || match s with | [] => false | _ :: rest => glob many one (many :: p) rest) := by
  rw [glob.eq_def]
  simp only [if_true]
  cases glob many one p s <;> cases s <;> rfl

theorem touches_many : touches many one wide (many :: p) s =
    (touches many one wide p s || !glob many one p s &&
      match s with | [] => false | _ :: rest => touches many one wide (many :: p) rest) := by
  rw [touches.eq_def]
  simp only [if_true]
  cases touches many one wide p s <;> cases glob many one p s <;> cases s <;> rfl

theorem glob_one (h : many ≠ one) : glob many one (one :: p) (b :: rest) = glob many one p rest := by
  rw [glob, if_neg (Ne.symm h), if_pos rfl]

theorem touches_one (h : many ≠ one) :
    touches many one wide (one :: p) (b :: rest) = (wide b || touches many one wide p rest) := by
  rw [touches, if_neg (Ne.symm h), if_pos rfl]

theorem glob_letters (hmany : many ∉ l) (hone : one ∉ l) : glob many one (l ++ p) (l ++ s) = glob many one p s := by
  induction l with
  | nil => rfl
  | cons a l ih =>
    simp only [List.mem_cons, not_or] at hmany hone
    rw [List.cons_append, List.cons_append, glob, if_neg (Ne.symm hmany.1), if_neg (Ne.symm hone.1), if_neg (by simp),
      ih hmany.2 hone.2]

theorem touches_letters (hmany : many ∉ l) (hone : one ∉ l) :
    touches many one wide (l ++ p) (l ++ s) = touches many one wide p s := by
  induction l with
  | nil => rfl
  | cons a l ih =>
    simp only [List.mem_cons, not_or] at hmany hone
    rw [List.cons_append, List.cons_append, touches, if_neg (Ne.symm hmany.1), if_neg (Ne.symm hone.1),
      if_neg (by simp), ih hmany.2 hone.2]

/-- Where a run is passed over, what comes after it is reached without touching a wide letter. -/
theorem untouched_many {run : List α} (h : touches many one wide (many :: p) (run ++ s) = false) :
    glob many one (many :: p) (run ++ s) = true ∨ touches many one wide p s = false ∧
      (glob many one p s = true → glob many one (many :: p) (run ++ s) = true) := by
  induction run with
  | nil =>
    rw [List.nil_append] at h ⊢
    rw [touches_many, Bool.or_eq_false_iff] at h
    refine .inr ⟨h.1, fun hp => ?_⟩
    rw [glob_many, hp, Bool.true_or]
  | cons b run ih =>
    rw [List.cons_append, touches_many, Bool.or_eq_false_iff] at h
    rw [List.cons_append, glob_many]
    cases hp : glob many one p (b :: (run ++ s)) with
    | true => exact .inl rfl
    | false =>
      rw [hp, Bool.not_false, Bool.true_and] at h
      simpa using ih h.2

/-- A run that lets the rest match, reached without touching a wide letter. -/
theorem exists_run (hglob : glob many one (many :: p) s = true) (h : touches many one wide (many :: p) s = false) :
    ∃ run rest, s = run ++ rest ∧ glob many one p rest = true ∧ touches many one wide p rest = false := by
  induction s with
  | nil =>
    rw [touches_many, Bool.or_eq_false_iff] at h
    rw [glob_many, Bool.or_false] at hglob
    exact ⟨[], [], rfl, hglob, h.1⟩
  | cons b s ih =>
    rw [touches_many, Bool.or_eq_false_iff] at h
    cases hp : glob many one p (b :: s) with
    | true => exact ⟨[], b :: s, rfl, hp, h.1⟩
    | false =>
      rw [glob_many, hp, Bool.false_or] at hglob
      rw [hp, Bool.not_false, Bool.true_and] at h
      obtain ⟨run, rest, rfl, hrest⟩ := ih hglob h.2
      exact ⟨b :: run, rest, rfl, hrest⟩

end Touches

/-! ### Letters and their codes -/

section Codes
variable {enc : β → List α} {many' one' : α} {wide : α → Bool} {s t : List β}

/-- The end of a code that is not all of it. -/
def Broken (enc : β → List α) (cut : List α) : Prop := ∃ b x, enc b = x ++ cut ∧ x ≠ []

theorem broken_nil {enc : β → List α} {b : β} (h : enc b ≠ []) : Broken enc [] := ⟨b, enc b, by simp, h⟩

theorem Aligned.whole (h : Aligned enc) {cut y : List α} {b : β} (hcut : Broken enc cut)
    (heq : cut ++ t.flatMap enc = enc b ++ y) : cut = [] := by
  obtain ⟨c, x, hc, hx⟩ := hcut
  obtain ⟨t₁, t₂, ht, hx', -⟩ := h (c :: t) x b y (by rw [List.flatMap_cons, hc, List.append_assoc, heq])
  cases t₁ with
  | nil => exact absurd hx' hx
  | cons c' t₁ =>
    obtain rfl := (List.cons.inj ht).1
    rw [List.flatMap_cons, hc] at hx'
    have hlen := congrArg List.length hx'
    rw [List.length_append, List.length_append] at hlen
    exact List.length_eq_zero_iff.1 (by omega)

/-- A part at the end of a coded text is the rest of a code and coded letters. -/
theorem broken_suffix (hne : ∀ b, enc b ≠ []) {cut run rest : List α} (hcut : Broken enc cut)
    (h : cut ++ t.flatMap enc = run ++ rest) :
    ∃ cut' t' t'', Broken enc cut' ∧ t = t'' ++ t' ∧ rest = cut' ++ t'.flatMap enc := by
  induction t generalizing cut run with
  | nil =>
    rw [List.flatMap_nil, List.append_nil] at h
    subst h
    obtain ⟨b, x, hb, hx⟩ := hcut
    exact ⟨rest, [], [], ⟨b, x ++ run, by rw [hb, List.append_assoc], by simp [hx]⟩, rfl, (List.append_nil _).symm⟩
  | cons c t ih =>
    rcases List.append_eq_append_iff.1 h with ⟨more, hrun, hrest⟩ | ⟨more, hcut', hrest⟩
    · -- the run ends in the coded letters
      rw [List.flatMap_cons] at hrest
      rcases List.append_eq_append_iff.1 hrest with ⟨more', hmore, hrest'⟩ | ⟨more', hc, hrest'⟩
      · have hsplit : [] ++ t.flatMap enc = more' ++ rest := by simpa using hrest'
        obtain ⟨cut', t', t'', hcut'', ht, hrest''⟩ := ih (broken_nil (hne c)) hsplit
        exact ⟨cut', t', c :: t'', hcut'', by rw [ht]; rfl, hrest''⟩
      · by_cases hmore : more = []
        · subst hmore
          rw [List.nil_append] at hc
          exact ⟨[], c :: t, [], ⟨c, enc c, by simp, hne c⟩, rfl, by rw [hrest', ← hc]; rfl⟩
        · exact ⟨more', t, [c], ⟨c, more, hc, hmore⟩, rfl, hrest'⟩
    · obtain ⟨b, x, hb, hx⟩ := hcut
      refine ⟨more, c :: t, [], ⟨b, x ++ run, by rw [hb, hcut', List.append_assoc], by simp [hx]⟩, rfl, hrest⟩

theorem Aligned.ne_nil (h : Aligned enc) (b : β) : enc b ≠ [] := by
  intro hb
  obtain ⟨t₁, t₂, ht, -⟩ := h [] [] b [] (by rw [hb]; rfl)
  cases t₁ <;> cases ht

variable [DecidableEq α] {many one : β} {p : List β}

section Untouched
variable (halign : Aligned enc) (henc : Encodes enc many one many' one') (h : many' ≠ one')
  (hwide : ∀ a, wide a = false → ∃ b, enc b = [a])
include halign henc h hwide

theorem matches_of_glob {cut : List α} (hcut : Broken enc cut)
    (htouch : touches many' one' wide (p.flatMap enc) (cut ++ t.flatMap enc) = false)
    (hglob : glob many' one' (p.flatMap enc) (cut ++ t.flatMap enc) = true) : Matches many one p t := by
  induction p generalizing cut t with
  | nil =>
    rw [List.flatMap_nil, glob, List.isEmpty_iff, List.append_eq_nil_iff] at hglob
    cases t with
    | nil => exact .nil
    | cons c t => exact absurd (List.append_eq_nil_iff.1 hglob.2).1 (halign.ne_nil c)
  | cons b p ih =>
    rw [List.flatMap_cons] at htouch hglob
    by_cases hmany : b = many
    · subst hmany
      rw [henc.enc_many, List.singleton_append] at htouch hglob
      obtain ⟨run, rest, hsplit, hrest, htouch'⟩ := exists_run hglob htouch
      obtain ⟨cut', t', t'', hcut', rfl, rfl⟩ := broken_suffix halign.ne_nil hcut hsplit
      exact .many t'' (ih hcut' htouch' hrest)
    · by_cases hone : b = one
      · subst hone
        rw [henc.enc_one, List.singleton_append] at htouch hglob
        cases hs : cut ++ t.flatMap enc with
        | nil => rw [hs, glob.eq_def] at hglob; simp [Ne.symm h] at hglob
        | cons a rest =>
          rw [hs, touches_one h, Bool.or_eq_false_iff] at htouch
          rw [hs, glob_one h] at hglob
          obtain ⟨c, hc⟩ := hwide a htouch.1
          obtain rfl := halign.whole hcut (b := c) (y := rest) (by rw [hs, hc]; rfl)
          rw [List.nil_append] at hs
          obtain ⟨t₁, t₂, rfl, ht₁, rfl⟩ := halign t [] c rest (by rw [hs, hc]; rfl)
          cases t₁ with
          | cons c' t₁ => exact absurd (List.append_eq_nil_iff.1 ht₁.symm).1 (halign.ne_nil c')
          | nil => exact .one c (ih (broken_nil (halign.ne_nil c)) htouch.2 hglob)
      · obtain ⟨hm, ho⟩ := henc.letter b hmany hone
        have hmatch := (glob_iff h).1 hglob
        obtain ⟨rest, hs, -⟩ := (matches_letters hm ho).1 hmatch
        obtain rfl := halign.whole hcut hs
        rw [List.nil_append] at hs htouch hglob
        obtain ⟨t₁, t₂, rfl, ht₁, rfl⟩ := halign t [] b rest hs
        cases t₁ with
        | cons c' t₁ => exact absurd (List.append_eq_nil_iff.1 ht₁.symm).1 (halign.ne_nil c')
        | nil =>
          rw [hs, touches_letters hm ho] at htouch
          rw [hs, glob_letters hm ho] at hglob
          exact .letter hmany hone (ih (broken_nil (halign.ne_nil b)) htouch hglob)

theorem glob_of_matches (hm : Matches many one p t)
    (htouch : touches many' one' wide (p.flatMap enc) (t.flatMap enc) = false) :
    glob many' one' (p.flatMap enc) (t.flatMap enc) = true := by
  induction hm with
  | nil => rw [List.flatMap_nil, glob, List.isEmpty_nil]
  | many run _ ih =>
    rw [List.flatMap_cons, henc.enc_many, List.singleton_append, List.flatMap_append] at htouch ⊢
    rcases untouched_many htouch with hglob | ⟨htouch', hglob⟩
    · exact hglob
    · exact hglob (ih htouch')
  | @one p s a _ ih =>
    rw [List.flatMap_cons, henc.enc_one, List.singleton_append, List.flatMap_cons] at htouch ⊢
    cases ha : enc a with
    | nil => exact absurd ha (halign.ne_nil a)
    | cons x more =>
      rw [ha, List.cons_append, touches_one h, Bool.or_eq_false_iff] at htouch
      obtain ⟨c, hc⟩ := hwide x htouch.1
      obtain rfl := halign.eq_of_mem hc (ha ▸ List.mem_cons_self)
      obtain rfl : more = [] := (List.cons.inj (ha.symm.trans hc)).2
      rw [List.cons_append, glob_one h]
      exact ih htouch.2
  | letter hmany hone _ ih =>
    obtain ⟨hm, ho⟩ := henc.letter _ hmany hone
    rw [List.flatMap_cons, List.flatMap_cons, touches_letters hm ho] at htouch
    rw [List.flatMap_cons, List.flatMap_cons, glob_letters hm ho]
    exact ih htouch

/-- While no wildcard is held against a wide letter, the matcher of codes decides what letters match. -/
theorem glob_untouched (htouch : touches many' one' wide (p.flatMap enc) (t.flatMap enc) = false) :
    glob many' one' (p.flatMap enc) (t.flatMap enc) = true ↔ Matches many one p t :=
  ⟨matches_of_glob halign henc h hwide (broken_nil (halign.ne_nil many)) htouch,
    fun hm => glob_of_matches halign henc h hwide hm htouch⟩

end Untouched

end Codes
/-! ## UTF-8 -/

section Utf8

theorem utf8_prefix {b c : Char} {x y : List UInt8}
    (h : String.utf8EncodeChar b ++ x = String.utf8EncodeChar c ++ y) : b = c := by
  have hbytes := congrArg (fun l => ByteArray.utf8DecodeChar? (List.toByteArray l) 0) h
  simp only [List.toByteArray_append, ByteArray.utf8DecodeChar?_utf8EncodeChar_append] at hbytes
  exact Option.some.inj hbytes

/-- Only the first byte of a character can be the first byte of one. -/
theorem utf8_aligned : Aligned String.utf8EncodeChar := by
  intro t
  induction t with
  | nil =>
    intro x b y h
    have hne := @String.utf8EncodeChar_ne_nil b
    simp_all
  | cons c t ih =>
    intro x b y h
    rw [List.flatMap_cons] at h
    by_cases hx : x = []
    · subst hx
      obtain rfl := utf8_prefix h
      exact ⟨[], t, rfl, rfl, (List.append_cancel_left h).symm⟩
    · have hle : (String.utf8EncodeChar c).length ≤ x.length := by
        by_contra hlt
        rw [Nat.not_le] at hlt
        have hb : 0 < (String.utf8EncodeChar b).length := List.length_pos_of_ne_nil String.utf8EncodeChar_ne_nil
        have hget : (String.utf8EncodeChar c)[x.length] = (String.utf8EncodeChar b)[0] := by
          have hat := congrArg (·[x.length]?) h
          simp only [List.getElem?_append_left hlt, List.getElem?_append_right (Nat.le_refl _), Nat.sub_self,
            List.getElem?_append_left hb, List.getElem?_eq_getElem hlt, List.getElem?_eq_getElem hb] at hat
          exact Option.some.inj hat
        have hfirst : ((String.utf8EncodeChar b)[0]).IsUTF8FirstByte := by simp
        rw [← hget, UInt8.isUTF8FirstByte_getElem_utf8EncodeChar] at hfirst
        exact hx (List.length_eq_zero_iff.1 hfirst)
      obtain ⟨x', rfl⟩ := List.prefix_of_prefix_length_le ⟨_, h⟩ (List.prefix_append x _) hle
      rw [List.append_assoc] at h
      obtain ⟨t₁, t₂, rfl, rfl, rfl⟩ := ih x' b y (List.append_cancel_left h)
      exact ⟨c :: t₁, t₂, rfl, rfl, rfl⟩

end Utf8

end Hyoui.Lib.Glob
