import Mathlib.Data.Int.ConditionallyCompleteOrder
import Mathlib.Data.Prod.Lex
import Mathlib.Order.SuccPred.Archimedean
import Mathlib.Tactic.IntervalCases
/-!
# The Gregorian calendar, and times written with fixed widths

The proleptic Gregorian calendar by its rules: the leap years, the lengths of the months and the day that follows a
day. A count of the days that goes from each day to the next keeps their order. Numerals of one width have the order
of their values.
-/

namespace Hyoui.Lib.Calendar

/-! ## The calendar -/

def isLeap (year : Int) : Bool := 4 ∣ year ∧ (¬ 100 ∣ year ∨ 400 ∣ year)

def monthLength (year : Int) : Nat → Nat
  | 2 => if isLeap year then 29 else 28
  | 4 | 6 | 9 | 11 => 30
  | _ => 31

structure Date where
  year : Int
  month : Nat
  day : Nat
  month_pos : 1 ≤ month
  month_le : month ≤ 12
  day_pos : 1 ≤ day
  day_le : day ≤ monthLength year month

theorem monthLength_pos (year : Int) (month : Nat) : 1 ≤ monthLength year month := by
  unfold monthLength
  split
  · split <;> decide
  all_goals decide

theorem monthLength_le (year : Int) (month : Nat) : monthLength year month ≤ 31 := by
  unfold monthLength
  split
  · split <;> decide
  all_goals decide

namespace Date

/-- The day that follows. -/
def next (date : Date) : Date :=
  if h : date.day < monthLength date.year date.month then
    { date with
      day := date.day + 1
      day_pos := by omega
      day_le := h }
  else if h' : date.month < 12 then
    { year := date.year
      month := date.month + 1
      day := 1
      month_pos := by omega
      month_le := h'
      day_pos := le_refl 1
      day_le := monthLength_pos .. }
  else
    { year := date.year + 1
      month := 1
      day := 1
      month_pos := le_refl 1
      month_le := by decide
      day_pos := le_refl 1
      day_le := monthLength_pos .. }

/-- Dates are ordered by year, month and day. -/
def key (date : Date) : Int ×ₗ Nat ×ₗ Nat := toLex (date.year, toLex (date.month, date.day))

variable {a b : Date}

@[ext] theorem ext (hyear : a.year = b.year) (hmonth : a.month = b.month) (hday : a.day = b.day) : a = b := by
  cases a
  cases b
  simp_all

theorem key_lt : a.key < b.key ↔
    a.year < b.year ∨ a.year = b.year ∧ (a.month < b.month ∨ a.month = b.month ∧ a.day < b.day) := by
  rw [key, key, Prod.Lex.toLex_lt_toLex, Prod.Lex.toLex_lt_toLex]

theorem key_lt_next (date : Date) : date.key < date.next.key := by
  rw [key_lt]
  unfold next
  split
  · exact .inr ⟨rfl, .inr ⟨rfl, Nat.lt_succ_self _⟩⟩
  · split
    · exact .inr ⟨rfl, .inl (Nat.lt_succ_self _)⟩
    · exact .inl (Int.lt_succ _)

end Date

/-- A calendar in which each day is followed by its successor. -/
theorem strictMono_of_next {dateOf : Int → Date} (hnext : ∀ day, dateOf (day + 1) = (dateOf day).next) :
    StrictMono fun day => (dateOf day).key := by
  apply strictMono_int_of_lt_succ
  intro day
  rw [hnext]
  exact (dateOf day).key_lt_next

theorem injective_of_next {dateOf : Int → Date} (hnext : ∀ day, dateOf (day + 1) = (dateOf day).next) :
    Function.Injective dateOf := by
  intro a b h
  exact (strictMono_of_next hnext).injective (congrArg Date.key h)

/-! ## Numerals -/

/-- A number in at least so many digits. -/
def numeral (width n : Nat) : List Char :=
  List.replicate (width - (Nat.toDigits 10 n).length) '0' ++ Nat.toDigits 10 n

section Numerals
variable {cs ds xs ys : List Char} {c d : Char} {a b n m width : Nat}

theorem toNat_digit (hc : c.isDigit) : 48 ≤ c.toNat ∧ c.toNat ≤ 57 := by
  simp only [Char.isDigit, Bool.and_eq_true, decide_eq_true_eq] at hc
  exact hc

/-- What stands further to the left decides. -/
theorem ofDigitChars_lt (hlen : cs.length = ds.length) (hcs : ∀ c ∈ cs, c.isDigit) (hds : ∀ c ∈ ds, c.isDigit)
    (h : a < b) : Nat.ofDigitChars 10 cs a < Nat.ofDigitChars 10 ds b := by
  induction cs generalizing ds a b with
  | nil =>
    cases ds with
    | nil => exact h
    | cons d ds => cases hlen
  | cons c cs ih =>
    cases ds with
    | nil => cases hlen
    | cons d ds =>
      rw [Nat.ofDigitChars_cons, Nat.ofDigitChars_cons]
      have hc := toNat_digit (hcs c List.mem_cons_self)
      refine ih (Nat.succ.inj hlen) (fun c hc => hcs c (List.mem_cons_of_mem _ hc))
        (fun c hc => hds c (List.mem_cons_of_mem _ hc)) ?_
      have hzero : '0'.toNat = 48 := rfl
      omega

/-- Texts of digits of one length have the order of their values. -/
theorem digits_lt (hlen : cs.length = ds.length) (hcs : ∀ c ∈ cs, c.isDigit) (hds : ∀ c ∈ ds, c.isDigit) (a : Nat) :
    cs < ds ↔ Nat.ofDigitChars 10 cs a < Nat.ofDigitChars 10 ds a := by
  induction cs generalizing ds a with
  | nil =>
    cases ds with
    | nil => simp
    | cons d ds => cases hlen
  | cons c cs ih =>
    cases ds with
    | nil => cases hlen
    | cons d ds =>
      have hlen' := Nat.succ.inj hlen
      have hcs' := fun c hc => hcs c (List.mem_cons_of_mem _ hc)
      have hds' := fun c hc => hds c (List.mem_cons_of_mem _ hc)
      have hc := toNat_digit (hcs c List.mem_cons_self)
      have hd := toNat_digit (hds d List.mem_cons_self)
      have hzero : '0'.toNat = 48 := rfl
      rw [List.cons_lt_cons_iff, Nat.ofDigitChars_cons, Nat.ofDigitChars_cons]
      rcases lt_trichotomy c.toNat d.toNat with hlt | heq | hgt
      · have hvalue := ofDigitChars_lt hlen' hcs' hds' (a := 10 * a + (c.toNat - 48)) (b := 10 * a + (d.toNat - 48))
          (by omega)
        exact iff_of_true (.inl hlt) hvalue
      · rw [Char.toNat_inj] at heq
        subst heq
        rw [← ih hlen' hcs' hds']
        simp
      · have hvalue := ofDigitChars_lt hlen'.symm hds' hcs' (a := 10 * a + (d.toNat - 48))
          (b := 10 * a + (c.toNat - 48)) (by omega)
        refine iff_of_false ?_ (lt_asymm hvalue)
        rintro (hlt | ⟨rfl, -⟩)
        · exact lt_asymm hgt hlt
        · exact lt_irrefl _ hgt

theorem length_numeral (hwidth : 0 < width) (h : n < 10 ^ width) : (numeral width n).length = width := by
  have hlen := (Nat.length_toDigits_le_iff (by decide : 1 < 10) hwidth).2 h
  rw [numeral, List.length_append, List.length_replicate]
  omega

theorem numeral_digits (width n : Nat) : ∀ c ∈ numeral width n, c.isDigit := by
  intro c hc
  rcases List.mem_append.1 hc with hc | hc
  · rw [List.eq_of_mem_replicate hc]
    rfl
  · exact Nat.isDigit_of_mem_toDigits (by decide) (by decide) hc

theorem ofDigitChars_numeral (width n : Nat) : Nat.ofDigitChars 10 (numeral width n) 0 = n := by
  rw [numeral, Nat.ofDigitChars_append, Nat.ofDigitChars_replicate_zero, Nat.mul_zero, Nat.ofDigitChars_ten_toDigits]

theorem numeral_lt (hwidth : 0 < width) (hn : n < 10 ^ width) (hm : m < 10 ^ width) :
    numeral width n < numeral width m ↔ n < m := by
  have hlen := (length_numeral hwidth hn).trans (length_numeral hwidth hm).symm
  rw [digits_lt hlen (numeral_digits _ _) (numeral_digits _ _) 0, ofDigitChars_numeral, ofDigitChars_numeral]

theorem numeral_inj (h : numeral width n = numeral width m) : n = m := by
  rw [← ofDigitChars_numeral width n, h, ofDigitChars_numeral]

/-! ## Times -/

theorem append_lt_append (hlen : cs.length = ds.length) :
    cs ++ xs < ds ++ ys ↔ cs < ds ∨ cs = ds ∧ xs < ys := by
  induction cs generalizing ds with
  | nil =>
    cases ds with
    | nil => simp
    | cons d ds => cases hlen
  | cons c cs ih =>
    cases ds with
    | nil => cases hlen
    | cons d ds =>
      rw [List.cons_append, List.cons_append, List.cons_lt_cons_iff, List.cons_lt_cons_iff, ih (Nat.succ.inj hlen),
        List.cons.injEq]
      tauto

/-- Numbers of the given widths, each with the mark behind it. -/
def stamp : List (Nat × Char) → List Nat → List Char
  | (width, mark) :: shape, n :: values => numeral width n ++ mark :: stamp shape values
  | _, _ => []

/-- The numbers fit into their widths. -/
abbrev Fits (shape : List (Nat × Char)) (values : List Nat) : Prop :=
  List.Forall₂ (fun field n => 0 < field.1 ∧ n < 10 ^ field.1) shape values

/-- Stamps of one shape have the order of their numbers. -/
theorem stamp_lt {shape : List (Nat × Char)} {values values' : List Nat} (h : Fits shape values)
    (h' : Fits shape values') : stamp shape values < stamp shape values' ↔ values < values' := by
  induction h generalizing values' with
  | nil =>
    cases h'
    simp [stamp]
  | @cons field n shape values hn _ ih =>
    cases h' with
    | @cons _ m _ values' hm h' =>
      have hlen := (length_numeral hn.1 hn.2).trans (length_numeral hm.1 hm.2).symm
      rw [stamp, stamp, append_lt_append hlen, numeral_lt hn.1 hn.2 hm.2, List.cons_lt_cons_iff, List.cons_lt_cons_iff,
        ih h']
      constructor
      · rintro (hlt | ⟨heq, hmark | ⟨-, hrest⟩⟩)
        · exact .inl hlt
        · exact absurd hmark (Char.lt_irrefl _)
        · exact .inr ⟨numeral_inj heq, hrest⟩
      · rintro (hlt | ⟨rfl, hrest⟩)
        · exact .inl hlt
        · exact .inr ⟨rfl, .inr ⟨rfl, hrest⟩⟩

end Numerals

end Hyoui.Lib.Calendar
