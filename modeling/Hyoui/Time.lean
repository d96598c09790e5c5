import Hyoui.Lib.Calendar
import Mathlib.Data.Int.LeastGreatest
/-!
# Times in ISO 8601

`time.rs`: seconds from the epoch as a date and a time of day in UTC. The year is counted from March, so that a leap
day is the last day of its year; `marchStart` is where such a year begins, and every day is a number of days into a
month of such a year.
-/

namespace Hyoui.Time

open Hyoui.Lib.Calendar

/-! ## The code -/

/-- An `i64` becomes a `u32`. -/
def asU32 (n : Int) : Nat := (n % 2 ^ 32).toNat

/-- Year, month and day, of a number of days from the epoch. -/
def civilFromDays (days : Int) : Int × Nat × Nat :=
  let shifted := days + 719468
  let era := (if shifted ≥ 0 then shifted else shifted - 146096).tdiv 146097
  let dayOfEra := shifted - era * 146097
  let yearOfEra :=
    (dayOfEra - dayOfEra.tdiv 1460 + dayOfEra.tdiv 36524 - dayOfEra.tdiv 146096).tdiv 365
  let year := yearOfEra + era * 400
  let dayOfYear := dayOfEra - (365 * yearOfEra + yearOfEra.tdiv 4 - yearOfEra.tdiv 100)
  let monthPosition := (5 * dayOfYear + 2).tdiv 153
  let day := asU32 (dayOfYear - (153 * monthPosition + 2).tdiv 5 + 1)
  let month := asU32 (if monthPosition < 10 then monthPosition + 3 else monthPosition - 9)
  (year + if month ≤ 2 then 1 else 0, month, day)

/-- `{n:0width}` -/
def zeroPadded (width n : Nat) : String :=
  let digits := Nat.toDigits 10 n
  .ofList (List.replicate (width - digits.length) '0' ++ digits)

/-- `{n:0width}`, which counts the sign. -/
def padded (width : Nat) (n : Int) : String :=
  if n < 0 then "-" ++ zeroPadded (width - 1) n.natAbs else zeroPadded width n.toNat

def formatIso8601Utc (seconds : Int) : String :=
  let days := seconds / 86400
  let timeOfDay := seconds % 86400
  let (year, month, day) := civilFromDays days
  let hour := timeOfDay.tdiv 3600
  let minute := (timeOfDay.tmod 3600).tdiv 60
  let second := timeOfDay.tmod 60
  padded 4 year ++ "-" ++ padded 2 month ++ "-" ++ padded 2 day ++ "T" ++ padded 2 hour ++ ":" ++ padded 2 minute ++
    ":" ++ padded 2 second ++ "Z"

def formatUnixMsIso8601 (unixMs : Nat) : String := formatIso8601Utc (unixMs / 1000 : Nat)

/-! ## Years from March -/

/-- The first day of the year that begins in March `year`, in days from March of the year 0. -/
def marchStart (year : Int) : Int := 365 * year + year / 4 - year / 100 + year / 400

/-- The days before a month of a year from March. -/
def monthStart (position : Nat) : Nat := (153 * position + 2) / 5

def monthAt (position : Nat) : Nat := if position < 10 then position + 3 else position - 9

/-- The year on the calendar. -/
def yearAt (year : Int) (position : Nat) : Int := year + if monthAt position ≤ 2 then 1 else 0

/-- The day `days` is the day `day` of a month, counted from 0. -/
structure Falls (days year : Int) (position day : Nat) : Prop where
  position_le : position ≤ 11
  day_lt : day < monthLength (yearAt year position) (monthAt position)
  days_eq : days + 719468 = marchStart year + monthStart position + day

section Years
variable {days year dayOfYear : Int} {position day : Nat}

theorem marchStart_succ (year : Int) :
    marchStart (year + 1) = marchStart year + if isLeap (year + 1) then 366 else 365 := by
  unfold marchStart isLeap
  split <;> rename_i h <;> simp only [decide_eq_true_eq] at h <;> omega

/-- The months of a year follow each other. -/
theorem monthStart_succ (year : Int) (h : position ≤ 10) :
    monthStart (position + 1) = monthStart position + monthLength (yearAt year position) (monthAt position) := by
  interval_cases position <;> rfl

/-- February, which is the last month, ends with the year. -/
theorem marchStart_february (year : Int) :
    marchStart (year + 1) = marchStart year + monthStart 11 + monthLength (yearAt year 11) (monthAt 11) := by
  have hyear : yearAt year 11 = year + 1 := rfl
  have hmonth : monthAt 11 = 2 := rfl
  have hstart : monthStart 11 = 337 := rfl
  rw [marchStart_succ, hyear, hmonth, hstart, monthLength]
  split <;> omega

theorem monthStart_mono {a b : Nat} (h : a ≤ b) : monthStart a ≤ monthStart b := by
  unfold monthStart
  omega

/-- In the year counted on, the next month would begin after a day of this one. -/
theorem Falls.before_next (h : Falls days year position day) : monthStart position + day < monthStart (position + 1) := by
  have hday := h.day_lt
  rcases Nat.lt_or_ge position 11 with hlt | hge
  · have hnext := monthStart_succ year (Nat.le_of_lt_succ hlt)
    omega
  · obtain rfl : position = 11 := le_antisymm h.position_le hge
    have hend := marchStart_february year
    have hyear := marchStart_succ year
    have hnext : monthStart (11 + 1) = 367 := rfl
    split at hyear <;> omega

/-- A day of a month is a day of the year. -/
theorem Falls.lt (h : Falls days year position day) : days + 719468 < marchStart (year + 1) := by
  have hday := h.day_lt
  have hdays := h.days_eq
  rcases Nat.lt_or_ge position 11 with hlt | hge
  · have hnext := monthStart_succ year (Nat.le_of_lt_succ hlt)
    have hlast : monthStart (position + 1) ≤ monthStart 11 := monthStart_mono hlt
    have hyear := marchStart_february year
    omega
  · obtain rfl : position = 11 := le_antisymm h.position_le hge
    have hyear := marchStart_february year
    omega

/-- Every day falls on one of a month. -/
theorem exists_falls (days : Int) : ∃ year position day, Falls days year position day := by
  obtain ⟨year, hyear, hgreatest⟩ := Int.exists_greatest_of_bdd (P := fun year => marchStart year ≤ days + 719468)
    ⟨(days + 719468).natAbs, fun year h => by unfold marchStart at h; omega⟩
    ⟨-(days + 719468).natAbs - 1, by unfold marchStart; omega⟩
  have hlt : days + 719468 < marchStart (year + 1) := by
    by_contra hge
    have hle := hgreatest (year + 1) (not_lt.1 hge)
    omega
  obtain ⟨dayOfYear, hday⟩ := Int.eq_ofNat_of_zero_le (Int.sub_nonneg_of_le hyear)
  have hnext := marchStart_succ year
  obtain ⟨position, hposition⟩ : ∃ position, position = (5 * dayOfYear + 2) / 153 := ⟨_, rfl⟩
  have hle : position ≤ 11 := by
    split at hnext <;> omega
  have hstart : monthStart position ≤ dayOfYear := by
    unfold monthStart
    omega
  refine ⟨year, position, dayOfYear - monthStart position, hle, ?_, by omega⟩
  rcases Nat.lt_or_ge position 11 with hlt' | hge
  · have hsucc := monthStart_succ year (Nat.le_of_lt_succ hlt')
    have hbelow : dayOfYear < monthStart (position + 1) := by
      unfold monthStart
      omega
    omega
  · obtain rfl : position = 11 := le_antisymm hle hge
    have hend := marchStart_february year
    omega

/-! ## What the code computes -/

/-- The four hundred years of an era begin in March of a year divisible by 400. -/
theorem era_eq (hstart : 0 ≤ dayOfYear) (hend : marchStart year + dayOfYear < marchStart (year + 1)) :
    (marchStart year + dayOfYear) / 146097 = year / 400 := by
  unfold marchStart at hend ⊢
  omega

/-- Within an era, of `century`, of the fourth year and of the year of four. -/
theorem yearOfEra_eq {century four single : Int} (hcentury : 0 ≤ century ∧ century ≤ 3) (hfour : 0 ≤ four ∧ four ≤ 24)
    (hsingle : 0 ≤ single ∧ single ≤ 3) (hstart : 0 ≤ dayOfYear)
    (hend : dayOfYear ≤ 364 ∨ dayOfYear = 365 ∧ single = 3 ∧ (four < 24 ∨ century = 3)) {dayOfEra : Int}
    (hday : dayOfEra = 36524 * century + 1461 * four + 365 * single + dayOfYear) :
    (dayOfEra - dayOfEra / 1460 + dayOfEra / 36524 - dayOfEra / 146096) / 365 = 100 * century + 4 * four + single := by
  by_cases hlast : dayOfEra = 146096
  · have hall : century = 3 ∧ four = 24 ∧ single = 3 := by omega
    omega
  · have hcenturies : dayOfEra / 36524 = century := by omega
    have hera : dayOfEra / 146096 = 0 := by omega
    rw [hcenturies, hera]
    -- the days of the leap years so far are past a multiple of 1460 at the end of a fourth year only
    by_cases hcarry : 24 * century + four + 365 * single + dayOfYear < 1460
    · have hfours : dayOfEra / 1460 = 25 * century + four := by omega
      omega
    · have hfours : dayOfEra / 1460 = 25 * century + four + 1 := by omega
      omega

/-- The quotient towards zero, corrected, is the quotient downwards. -/
theorem tdiv_era (shifted : Int) :
    (if shifted ≥ 0 then shifted else shifted - 146096).tdiv 146097 = shifted / 146097 := by
  split <;> rename_i hsign
  · exact Int.tdiv_eq_ediv_of_nonneg hsign
  · have hone : Int.sign 146097 = 1 := rfl
    rw [Int.tdiv_eq_ediv, hone]
    split <;> omega

theorem asU32_natCast {n : Nat} (h : n < 2 ^ 32) : asU32 n = n := by
  unfold asU32
  omega

/-- The values on the way from a day to its date. -/
structure Steps (days year : Int) (position day : Nat) (dayOfEra yearOfEra dayOfYear : Int) : Prop where
  era : (days + 719468) / 146097 = year / 400
  days_eq : days + 719468 - year / 400 * 146097 = dayOfEra
  days_range : 0 ≤ dayOfEra ∧ dayOfEra < 146097
  years_eq : (dayOfEra - dayOfEra / 1460 + dayOfEra / 36524 - dayOfEra / 146096) / 365 = yearOfEra
  years_range : 0 ≤ yearOfEra ∧ yearOfEra < 400
  year_eq : yearOfEra + year / 400 * 400 = year
  rest_eq : dayOfEra - (365 * yearOfEra + yearOfEra / 4 - yearOfEra / 100) = dayOfYear
  day_eq : dayOfYear = monthStart position + day
  month_eq : (5 * dayOfYear + 2) / 153 = position

theorem Falls.steps (h : Falls days year position day) :
    ∃ dayOfEra yearOfEra dayOfYear, Steps days year position day dayOfEra yearOfEra dayOfYear := by
  have hlt := h.lt
  have hdays := h.days_eq
  obtain ⟨dayOfYear, hday⟩ : ∃ dayOfYear : Int, dayOfYear = monthStart position + day := ⟨_, rfl⟩
  have hshifted : days + 719468 = marchStart year + dayOfYear := by omega
  have hera : (days + 719468) / 146097 = year / 400 := by
    rw [hshifted]
    exact era_eq (by omega) (hshifted ▸ hlt)
  -- the year as it stands in its era
  obtain ⟨era, century, four, single, hyear, hcentury, hfour, hsingle⟩ : ∃ era century four single : Int,
      year = 400 * era + 100 * century + 4 * four + single ∧ (0 ≤ century ∧ century ≤ 3) ∧ (0 ≤ four ∧ four ≤ 24) ∧
        (0 ≤ single ∧ single ≤ 3) :=
    ⟨year / 400, year % 400 / 100, year % 100 / 4, year % 4, by omega⟩
  have hfours : year / 4 = 100 * era + 25 * century + four := by omega
  have hcenturies : year / 100 = 4 * era + century := by omega
  have heras : year / 400 = era := by omega
  have hend : dayOfYear ≤ 364 ∨ dayOfYear = 365 ∧ single = 3 ∧ (four < 24 ∨ century = 3) := by
    rw [hshifted] at hlt
    unfold marchStart at hlt
    omega
  obtain ⟨dayOfEra, hdayOfEra⟩ : ∃ dayOfEra,
      dayOfEra = 36524 * century + 1461 * four + 365 * single + dayOfYear := ⟨_, rfl⟩
  have hsub : days + 719468 - year / 400 * 146097 = dayOfEra := by
    rw [hshifted, marchStart]
    omega
  obtain ⟨yearOfEra, hyearOfEra⟩ : ∃ yearOfEra, yearOfEra = 100 * century + 4 * four + single := ⟨_, rfl⟩
  refine ⟨dayOfEra, yearOfEra, dayOfYear, hera, hsub, by omega, ?_, by omega, by omega, by omega, hday, ?_⟩
  · rw [hyearOfEra]
    exact yearOfEra_eq hcentury hfour hsingle (by omega) hend hdayOfEra
  · have hbefore := h.before_next
    unfold monthStart at hday hbefore
    omega

/-- The code names the month and the day on which the day falls. -/
theorem Falls.civil (h : Falls days year position day) :
    civilFromDays days = (yearAt year position, monthAt position, day + 1) := by
  obtain ⟨dayOfEra, yearOfEra, dayOfYear, hs⟩ := h.steps
  have hposition := h.position_le
  have hday := hs.day_eq
  have hyears : (dayOfEra - dayOfEra / 1460 + dayOfEra / 36524 - dayOfEra / 146096).tdiv 365 = yearOfEra := by
    have hrange := hs.days_range
    rw [Int.tdiv_eq_ediv_of_nonneg (by omega), hs.years_eq]
  have hmonth : (5 * dayOfYear + 2).tdiv 153 = position := by
    rw [Int.tdiv_eq_ediv_of_nonneg (by omega), hs.month_eq]
  have hmonthAt : asU32 (if (position : Int) < 10 then (position : Int) + 3 else position - 9) = monthAt position := by
    interval_cases position <;> rfl
  have hdayAt : asU32 (dayOfYear - (153 * (position : Int) + 2).tdiv 5 + 1) = day + 1 := by
    rw [Int.tdiv_eq_ediv_of_nonneg (by omega)]
    have hsame : dayOfYear - (153 * (position : Int) + 2) / 5 + 1 = ((day + 1 : Nat) : Int) := by
      unfold monthStart at hday
      omega
    have hlength := monthLength_le (yearAt year position) (monthAt position)
    have hday_lt := h.day_lt
    rw [hsame, asU32_natCast (by omega)]
  unfold civilFromDays
  simp only [tdiv_era, hs.era, hs.days_eq, Int.tdiv_eq_ediv_of_nonneg hs.days_range.1, hyears,
    Int.tdiv_eq_ediv_of_nonneg hs.years_range.1, hs.rest_eq, hmonth, hmonthAt, hdayAt]
  rw [hs.year_eq]
  rfl

/-- The range of an `i64`. -/
def InI64 (n : Int) : Prop := -2 ^ 63 ≤ n ∧ n < 2 ^ 63

/-- Where the first sum is in range, so is all that is computed from it: the code, which computes in an `i64`,
computes these integers. -/
theorem civil_in_i64 (hdays : InI64 days) (hshifted : InI64 (days + 719468)) :
    (days + 719468 < 0 → InI64 (days + 719468 - 146096)) ∧ InI64 ((days + 719468) / 146097 * 146097) ∧
      InI64 ((days + 719468) / 146097 * 400 + 400) := by
  unfold InI64 at *
  omega

theorem monthAt_bounds (h : position ≤ 11) : 1 ≤ monthAt position ∧ monthAt position ≤ 12 := by
  unfold monthAt
  split <;> omega

end Years

/-! ## The dates -/

/-- The date of a day. -/
def civilDate (days : Int) : Date where
  year := (civilFromDays days).1
  month := (civilFromDays days).2.1
  day := (civilFromDays days).2.2
  month_pos := by
    obtain ⟨year, position, day, h⟩ := exists_falls days
    rw [h.civil]
    exact (monthAt_bounds h.position_le).1
  month_le := by
    obtain ⟨year, position, day, h⟩ := exists_falls days
    rw [h.civil]
    exact (monthAt_bounds h.position_le).2
  day_pos := by
    obtain ⟨year, position, day, h⟩ := exists_falls days
    rw [h.civil]
    exact Nat.succ_pos day
  day_le := by
    obtain ⟨year, position, day, h⟩ := exists_falls days
    rw [h.civil]
    exact h.day_lt

section Dates
variable {days year : Int} {position day : Nat}

theorem Falls.date (h : Falls days year position day) : (civilDate days).year = yearAt year position ∧
    (civilDate days).month = monthAt position ∧ (civilDate days).day = day + 1 := by
  have hcivil := h.civil
  exact ⟨congrArg (·.1) hcivil, congrArg (·.2.1) hcivil, congrArg (·.2.2) hcivil⟩

/-- The day after is in the same month, or begins the next one of the year, or the year. -/
theorem Falls.next (h : Falls days year position day) :
    if day + 1 < monthLength (yearAt year position) (monthAt position) then Falls (days + 1) year position (day + 1)
    else if position ≤ 10 then Falls (days + 1) year (position + 1) 0
    else Falls (days + 1) (year + 1) 0 0 := by
  have hday := h.day_lt
  have hdays := h.days_eq
  split
  · exact ⟨h.position_le, ‹_›, by omega⟩
  · split <;> rename_i hlast
    · have hnext := monthStart_succ year hlast
      exact ⟨by omega, monthLength_pos .., by omega⟩
    · obtain rfl : position = 11 := le_antisymm h.position_le (by omega)
      have hend := marchStart_february year
      have hmarch : monthStart 0 = 0 := rfl
      exact ⟨by omega, monthLength_pos .., by omega⟩

theorem monthAt_next (h : position ≤ 10) : if monthAt position < 12
    then yearAt year (position + 1) = yearAt year position ∧ monthAt (position + 1) = monthAt position + 1
    else yearAt year (position + 1) = yearAt year position + 1 ∧ monthAt (position + 1) = 1 := by
  interval_cases position <;> simp [monthAt, yearAt]

/-- The date of the next day is the next date. -/
theorem civilDate_next (days : Int) : civilDate (days + 1) = (civilDate days).next := by
  obtain ⟨year, position, day, h⟩ := exists_falls days
  obtain ⟨hyear, hmonth, hday⟩ := h.date
  have hnext := h.next
  unfold Date.next
  simp only [hyear, hmonth, hday]
  split at hnext <;> rename_i hlength
  · obtain ⟨hyear', hmonth', hday'⟩ := hnext.date
    rw [dif_pos hlength]
    exact Date.ext hyear' hmonth' hday'
  · rw [dif_neg hlength]
    split at hnext <;> rename_i hlast
    · obtain ⟨hyear', hmonth', hday'⟩ := hnext.date
      have hstep := @monthAt_next year _ hlast
      split at hstep <;> rename_i hdecember
      · rw [dif_pos hdecember]
        exact Date.ext (hyear'.trans hstep.1) (hmonth'.trans hstep.2) hday'
      · rw [dif_neg hdecember]
        exact Date.ext (hyear'.trans hstep.1) (hmonth'.trans hstep.2) hday'
    · obtain ⟨hyear', hmonth', hday'⟩ := hnext.date
      obtain rfl : position = 11 := le_antisymm h.position_le (by omega)
      have hsame : yearAt (year + 1) 0 = yearAt year 11 := by simp [yearAt, monthAt]
      rw [dif_pos (by decide)]
      exact Date.ext (hyear'.trans hsame) hmonth' hday'

theorem civilFromDays_injective : Function.Injective civilFromDays := by
  intro a b h
  apply injective_of_next civilDate_next
  apply Date.ext
  · exact congrArg (·.1) h
  · exact congrArg (·.2.1) h
  · exact congrArg (·.2.2) h

end Dates

/-! ## The texts -/

/-- The numbers of a text, and what stands behind each of them. -/
def shape : List (Nat × Char) := [(4, '-'), (2, '-'), (2, 'T'), (2, ':'), (2, ':'), (2, 'Z')]

/-- Hour, minute and second. -/
def timeOfDay (seconds : Int) : Nat × Nat × Nat :=
  let time := (seconds % 86400).toNat
  (time / 3600, time % 3600 / 60, time % 60)

/-- The numbers of the text of a time. -/
def numbers (seconds : Int) : List Nat :=
  let date := civilDate (seconds / 86400)
  let time := timeOfDay seconds
  [date.year.toNat, date.month, date.day, time.1, time.2.1, time.2.2]

section Texts
variable {seconds seconds' : Int}

theorem padded_toList {width : Nat} {n : Int} (h : 0 ≤ n) : (padded width n).toList = numeral width n.toNat := by
  rw [padded, if_neg (not_lt.2 h), zeroPadded, String.toList_ofList, numeral]

theorem padded_natCast (width n : Nat) : (padded width n).toList = numeral width n :=
  padded_toList (Int.natCast_nonneg n)

theorem format_eq (seconds : Int) :
    formatIso8601Utc seconds = padded 4 (civilDate (seconds / 86400)).year ++ "-" ++
      padded 2 (civilDate (seconds / 86400)).month ++ "-" ++ padded 2 (civilDate (seconds / 86400)).day ++ "T" ++
      padded 2 (timeOfDay seconds).1 ++ ":" ++ padded 2 (timeOfDay seconds).2.1 ++ ":" ++
      padded 2 (timeOfDay seconds).2.2 ++ "Z" := by
  have htime : 0 ≤ seconds % 86400 := Int.emod_nonneg _ (by decide)
  have hhour : (seconds % 86400).tdiv 3600 = (timeOfDay seconds).1 := by
    rw [Int.tdiv_eq_ediv_of_nonneg htime, timeOfDay]
    omega
  have hminute : ((seconds % 86400).tmod 3600).tdiv 60 = (timeOfDay seconds).2.1 := by
    rw [Int.tmod_eq_emod_of_nonneg htime, Int.tdiv_eq_ediv_of_nonneg (by omega), timeOfDay]
    dsimp only
    omega
  have hsecond : (seconds % 86400).tmod 60 = (timeOfDay seconds).2.2 := by
    rw [Int.tmod_eq_emod_of_nonneg htime, timeOfDay]
    dsimp only
    omega
  rw [formatIso8601Utc]
  simp only [hhour, hminute, hsecond]
  rfl

theorem format_toList (h : 0 ≤ (civilDate (seconds / 86400)).year) :
    (formatIso8601Utc seconds).toList = stamp shape (numbers seconds) := by
  rw [format_eq]
  simp only [String.toList_append, padded_toList h, padded_natCast]
  simp [stamp, shape, numbers]

/-- The time of day in seconds. -/
theorem timeOfDay_eq (seconds : Int) :
    seconds = 86400 * (seconds / 86400) + 3600 * (timeOfDay seconds).1 + 60 * (timeOfDay seconds).2.1 +
      (timeOfDay seconds).2.2 := by
  unfold timeOfDay
  dsimp only
  omega

theorem timeOfDay_lt (seconds : Int) :
    (timeOfDay seconds).1 < 24 ∧ (timeOfDay seconds).2.1 < 60 ∧ (timeOfDay seconds).2.2 < 60 := by
  unfold timeOfDay
  dsimp only
  omega

theorem numbers_fit (h : (civilDate (seconds / 86400)).year ≤ 9999) : Fits shape (numbers seconds) := by
  obtain ⟨hhour, hminute, hsecond⟩ := timeOfDay_lt seconds
  have hmonth := (civilDate (seconds / 86400)).month_le
  have hday := (civilDate (seconds / 86400)).day_le.trans (monthLength_le ..)
  unfold shape numbers
  simp only [Fits, List.forall₂_cons, List.Forall₂.nil, Nat.reducePow, Nat.ofNat_pos, true_and, and_true]
  omega

/-- In the years of four digits the numbers have the order of the seconds. -/
theorem numbers_lt (h : 0 ≤ (civilDate (seconds / 86400)).year) (h' : 0 ≤ (civilDate (seconds' / 86400)).year) :
    numbers seconds < numbers seconds' ↔ seconds < seconds' := by
  have hdate := Date.key_lt.symm.trans ((strictMono_of_next civilDate_next).lt_iff_lt (a := seconds / 86400)
    (b := seconds' / 86400))
  have hsame : seconds / 86400 = seconds' / 86400 ↔
      (civilDate (seconds / 86400)).year = (civilDate (seconds' / 86400)).year ∧
        (civilDate (seconds / 86400)).month = (civilDate (seconds' / 86400)).month ∧
        (civilDate (seconds / 86400)).day = (civilDate (seconds' / 86400)).day := by
    constructor
    · intro heq
      rw [heq]
      exact ⟨rfl, rfl, rfl⟩
    · rintro ⟨hyear, hmonth, hday⟩
      exact injective_of_next civilDate_next (Date.ext hyear hmonth hday)
  have htime := timeOfDay_eq seconds
  have htime' := timeOfDay_eq seconds'
  have hlt := timeOfDay_lt seconds
  have hlt' := timeOfDay_lt seconds'
  simp only [numbers, List.cons_lt_cons_iff, List.not_lt_nil, and_false, or_false]
  omega

/-- In the years of four digits the texts have the order of the seconds. -/
theorem format_lt (h : 0 ≤ (civilDate (seconds / 86400)).year) (hle : (civilDate (seconds / 86400)).year ≤ 9999)
    (h' : 0 ≤ (civilDate (seconds' / 86400)).year) (hle' : (civilDate (seconds' / 86400)).year ≤ 9999) :
    formatIso8601Utc seconds < formatIso8601Utc seconds' ↔ seconds < seconds' := by
  rw [String.lt_iff, format_toList h, format_toList h', stamp_lt (numbers_fit hle) (numbers_fit hle'),
    numbers_lt h h']

end Texts

/-! ## The calendar -/

/-- The text of `seconds` is that of a date and a time of day. -/
def NamesDate (seconds : Int) (date : Date) : Prop :=
  ∃ hour minute second : Nat, hour < 24 ∧ minute < 60 ∧ second < 60 ∧
    seconds = 86400 * (seconds / 86400) + 3600 * hour + 60 * minute + second ∧
    formatIso8601Utc seconds = padded 4 date.year ++ "-" ++ padded 2 date.month ++ "-" ++ padded 2 date.day ++ "T" ++
      padded 2 hour ++ ":" ++ padded 2 minute ++ ":" ++ padded 2 second ++ "Z"

/-- The year of `seconds` has at most four digits and no sign. -/
def FourDigitYear (seconds : Int) : Prop :=
  0 ≤ (civilFromDays (seconds / 86400)).1 ∧ (civilFromDays (seconds / 86400)).1 ≤ 9999

/-- The dates are those of the proleptic Gregorian calendar: day 0 is the first of 1970, and the day after a day has
the date after its date. No two days have one date, the text of a time names the date of its day, and in the years
from 0 to 9999 the texts have the order of the times. -/
theorem iso8601_calendar :
    civilFromDays 0 = (1970, 1, 1) ∧
    (∀ days, ∃ date : Date, civilFromDays days = (date.year, date.month, date.day) ∧
      civilFromDays (days + 1) = (date.next.year, date.next.month, date.next.day)) ∧
    Function.Injective civilFromDays ∧
    (∀ seconds, ∃ date : Date, civilFromDays (seconds / 86400) = (date.year, date.month, date.day) ∧
      NamesDate seconds date) ∧
    ∀ seconds seconds', FourDigitYear seconds → FourDigitYear seconds' →
      (formatIso8601Utc seconds < formatIso8601Utc seconds' ↔ seconds < seconds') := by
  refine ⟨by decide, fun days => ⟨civilDate days, rfl, ?_⟩, civilFromDays_injective, fun seconds => ?_, ?_⟩
  · rw [← civilDate_next]
    rfl
  · obtain ⟨hhour, hminute, hsecond⟩ := timeOfDay_lt seconds
    exact ⟨civilDate (seconds / 86400), rfl, _, _, _, hhour, hminute, hsecond, timeOfDay_eq seconds, format_eq seconds⟩
  · intro seconds seconds' h h'
    exact format_lt h.1 h.2 h'.1 h'.2

/-- From the last second of a leap day on. -/
theorem iso8601_calendar_leap :
    formatIso8601Utc 951868799 < formatIso8601Utc 951868800 ∧ civilFromDays 11017 = (2000, 3, 1) :=
  ⟨(iso8601_calendar.2.2.2.2 951868799 951868800 ⟨by decide, by decide⟩ ⟨by decide, by decide⟩).2 (by decide), by decide⟩

end Hyoui.Time
