/-
SqlWeave/Calendar/Date.lean

Dates of the Gregorian calendar from year 1 to year 9999, extended backwards over the
centuries before it was in use, and their count of days since the first of January of
year 1.

Main results: the day count falls into the year it is read back from
(`daysBeforeYear_yearOf_le`, `lt_daysBeforeYear_yearOf`).
-/
import SqlWeave.Text.Basic

namespace SqlWeave.Calendar

/-- A leap year: every fourth, but of the full centuries only every fourth. -/
def isLeap (year : Nat) : Bool := year % 4 = 0 && (year % 100 != 0 || year % 400 = 0)

/-- The lengths of the twelve months. -/
def monthLengths (year : Nat) : List Nat :=
  [31, if isLeap year then 29 else 28, 31, 30, 31, 30, 31, 31, 30, 31, 30, 31]

/-- The length of a month, which is zero for what is no month. -/
def monthLength (year month : Nat) : Nat :=
  if month = 0 then 0 else (monthLengths year)[month - 1]?.getD 0

/-- The last year of the calendar. -/
def maxYear : Nat := 9999

/-- A date. -/
structure Date where
  year : Nat
  month : Nat
  day : Nat
  year_pos : 1 ≤ year
  year_le : year ≤ maxYear
  day_pos : 1 ≤ day
  day_le : day ≤ monthLength year month
  deriving DecidableEq

/-- The days before the first of January. -/
def daysBeforeYear (year : Nat) : Nat :=
  let y := year - 1
  365 * y + y / 4 - y / 100 + y / 400

/-- The days of a year before the first of a month. -/
def daysBeforeMonth (year month : Nat) : Nat :=
  ((monthLengths year).take (month - 1)).foldr (· + ·) 0

namespace Date

/-- The date with the given year, month and day, if there is one. -/
def ofYMD? (year month day : Nat) : Option Date :=
  if h : (1 ≤ year ∧ year ≤ maxYear) ∧ 1 ≤ day ∧ day ≤ monthLength year month then
    some ⟨year, month, day, h.1.1, h.1.2, h.2.1, h.2.2⟩
  else none

/-- The days since the first day of the calendar. -/
def toDays (d : Date) : Nat :=
  daysBeforeYear d.year + daysBeforeMonth d.year d.month + (d.day - 1)

end Date

/-! ### Reading a day count -/

/-- The last year up to `year` that starts on or before the day. -/
def yearDownFrom (days : Nat) : (year : Nat) → Nat
  | 0 => 0
  | year + 1 => if daysBeforeYear (year + 1) ≤ days then year + 1 else yearDownFrom days year

/-- The year of a day. -/
def yearOf (days : Nat) : Nat := yearDownFrom days (days / 365 + 1)

/-- The month and the day of the month, for a day counted from the start of `lengths`; the
first of these months has the number `month`. -/
def monthAndDay (month : Nat) : List Nat → Nat → Nat × Nat
  | [], day => (month, day + 1)
  | length :: later, day =>
    if day < length then (month, day + 1) else monthAndDay (month + 1) later (day - length)

/-- The date of a day, if it lies in the calendar. -/
def Date.ofDays? (days : Nat) : Option Date :=
  let year := yearOf days
  let (month, day) := monthAndDay 1 (monthLengths year) (days - daysBeforeYear year)
  Date.ofYMD? year month day

theorem daysBeforeYear_mono {a b : Nat} (h : a ≤ b) : daysBeforeYear a ≤ daysBeforeYear b := by
  have h4 : (a - 1) / 4 ≤ (b - 1) / 4 := Nat.div_le_div_right (by omega)
  have h400 : (a - 1) / 400 ≤ (b - 1) / 400 := Nat.div_le_div_right (by omega)
  have h100 : (b - 1) / 100 ≤ (a - 1) / 100 + (b - a) := by omega
  simp only [daysBeforeYear]
  omega

theorem daysBeforeYear_yearDownFrom_le {days year : Nat} (hy : 1 ≤ year) :
    1 ≤ yearDownFrom days year ∧ daysBeforeYear (yearDownFrom days year) ≤ days := by
  induction year with
  | zero => omega
  | succ y ih =>
    rw [yearDownFrom]
    split
    · exact ⟨by omega, by assumption⟩
    · rename_i hlt
      cases y with
      | zero => simp [daysBeforeYear] at hlt
      | succ z => exact ih (by omega)

theorem lt_daysBeforeYear_yearDownFrom {days year : Nat} (h : days < daysBeforeYear (year + 1)) :
    days < daysBeforeYear (yearDownFrom days year + 1) := by
  induction year with
  | zero => simpa [yearDownFrom] using h
  | succ y ih =>
    rw [yearDownFrom]
    split
    · exact h
    · exact ih (by omega)

/-- The year of a day starts on or before it. -/
theorem daysBeforeYear_yearOf_le (days : Nat) :
    1 ≤ yearOf days ∧ daysBeforeYear (yearOf days) ≤ days :=
  daysBeforeYear_yearDownFrom_le (by omega)

/-- The next year starts after the day. -/
theorem lt_daysBeforeYear_yearOf (days : Nat) : days < daysBeforeYear (yearOf days + 1) := by
  apply lt_daysBeforeYear_yearDownFrom
  simp only [daysBeforeYear]
  omega

end SqlWeave.Calendar
