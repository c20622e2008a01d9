/-
SqlWeave/Proofs/Calendar/DayCount.lean

The count of days numbers the dates of the calendar in their order, from the first of January of
year 1, and leaves no number out.  This fixes it: a count that does so is the number of the dates
that come before.

Years and months differ in length, so that nothing is carried digit by digit.  What carries the
proofs is that a month ends before the next one starts, and the twelfth before the next year.

Main results: the count follows the order of the dates (`Date.toDays_lt_iff`), a day is read as
the date that it is counted for (`Date.ofDays?_eq_some_iff`), and the days that dates are counted
for are those below `calendarDays` (`exists_toDays_eq_iff`).
-/
import Mathlib
import SqlWeave.Calendar.Civil

namespace SqlWeave.Calendar

/-! ### Years -/

theorem isLeap_iff {year : Nat} :
    isLeap year ↔ year % 4 = 0 ∧ (year % 100 ≠ 0 ∨ year % 400 = 0) := by
  simp [isLeap]

/-- The days of a year. -/
def yearLength (year : Nat) : Nat := if isLeap year then 366 else 365

theorem succ_div_eq (y n : Nat) : (y + 1) / n = y / n + if (y + 1) % n = 0 then 1 else 0 := by
  simp only [Nat.succ_div, Nat.dvd_iff_mod_eq_zero]

theorem daysBeforeYear_succ {year : Nat} (h : 1 ≤ year) :
    daysBeforeYear (year + 1) = daysBeforeYear year + yearLength year := by
  obtain ⟨y, rfl⟩ := Nat.exists_eq_add_of_le' h
  have hle : y / 100 ≤ y / 4 := Nat.div_le_div_left (by decide) (by decide)
  simp only [daysBeforeYear, yearLength, isLeap_iff, Nat.add_sub_cancel, succ_div_eq]
  generalize y / 4 = fourths, y / 100 = centuries, y / 400 = cycles at *
  split <;> split <;> split <;> split <;> omega

/-- The days of all the years. -/
def calendarDays : Nat := daysBeforeYear (maxYear + 1)

theorem lt_calendarDays_iff {day : Nat} : day < calendarDays ↔ yearOf day ≤ maxYear := by
  obtain ⟨-, hle⟩ := daysBeforeYear_yearOf_le day
  have hlt := lt_daysBeforeYear_yearOf day
  constructor
  · intro h
    by_contra hyear
    have hmono : calendarDays ≤ daysBeforeYear (yearOf day) := daysBeforeYear_mono (by omega)
    omega
  · intro h
    have hmono : daysBeforeYear (yearOf day + 1) ≤ calendarDays := daysBeforeYear_mono (by omega)
    omega

/-! ### Months -/

theorem length_monthLengths (year : Nat) : (monthLengths year).length = 12 := rfl

/-- Only the twelve months have days. -/
theorem month_of_monthLength_pos {year month : Nat} (h : 0 < monthLength year month) :
    1 ≤ month ∧ month ≤ 12 := by
  unfold monthLength at h
  split at h
  · contradiction
  · rename_i hpos
    refine ⟨by omega, ?_⟩
    by_contra hlarge
    have hnone : (monthLengths year)[month - 1]? = none := by
      rw [List.getElem?_eq_none_iff, length_monthLengths]
      omega
    rw [hnone] at h
    contradiction

theorem monthLength_le (year month : Nat) : monthLength year month ≤ 31 := by
  have hall : ∀ length ∈ monthLengths year, length ≤ 31 := by
    unfold monthLengths
    split <;> decide
  unfold monthLength
  split
  · decide
  · cases h : (monthLengths year)[month - 1]? with
    | none => exact Nat.zero_le 31
    | some length => exact hall length (List.mem_of_getElem? h)

theorem daysBeforeMonth_succ (year : Nat) {month : Nat} (h : 1 ≤ month) :
    daysBeforeMonth year (month + 1) = daysBeforeMonth year month + monthLength year month := by
  obtain ⟨m, rfl⟩ := Nat.exists_eq_add_of_le' h
  simp only [daysBeforeMonth, monthLength, Nat.add_sub_cancel, ← List.sum_eq_foldr]
  rw [if_neg (by omega), List.take_add_one, List.sum_append]
  cases (monthLengths year)[m]? with
  | none => rfl
  | some length => simp

theorem daysBeforeMonth_mono (year : Nat) {a b : Nat} (ha : 1 ≤ a) (h : a ≤ b) :
    daysBeforeMonth year a ≤ daysBeforeMonth year b := by
  induction b, h using Nat.le_induction with
  | base => rfl
  | succ b hab ih =>
    have hb : 1 ≤ b := ha.trans hab
    rw [daysBeforeMonth_succ year hb]
    omega

/-- The twelve months make up the year. -/
theorem daysBeforeMonth_thirteen (year : Nat) : daysBeforeMonth year 13 = yearLength year := by
  simp only [daysBeforeMonth, monthLengths, yearLength]
  split <;> rfl

/-! ### Dates in their order -/

namespace Date

variable (d e : Date)

theorem month_bounds : 1 ≤ d.month ∧ d.month ≤ 12 :=
  month_of_monthLength_pos (Nat.lt_of_lt_of_le d.day_pos d.day_le)

theorem day_le_31 : d.day ≤ 31 := d.day_le.trans (monthLength_le d.year d.month)

theorem ext_iff : d = e ↔ d.year = e.year ∧ d.month = e.month ∧ d.day = e.day := by
  cases d
  cases e
  simp

/-- The days of a year before a date. -/
def dayOfYear : Nat := daysBeforeMonth d.year d.month + (d.day - 1)

theorem toDays_eq : d.toDays = daysBeforeYear d.year + d.dayOfYear := Nat.add_assoc ..

theorem dayOfYear_lt_next_month : d.dayOfYear < daysBeforeMonth d.year (d.month + 1) := by
  have hsucc := daysBeforeMonth_succ d.year d.month_bounds.1
  have hpos := d.day_pos
  have hle := d.day_le
  unfold dayOfYear
  omega

theorem dayOfYear_lt : d.dayOfYear < yearLength d.year := by
  have hmonth := d.dayOfYear_lt_next_month
  have hmono := daysBeforeMonth_mono d.year (a := d.month + 1) (b := 13) (by omega)
    (by have := d.month_bounds.2; omega)
  rw [daysBeforeMonth_thirteen] at hmono
  omega

theorem toDays_lt_next_year : d.toDays < daysBeforeYear (d.year + 1) := by
  have hlt := d.dayOfYear_lt
  rw [daysBeforeYear_succ d.year_pos, toDays_eq]
  omega

theorem toDays_lt_calendarDays : d.toDays < calendarDays :=
  Nat.lt_of_lt_of_le d.toDays_lt_next_year
    (daysBeforeYear_mono (Nat.succ_le_succ d.year_le))

variable {d e}

theorem toDays_lt_of_year_lt (h : d.year < e.year) : d.toDays < e.toDays := by
  have hlt := d.toDays_lt_next_year
  have hmono : daysBeforeYear (d.year + 1) ≤ daysBeforeYear e.year := daysBeforeYear_mono h
  rw [toDays_eq e]
  omega

theorem dayOfYear_lt_of_month_lt (hyear : d.year = e.year) (h : d.month < e.month) :
    d.dayOfYear < e.dayOfYear := by
  have hlt := d.dayOfYear_lt_next_month
  have hmono := daysBeforeMonth_mono d.year (a := d.month + 1) (b := e.month) (by omega) h
  unfold dayOfYear at hlt ⊢
  rw [← hyear]
  omega

/-- The count follows the order of the dates. -/
theorem toDays_lt_iff : d.toDays < e.toDays ↔
    d.year < e.year ∨ d.year = e.year ∧
      (d.month < e.month ∨ d.month = e.month ∧ d.day < e.day) := by
  rcases Nat.lt_trichotomy d.year e.year with hyear | hyear | hyear
  · have hlt := toDays_lt_of_year_lt hyear
    omega
  · rcases Nat.lt_trichotomy d.month e.month with hmonth | hmonth | hmonth
    · have hlt := dayOfYear_lt_of_month_lt hyear hmonth
      rw [toDays_eq, toDays_eq, hyear]
      omega
    · have hd := d.day_pos
      have he := e.day_pos
      have hday : d.day - 1 < e.day - 1 ↔ d.day < e.day := by omega
      simp [toDays, hyear, hmonth, hday]
    · have hlt := dayOfYear_lt_of_month_lt hyear.symm hmonth
      rw [toDays_eq, toDays_eq, hyear]
      omega
  · have hlt := toDays_lt_of_year_lt hyear
    omega

theorem toDays_injective : Function.Injective toDays := by
  intro d e h
  have hd : ¬d.toDays < e.toDays := by omega
  have he : ¬e.toDays < d.toDays := by omega
  rw [toDays_lt_iff] at hd he
  rw [ext_iff]
  omega

end Date

/-! ### Days read as dates -/

/-- A day is read as a day of one of the months, with the days before that month taken off. -/
theorem monthAndDay_spec {lengths : List Nat} {n : Nat} (month : Nat) (h : n < lengths.sum) :
    ∃ i length day, lengths[i]? = some length ∧ monthAndDay month lengths n = (month + i, day) ∧
      1 ≤ day ∧ day ≤ length ∧ (lengths.take i).sum + (day - 1) = n := by
  induction lengths generalizing month n with
  | nil => contradiction
  | cons length later ih =>
    rw [monthAndDay]
    split
    · rename_i hlt
      exact ⟨0, length, n + 1, rfl, rfl, by omega, hlt, by simp⟩
    · rename_i hge
      have hlater : n - length < later.sum := by
        rw [List.sum_cons] at h
        omega
      obtain ⟨i, length', day, hi, hread, hpos, hle, hsum⟩ := ih (month + 1) hlater
      refine ⟨i + 1, length', day, hi, ?_, hpos, hle, ?_⟩
      · rw [hread, Nat.add_assoc, Nat.add_comm 1]
      · rw [List.take_succ_cons, List.sum_cons]
        omega

theorem sum_monthLengths (year : Nat) : (monthLengths year).sum = yearLength year := by
  simp only [monthLengths, yearLength]
  split <;> rfl

theorem Date.ofYMD?_eq_some_iff {year month day : Nat} {d : Date} :
    Date.ofYMD? year month day = some d ↔ d.year = year ∧ d.month = month ∧ d.day = day := by
  unfold Date.ofYMD?
  rw [Option.dite_none_right_eq_some]
  constructor
  · rintro ⟨h, he⟩
    obtain rfl := Option.some.inj he
    exact ⟨rfl, rfl, rfl⟩
  · rintro ⟨rfl, rfl, rfl⟩
    exact ⟨⟨⟨d.year_pos, d.year_le⟩, d.day_pos, d.day_le⟩, rfl⟩

theorem Date.ofDays?_eq_some_iff_parts {n : Nat} {d : Date} :
    Date.ofDays? n = some d ↔ d.year = yearOf n ∧
      (d.month, d.day) =
        monthAndDay 1 (monthLengths (yearOf n)) (n - daysBeforeYear (yearOf n)) := by
  rw [Prod.ext_iff, ← Date.ofYMD?_eq_some_iff]
  rfl

/-- A day of the calendar is read as a date that it is counted for. -/
theorem exists_ofDays?_eq {n : Nat} (h : n < calendarDays) :
    ∃ d, Date.ofDays? n = some d ∧ d.toDays = n := by
  obtain ⟨hpos, hle⟩ := daysBeforeYear_yearOf_le n
  have hlt := lt_daysBeforeYear_yearOf n
  rw [daysBeforeYear_succ hpos, ← sum_monthLengths] at hlt
  have hrest : n - daysBeforeYear (yearOf n) < (monthLengths (yearOf n)).sum := by omega
  obtain ⟨i, length, day, hi, hread, hday, hlength, hsum⟩ := monthAndDay_spec 1 hrest
  have hmonth : monthLength (yearOf n) (i + 1) = length := by
    rw [monthLength, if_neg (by omega), Nat.add_sub_cancel, hi]
    rfl
  let d : Date :=
    ⟨yearOf n, i + 1, day, hpos, lt_calendarDays_iff.1 h, hday, hmonth.symm ▸ hlength⟩
  refine ⟨d, Date.ofDays?_eq_some_iff_parts.2 ⟨rfl, ?_⟩, ?_⟩
  · rw [hread, Nat.add_comm]
  · have hbefore : daysBeforeMonth (yearOf n) (i + 1) = ((monthLengths (yearOf n)).take i).sum := by
      rw [daysBeforeMonth, Nat.add_sub_cancel, List.sum_eq_foldr]
    show daysBeforeYear (yearOf n) + daysBeforeMonth (yearOf n) (i + 1) + (day - 1) = n
    omega

/-- A day is read as the date that it is counted for. -/
theorem Date.ofDays?_eq_some_iff {n : Nat} {d : Date} : Date.ofDays? n = some d ↔ d.toDays = n := by
  constructor
  · intro h
    obtain ⟨hyear, -⟩ := Date.ofDays?_eq_some_iff_parts.1 h
    have hn : n < calendarDays := lt_calendarDays_iff.2 (hyear ▸ d.year_le)
    obtain ⟨e, he, hdays⟩ := exists_ofDays?_eq hn
    obtain rfl : e = d := Option.some.inj (he.symm.trans h)
    exact hdays
  · rintro rfl
    obtain ⟨e, he, hdays⟩ := exists_ofDays?_eq d.toDays_lt_calendarDays
    rw [he, Date.toDays_injective hdays]

/-- The days that dates are counted for. -/
theorem exists_toDays_eq_iff {n : Nat} : (∃ d : Date, d.toDays = n) ↔ n < calendarDays := by
  constructor
  · rintro ⟨d, rfl⟩
    exact d.toDays_lt_calendarDays
  · intro h
    obtain ⟨d, -, hd⟩ := exists_ofDays?_eq h
    exact ⟨d, hd⟩

end SqlWeave.Calendar
