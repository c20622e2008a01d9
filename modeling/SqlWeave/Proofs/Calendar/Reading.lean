/-
SqlWeave/Proofs/Calendar/Reading.lean

Civil times read back from their text, and the order of these texts.  Every part of a civil time
is written in a fixed number of digits, the larger parts first, so that two texts differ first
where the times do.

Main results: the text of a civil time reads back as that time, cut to the millisecond
(`Civil.read?_text`), and texts compare as the milliseconds do that the times are counted in
(`Civil.text_lt_iff`).
-/
import Mathlib
import SqlWeave.Calendar.Timestamp
import SqlWeave.Proofs.Calendar.DayCount
import SqlWeave.Proofs.Text.Digits

namespace SqlWeave

/-! ### Numbers of a fixed width -/

namespace Text

/-- Texts of one length compare before what comes after them does. -/
theorem append_lt_append_iff {a b s t : Text} (h : a.length = b.length) :
    a ++ s < b ++ t ↔ a < b ∨ a = b ∧ s < t := by
  induction a generalizing b with
  | nil =>
    obtain rfl : b = [] := List.length_eq_zero_iff.1 h.symm
    simp
  | cons c a ih =>
    cases b with
    | nil => contradiction
    | cons d b =>
      rw [List.cons_append, List.cons_append, List.cons_lt_cons_iff, List.cons_lt_cons_iff,
        ih (Nat.succ.inj h), List.cons.injEq]
      tauto

theorem digitChar_lt_iff {m n : Nat} (hm : m < 10) (hn : n < 10) :
    Nat.digitChar m < Nat.digitChar n ↔ m < n := by
  have hall : ∀ m < 10, ∀ n < 10, (Nat.digitChar m < Nat.digitChar n ↔ m < n) := by decide
  exact hall m hm n hn

section

variable {width m n : Nat} (hm : m < 10 ^ width) (hn : n < 10 ^ width)

include hm in
theorem valueOf_paddedDigits_of_lt : valueOf 10 (paddedDigits 10 width m) = m := by
  rw [valueOf_paddedDigits (by decide) (by decide)]
  exact Nat.mod_eq_of_lt hm

include hm hn

theorem paddedDigits_eq_iff : paddedDigits 10 width m = paddedDigits 10 width n ↔ m = n := by
  constructor
  · intro h
    rw [← valueOf_paddedDigits_of_lt hm, h, valueOf_paddedDigits_of_lt hn]
  · rintro rfl
    rfl

theorem paddedDigits_lt_iff : paddedDigits 10 width m < paddedDigits 10 width n ↔ m < n := by
  induction width generalizing m n with
  | zero =>
    rw [Nat.pow_zero] at hm hn
    simp [paddedDigits]
    omega
  | succ width ih =>
    rw [pow_succ] at hm hn
    have hm' : m / 10 < 10 ^ width := by omega
    have hn' : n / 10 < 10 ^ width := by omega
    rw [paddedDigits, paddedDigits, append_lt_append_iff (by simp), ih hm' hn',
      paddedDigits_eq_iff hm' hn', List.cons_lt_cons_iff,
      digitChar_lt_iff (by omega) (by omega)]
    simp only [List.lt_irrefl, and_false, or_false]
    omega

/-- A number in front of a text counts before the text does. -/
theorem paddedDigits_append_lt_iff {s t : Text} :
    paddedDigits 10 width m ++ s < paddedDigits 10 width n ++ t ↔ m < n ∨ m = n ∧ s < t := by
  rw [append_lt_append_iff (by simp), paddedDigits_lt_iff hm hn, paddedDigits_eq_iff hm hn]

end

end Text

namespace Calendar

open Text

/-! ### The order of texts -/

/-- The parts of a date have room in their digits. -/
theorem Date.parts_lt (d : Date) : d.year < 10 ^ 4 ∧ d.month < 10 ^ 2 ∧ d.day < 10 ^ 2 := by
  have hyear := d.year_le
  have hmonth := d.month_bounds
  have hday := d.day_le_31
  unfold maxYear at hyear
  omega

/-- The parts of a time of day have room in their digits. -/
theorem TimeOfDay.parts_lt (t : TimeOfDay) :
    t.hour < 10 ^ 2 ∧ t.minute < 10 ^ 2 ∧ t.second < 10 ^ 2 ∧ t.micro / 1000 < 10 ^ 3 := by
  have hhour := t.hour_lt
  have hminute := t.minute_lt
  have hsecond := t.second_lt
  have hmicro := t.micro_lt
  omega

theorem Date.text_append_lt_iff (d e : Date) (s t : Text) :
    d.text ++ s < e.text ++ t ↔ d.toDays < e.toDays ∨ d = e ∧ s < t := by
  obtain ⟨hyear, hmonth, hday⟩ := d.parts_lt
  obtain ⟨hyear', hmonth', hday'⟩ := e.parts_lt
  rw [Date.toDays_lt_iff, Date.ext_iff, Date.text, Date.text]
  simp only [List.append_assoc, List.cons_append]
  rw [paddedDigits_append_lt_iff hyear hyear', List.cons_lt_cons_self,
    paddedDigits_append_lt_iff hmonth hmonth', List.cons_lt_cons_self,
    paddedDigits_append_lt_iff hday hday']
  tauto

/-- The time of day down to the millisecond. -/
theorem TimeOfDay.text_lt_iff (t u : TimeOfDay) :
    t.clockText ++ '.' :: paddedDigits 10 3 (t.micro / 1000) <
        u.clockText ++ '.' :: paddedDigits 10 3 (u.micro / 1000) ↔
      t.toMicros / 1000 < u.toMicros / 1000 := by
  obtain ⟨hhour, hminute, hsecond, hmilli⟩ := t.parts_lt
  obtain ⟨hhour', hminute', hsecond', hmilli'⟩ := u.parts_lt
  simp only [clockText, List.append_assoc, List.cons_append]
  rw [paddedDigits_append_lt_iff hhour hhour', List.cons_lt_cons_self,
    paddedDigits_append_lt_iff hminute hminute', List.cons_lt_cons_self,
    paddedDigits_append_lt_iff hsecond hsecond', List.cons_lt_cons_self,
    paddedDigits_lt_iff hmilli hmilli']
  have hmicros (t : TimeOfDay) : t.toMicros / 1000 =
      ((t.hour * 60 + t.minute) * 60 + t.second) * 1000 + t.micro / 1000 := by
    simp only [toMicros, secondMicros]
    omega
  have ht := And.intro t.minute_lt t.second_lt
  have hu := And.intro u.minute_lt u.second_lt
  rw [hmicros, hmicros]
  omega

/-- The whole milliseconds since the start of the calendar. -/
def Civil.millis (c : Civil) : Nat := c.toMicros / 1000

/-- Texts are in the order of the times, as far as these are written out. -/
theorem Civil.text_lt_iff (c e : Civil) : c.text < e.text ↔ c.millis < e.millis := by
  have hc := c.time.toMicros_lt
  have he := e.time.toMicros_lt
  rw [Civil.text, Civil.text, List.append_assoc, List.append_assoc, Date.text_append_lt_iff,
    List.cons_append, List.cons_append, List.cons_lt_cons_self, TimeOfDay.text_lt_iff,
    ← Date.toDays_injective.eq_iff]
  simp only [millis, toMicros, dayMicros, secondMicros] at *
  omega

theorem Civil.text_eq_iff (c e : Civil) : c.text = e.text ↔ c.millis = e.millis := by
  have hlt := Civil.text_lt_iff c e
  have hgt := Civil.text_lt_iff e c
  constructor
  · intro h
    rw [h] at hlt hgt
    simp only [List.lt_irrefl, false_iff] at hlt hgt
    omega
  · intro h
    rw [h] at hlt hgt
    simp only [Nat.lt_irrefl, iff_false] at hlt hgt
    exact le_antisymm (not_lt.1 hgt) (not_lt.1 hlt)

/-! ### Reading texts -/

/-- The number that a text begins with, written in `width` digits. -/
def readNumber? (width : Nat) (text : Text) : Option (Nat × Text) :=
  let digits := leadingDigits 10 width text
  if digits.length = width then some (valueOf 10 digits, text.drop width) else none

/-- The number that follows the mark that a text begins with. -/
def readAfter? (mark : Char) (width : Nat) (text : Text) : Option (Nat × Text) :=
  (afterStart? [mark] text).bind (readNumber? width)

/-- The civil time that a text shows as `YYYY-MM-DD HH:MM:SS.mmm`, if there is such a time. -/
def Civil.read? (text : Text) : Option Civil := do
  let (year, text) ← readNumber? 4 text
  let (month, text) ← readAfter? '-' 2 text
  let (day, text) ← readAfter? '-' 2 text
  let (hour, text) ← readAfter? ' ' 2 text
  let (minute, text) ← readAfter? ':' 2 text
  let (second, text) ← readAfter? ':' 2 text
  let (milli, text) ← readAfter? '.' 3 text
  let date ← Date.ofYMD? year month day
  let time ← TimeOfDay.ofParts? hour minute second (milli * 1000)
  if text = [] then return ⟨date, time⟩ else none

theorem readNumber?_paddedDigits {width n : Nat} (h : n < 10 ^ width) (rest : Text) :
    readNumber? width (paddedDigits 10 width n ++ rest) = some (n, rest) := by
  have hlength := length_paddedDigits 10 width n
  have hdigits : leadingDigits 10 width (paddedDigits 10 width n ++ rest) =
      paddedDigits 10 width n :=
    leadingDigits_append hlength
      (fun _ => digitValue_lt_of_mem_paddedDigits (by decide) (by decide)) rest
  simp only [readNumber?, hdigits, hlength, if_true, valueOf_paddedDigits_of_lt h]
  rw [List.drop_left' hlength]

theorem readAfter?_paddedDigits {width n : Nat} (h : n < 10 ^ width) (mark : Char) (rest : Text) :
    readAfter? mark width (mark :: (paddedDigits 10 width n ++ rest)) = some (n, rest) := by
  have hstart : afterStart? [mark] (mark :: (paddedDigits 10 width n ++ rest)) =
      some (paddedDigits 10 width n ++ rest) := afterStart?_eq_some_iff.2 rfl
  rw [readAfter?, hstart, Option.bind_some, readNumber?_paddedDigits h]

/-- A time of day without what is less than a millisecond. -/
def TimeOfDay.cut (t : TimeOfDay) : TimeOfDay where
  hour := t.hour
  minute := t.minute
  second := t.second
  micro := t.micro / 1000 * 1000
  hour_lt := t.hour_lt
  minute_lt := t.minute_lt
  second_lt := t.second_lt
  micro_lt := Nat.lt_of_le_of_lt (Nat.div_mul_le_self t.micro 1000) t.micro_lt

/-- A civil time without what is less than a millisecond. -/
def Civil.cut (c : Civil) : Civil := ⟨c.date, c.time.cut⟩

theorem Civil.toMicros_cut (c : Civil) : c.cut.toMicros = c.millis * 1000 := by
  simp only [toMicros, millis, cut, TimeOfDay.toMicros, TimeOfDay.cut, dayMicros, secondMicros]
  omega

/-- The text of a civil time reads back, down to the millisecond. -/
theorem Civil.read?_text (c : Civil) : Civil.read? c.text = some c.cut := by
  obtain ⟨hyear, hmonth, hday⟩ := c.date.parts_lt
  obtain ⟨hhour, hminute, hsecond, hmilli⟩ := c.time.parts_lt
  have hdate : Date.ofYMD? c.date.year c.date.month c.date.day = some c.date :=
    Date.ofYMD?_eq_some_iff.2 ⟨rfl, rfl, rfl⟩
  have htime : TimeOfDay.ofParts? c.time.hour c.time.minute c.time.second
      (c.time.micro / 1000 * 1000) = some c.time.cut :=
    dif_pos ⟨⟨c.time.hour_lt, c.time.minute_lt⟩, c.time.second_lt, c.time.cut.micro_lt⟩
  have hend (t : Text) : t = t ++ [] := (List.append_nil t).symm
  rw [Civil.text, hend (paddedDigits 10 3 _)]
  simp only [Civil.read?, Date.text, TimeOfDay.clockText, List.append_assoc, List.cons_append,
    Option.bind_eq_bind, readNumber?_paddedDigits hyear, readAfter?_paddedDigits hmonth,
    readAfter?_paddedDigits hday, readAfter?_paddedDigits hhour, readAfter?_paddedDigits hminute,
    readAfter?_paddedDigits hsecond, readAfter?_paddedDigits hmilli, Option.bind_some, hdate,
    htime, if_true]
  rfl

end Calendar

end SqlWeave
