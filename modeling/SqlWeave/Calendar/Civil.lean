/-
SqlWeave/Calendar/Civil.lean

Times of day and civil times, counted in microseconds, and dated moments, which may know
their distance from universal time.

Main results: a day count and a time of day make up a civil time's microseconds
(`Civil.toMicros_lt`, `TimeOfDay.toMicros_lt`), and a time of day is read back from its
own count (`TimeOfDay.ofMicros_toMicros`).
-/
import SqlWeave.Calendar.Date

namespace SqlWeave.Calendar

/-- The microseconds of a second. -/
abbrev secondMicros : Nat := 1000000

/-- The microseconds of a minute. -/
abbrev minuteMicros : Nat := 60 * secondMicros

/-- The microseconds of a day. -/
abbrev dayMicros : Nat := 86400 * secondMicros

/-- A time of day. -/
structure TimeOfDay where
  hour : Nat
  minute : Nat
  second : Nat
  micro : Nat
  hour_lt : hour < 24
  minute_lt : minute < 60
  second_lt : second < 60
  micro_lt : micro < 1000000
  deriving DecidableEq

namespace TimeOfDay

/-- The time of day with the given parts, if there is one. -/
def ofParts? (hour minute second micro : Nat) : Option TimeOfDay :=
  if h : (hour < 24 ∧ minute < 60) ∧ second < 60 ∧ micro < 1000000 then
    some ⟨hour, minute, second, micro, h.1.1, h.1.2, h.2.1, h.2.2⟩
  else none

/-- The microseconds since midnight. -/
def toMicros (t : TimeOfDay) : Nat :=
  ((t.hour * 60 + t.minute) * 60 + t.second) * secondMicros + t.micro

/-- The time of day so many microseconds after midnight, days left aside. -/
def ofMicros (n : Nat) : TimeOfDay where
  hour := n / (3600 * secondMicros) % 24
  minute := n / (60 * secondMicros) % 60
  second := n / secondMicros % 60
  micro := n % secondMicros
  hour_lt := Nat.mod_lt _ (by decide)
  minute_lt := Nat.mod_lt _ (by decide)
  second_lt := Nat.mod_lt _ (by decide)
  micro_lt := Nat.mod_lt _ (by decide)

theorem toMicros_lt (t : TimeOfDay) : t.toMicros < dayMicros := by
  have := t.hour_lt
  have := t.minute_lt
  have := t.second_lt
  have := t.micro_lt
  simp only [toMicros, secondMicros, dayMicros]
  omega

theorem ofMicros_toMicros (t : TimeOfDay) : ofMicros t.toMicros = t := by
  obtain ⟨h, m, s, u, hh, hm, hs, hu⟩ := t
  simp only [ofMicros, toMicros, mk.injEq, secondMicros]
  omega

theorem toMicros_ofMicros {n : Nat} (h : n < dayMicros) : (ofMicros n).toMicros = n := by
  simp only [dayMicros, secondMicros] at h
  simp only [ofMicros, toMicros, secondMicros]
  omega

end TimeOfDay

/-- A date and a time of day. -/
structure Civil where
  date : Date
  time : TimeOfDay
  deriving DecidableEq

namespace Civil

/-- The microseconds since the start of the calendar. -/
def toMicros (c : Civil) : Nat := c.date.toDays * dayMicros + c.time.toMicros

/-- The civil time so many microseconds after the start of the calendar, if it lies in it. -/
def ofMicros? : Int → Option Civil
  | .ofNat n => (Date.ofDays? (n / dayMicros)).map fun date => ⟨date, .ofMicros (n % dayMicros)⟩
  | .negSucc _ => none

/-- The civil time moved by some microseconds, if it stays in the calendar. -/
def shift? (c : Civil) (micros : Int) : Option Civil := ofMicros? (c.toMicros + micros)

/-- A civil time lies before the end of its day. -/
theorem toMicros_lt (c : Civil) : c.toMicros < (c.date.toDays + 1) * dayMicros := by
  have := c.time.toMicros_lt
  simp only [toMicros, Nat.add_mul]
  omega

end Civil

/-- How many microseconds a clock is east of universal time, less than a day. -/
structure Offset where
  micros : Int
  lt_day : micros.natAbs < dayMicros
  deriving DecidableEq

namespace Offset

/-- The offset of so many seconds, if there is one. -/
def ofSeconds? (seconds : Int) : Option Offset :=
  if h : (seconds * secondMicros).natAbs < dayMicros then some ⟨seconds * secondMicros, h⟩
  else none

/-- Universal time. -/
def zero : Offset := ⟨0, by decide⟩

end Offset

/-- What the host's own clock shows.  Where there is summer time its offset depends on the moment.

The clock tells every civil time: one that comes twice as the earlier, and one that is skipped by
the offset before the change.  The calendar's ends are no exception, though a host may refuse to
tell a civil time that is within a day of them. -/
structure Clock where
  /-- The offset at an instant, given as its civil time in universal time. -/
  offsetAt : Civil → Offset
  /-- The offset by which a civil time that names none is told. -/
  offsetOf : Civil → Offset

namespace Clock

/-- The clock of a host whose offset never changes. -/
def fixed (offset : Offset) : Clock := ⟨fun _ => offset, fun _ => offset⟩

instance : Coe Offset Clock := ⟨fixed⟩

/-- The clock that shows universal time. -/
def zero : Clock := fixed .zero

end Clock

/-- A dated moment: a civil time, and where it is known the offset of the clock that shows it.
One that is not `definite` stands for no moment at all. -/
structure Moment where
  civil : Civil
  offset : Option Offset
  definite : Bool
  deriving DecidableEq

namespace Moment

/-- The offset of a moment.  One that knows none is told by the host's clock. -/
def offsetFrom (host : Clock) (m : Moment) : Offset := m.offset.getD (host.offsetOf m.civil)

/-- The microseconds of universal time since the start of the calendar, which lie outside
it for a few moments at its ends. -/
def instant (host : Clock) (m : Moment) : Int := m.civil.toMicros - (m.offsetFrom host).micros

end Moment

end SqlWeave.Calendar
