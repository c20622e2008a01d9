/-
SqlWeave/Calendar/Describe.lean

How dates, times and durations describe themselves: the plain description is for reading,
the full one names the kind of thing and lists its parts.
-/
import SqlWeave.Calendar.Timestamp

namespace SqlWeave.Calendar

open Text

/-- A kind with its parts in round brackets. -/
def described (kind : String) (parts : List Text) : Text :=
  kind.toList ++ '(' :: (commaJoin parts ++ [')'])

/-- A named part. -/
def part (name : String) (n : Int) : Text := name.toList ++ '=' :: ofInt n

/-! ### Durations -/

/-- A length of time in microseconds. -/
structure Duration where
  micros : Int
  deriving DecidableEq

namespace Duration

/-- The whole days, rounded down. -/
def days (d : Duration) : Int := d.micros.fdiv dayMicros

/-- The microseconds left after the whole days. -/
def rest (d : Duration) : Nat := (d.micros.fmod dayMicros).toNat

/-- The plain description: the days, if there are any, and a clock time. -/
def plain (d : Duration) : Text :=
  let t := TimeOfDay.ofMicros d.rest
  let days :=
    if d.days = 0 then []
    else ofInt d.days ++ (if d.days.natAbs = 1 then " day, ".toList else " days, ".toList)
  let micros := if t.micro = 0 then [] else '.' :: paddedDigits 10 6 t.micro
  days ++ ofNat t.hour ++ ':' :: paddedDigits 10 2 t.minute ++
    ':' :: paddedDigits 10 2 t.second ++ micros

/-- The full description. -/
def full (d : Duration) : Text :=
  let named := [("days", d.days), ("seconds", (d.rest / secondMicros : Nat)),
    ("microseconds", (d.rest % secondMicros : Nat))]
  let parts := (named.filter fun p => p.2 != 0).map fun p => part p.1 p.2
  described "datetime.timedelta" (if parts.isEmpty then [['0']] else parts)

end Duration

/-! ### Dates and times -/

/-- The full description of a date. -/
def Date.full (d : Date) : Text :=
  described "datetime.date" [ofNat d.year, ofNat d.month, ofNat d.day]

namespace TimeOfDay

/-- The plain description: microseconds are left out when there are none. -/
def plain (t : TimeOfDay) : Text :=
  t.clockText ++ (if t.micro = 0 then [] else '.' :: paddedDigits 10 6 t.micro)

/-- The parts of a full description: zero microseconds are left out, and then zero seconds. -/
def parts (t : TimeOfDay) : List Text :=
  [ofNat t.hour, ofNat t.minute] ++
    (if t.micro != 0 then [ofNat t.second, ofNat t.micro]
     else if t.second != 0 then [ofNat t.second] else [])

/-- The full description. -/
def full (t : TimeOfDay) : Text := described "datetime.time" t.parts

end TimeOfDay

namespace Moment

/-- An offset, as hours and minutes; seconds if there is more, and what is left of these. -/
def offsetText (offset : Offset) : Text :=
  let t := TimeOfDay.ofMicros offset.micros.natAbs
  (if offset.micros < 0 then '-' else '+') :: paddedDigits 10 2 t.hour ++
    ':' :: paddedDigits 10 2 t.minute ++
    (if t.second = 0 ∧ t.micro = 0 then [] else ':' :: paddedDigits 10 2 t.second) ++
    (if t.micro = 0 then [] else '.' :: paddedDigits 10 6 t.micro)

/-- The plain description. -/
def plain (m : Moment) : Text :=
  m.civil.date.text ++ ' ' :: m.civil.time.plain ++ (m.offset.map offsetText).getD []

/-- The full description of an offset. -/
def fullZone (offset : Offset) : Text :=
  if offset.micros = 0 then "datetime.timezone.utc".toList
  else described "datetime.timezone" [(Duration.mk offset.micros).full]

/-- The full description. -/
def full (m : Moment) : Text :=
  let d := m.civil.date
  described "datetime.datetime" <|
    [ofNat d.year, ofNat d.month, ofNat d.day] ++ m.civil.time.parts ++
      (m.offset.map fun o => ["tzinfo=".toList ++ fullZone o]).getD []

end Moment

end SqlWeave.Calendar
