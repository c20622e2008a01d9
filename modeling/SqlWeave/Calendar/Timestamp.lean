/-
SqlWeave/Calendar/Timestamp.lean

The text of a moment as it is seen from a time zone.  There is none for an indefinite
moment, nor for one that leaves the calendar on its way through universal time.
-/
import SqlWeave.Calendar.Civil
import SqlWeave.Calendar.Zone

namespace SqlWeave.Calendar

open Text

/-- The name of the host's own time zone. -/
def localZone : Text := "local".toList

/-- The civil time of a moment as it is seen from a time zone.  A zone that names no offset
is universal time.  In the host's own zone a moment without offset stays as it is. -/
def Moment.seenFrom? (host : Clock) (zone : Text) (m : Moment) : Option Civil :=
  if !m.definite then none
  else if zone = localZone then
    match m.offset with
    | none => some m.civil
    | some offset =>
      (m.civil.shift? (-offset.micros)).bind fun utc => utc.shift? (host.offsetAt utc).micros
  else
    (m.civil.shift? (-(m.offsetFrom host).micros)).bind fun utc =>
      match zoneOffset? zone with
      | none => some utc
      | some minutes => if minutes = 0 then some utc else utc.shift? (minutes * minuteMicros)

/-- Year, month and day. -/
def Date.text (d : Date) : Text :=
  paddedDigits 10 4 d.year ++ '-' :: paddedDigits 10 2 d.month ++ '-' :: paddedDigits 10 2 d.day

/-- Hours, minutes and seconds. -/
def TimeOfDay.clockText (t : TimeOfDay) : Text :=
  paddedDigits 10 2 t.hour ++ ':' :: paddedDigits 10 2 t.minute ++ ':' :: paddedDigits 10 2 t.second

/-- A civil time down to the millisecond. -/
def Civil.text (c : Civil) : Text :=
  c.date.text ++ ' ' :: c.time.clockText ++ '.' :: paddedDigits 10 3 (c.time.micro / 1000)

/-- The text of a moment as it is seen from a time zone. -/
def Moment.text? (host : Clock) (zone : Text) (m : Moment) : Option Text :=
  (m.seenFrom? host zone).map Civil.text

end SqlWeave.Calendar
