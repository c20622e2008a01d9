/-
SqlWeave/Calendar/Zone.lean

The offset that the name of a time zone carries: a sign, two digits for the hours and,
after an optional colon, two digits for the minutes.  It is looked for anywhere in the
name, so `UTC+05:30` carries one too.
-/
import SqlWeave.Text.CharClass

namespace SqlWeave.Calendar

open Text

/-- The number that the text begins with, written in two digits of any script. -/
def twoDigits? : Text → Option (Nat × Text)
  | a :: b :: rest => do
    let tens ← decimalDigit? a
    let ones ← decimalDigit? b
    return (10 * tens + ones, rest)
  | _ => none

/-- The minutes after the hours of an offset.  Without two digits there are none. -/
def offsetMinutes (text : Text) : Nat :=
  let digits := match text with
    | ':' :: rest => rest
    | _ => text
  match twoDigits? digits with
  | some (minutes, _) => minutes
  | none => 0

/-- The offset that the text begins with, in minutes.  White space counts as a plus. -/
def offsetHere? : Text → Option Int
  | [] => none
  | c :: rest =>
    if c = '+' ∨ c = '-' ∨ isSpace c then
      (twoDigits? rest).map fun (hours, rest') =>
        let minutes : Int := hours * 60 + offsetMinutes rest'
        if c = '-' then -minutes else minutes
    else none

/-- The first offset in a text, in minutes. -/
def firstOffset? : Text → Option Int
  | [] => none
  | c :: rest => (offsetHere? (c :: rest)).or (firstOffset? rest)

/-- The offset named by a time zone, in minutes east of universal time. -/
def zoneOffset? (zone : Text) : Option Int := if zone = ['Z'] then some 0 else firstOffset? zone

end SqlWeave.Calendar
