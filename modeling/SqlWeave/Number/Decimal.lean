/-
SqlWeave/Number/Decimal.lean

Decimal numbers that keep the digits they were written with, so `1.50` is not `1.5`.
-/
import SqlWeave.Number.Numeral

namespace SqlWeave

open Text

/-- A decimal number.  One that is not a number may signal and may carry digits. -/
inductive Decimal
  | finite (negative : Bool) (coefficient : Nat) (exponent : Int)
  | infinite (negative : Bool)
  | nan (negative signaling : Bool) (payload : Text)
  deriving DecidableEq

namespace Decimal

/-- The digits that a marker for "not a number" carries, without zeros in front. -/
def payload? (text : Text) : Option Text :=
  match Numeral.takeDigits text with
  | (ds, []) => some (if ds.all (· = 0) then [] else ofNat (Numeral.ofDigits ds))
  | _ => none

/-- Reads a decimal number. -/
def read? (text : Text) : Option Decimal :=
  let (negative, rest) := Numeral.takeSign (Numeral.trimmed text)
  let word := rest.folded
  if word = "inf".toList ∨ word = "infinity".toList then some (infinite negative)
  else match afterStart? "nan".toList word, afterStart? "snan".toList word with
    | some digits, _ => (payload? digits).map (nan negative false)
    | _, some digits => (payload? digits).map (nan negative true)
    | none, none => (Numeral.readUnsigned? negative rest).map fun x =>
        finite negative x.coefficient x.exponent

/-- The text of a finite number: positional unless that takes zeros after the digits, or
more than five zeros between the point and the digits. -/
def finiteText (negative : Bool) (coefficient : Nat) (exponent : Int) : Text :=
  let digits := ofNat coefficient
  let lead : Int := exponent + digits.length - 1
  Layout.signed negative <|
    if exponent ≤ 0 ∧ -6 ≤ lead then Layout.positional digits lead
    else Layout.scientific 'E' 1 digits lead

/-- The text of a number. -/
def text : Decimal → Text
  | finite negative coefficient exponent => finiteText negative coefficient exponent
  | infinite negative => Layout.signed negative "Infinity".toList
  | nan negative signaling payload =>
    Layout.signed negative ((if signaling then "sNaN".toList else "NaN".toList) ++ payload)

end Decimal

end SqlWeave
