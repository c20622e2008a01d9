/-
SqlWeave/Text/CharClass.lean

The classes of characters that tokens and descriptions are told by.  ASCII is decided
by rule, all other characters by the tables.  The decimal digits are those of all scripts, by
Unicode 14; every script lists its digits zero to nine in a row, so a table of the zeros says it
all.

Main results: a decimal digit is worth less than ten (`decimalDigit?_lt`).
-/
import SqlWeave.Text.Basic
import SqlWeave.Text.Unprintable
import SqlWeave.Text.Alphanumeric

namespace SqlWeave.Text

/-! ### Decimal digits -/

/-- Where a run of ten decimal digits starts. -/
def digitZeros : List Nat :=
  [48, 1632, 1776, 1984, 2406, 2534, 2662, 2790, 2918, 3046, 3174, 3302, 3430, 3558, 3664, 3792,
   3872, 4160, 4240, 6112, 6160, 6470, 6608, 6784, 6800, 6992, 7088, 7232, 7248, 42528,
   43216, 43264, 43472, 43504, 43600, 44016, 65296, 66720, 68912, 69734, 69872, 69942,
   70096, 70384, 70736, 70864, 71248, 71360, 71472, 71904, 72016, 72784, 73040, 73120,
   92768, 92864, 93008, 120782, 120792, 120802, 120812, 120822, 123200, 123632, 125264,
   130032]

/-- The value of a decimal digit of any script. -/
def decimalDigit? (c : Char) : Option Nat :=
  (digitZeros.find? fun z => z ≤ c.toNat && c.toNat < z + 10).map fun z => c.toNat - z

/-- A decimal digit is worth less than ten. -/
theorem decimalDigit?_lt {c : Char} {d : Nat} (h : decimalDigit? c = some d) : d < 10 := by
  obtain ⟨z, hz, rfl⟩ := Option.map_eq_some_iff.1 h
  have := List.find?_some hz
  simp only [Bool.and_eq_true, decide_eq_true_eq] at this
  omega

/-! ### Classes -/

/-- Whether a code point lies in one of the ranges. -/
def inRanges (ranges : List (Nat × Nat)) (n : Nat) : Bool :=
  ranges.any fun r => r.1 ≤ n && n ≤ r.2

/-- Letters, digits and other numerals of any script, and the underscore. -/
def isWordChar (c : Char) : Bool :=
  if c.toNat < 128 then c.isAlphanum || c = '_' else inRanges alphanumericRanges c.toNat

/-- A word starts with any word character but a decimal digit. -/
def isWordStart (c : Char) : Bool := isWordChar c && (decimalDigit? c).isNone

/-- White space of any script, with the information separators of ASCII. -/
def isSpace (c : Char) : Bool :=
  inRanges [(9, 13), (28, 32), (133, 133), (160, 160), (5760, 5760), (8192, 8202), (8232, 8233),
    (8239, 8239), (8287, 8287), (12288, 12288)] c.toNat

/-- Whether a quoted description shows the character as it is. -/
def isPrintable (c : Char) : Bool :=
  if c.toNat < 127 then 32 ≤ c.toNat else !inRanges unprintableRanges c.toNat

end SqlWeave.Text
