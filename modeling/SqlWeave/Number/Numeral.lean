/-
SqlWeave/Number/Numeral.lean

Reading decimal numerals: a sign, digits of any script with at most one point among them,
and an exponent.  Blanks around a numeral and underscores inside it say nothing.

Laying out the number `d.ddd · 10 ^ exponent` from its digits: with the point in its place, or
with the exponent written out.
-/
import SqlWeave.Text.CharClass

namespace SqlWeave

open Text

/-- The power by a whole exponent where that is positive, and one where it is not.  So `b ^ e`
is the quotient of `power b e` and `power b (-e)`. -/
def power (base : Nat) (e : Int) : Nat := Nat.pow base e.toNat

/-- The number `± coefficient · 10 ^ exponent`, as it was written. -/
structure Numeral where
  negative : Bool
  coefficient : Nat
  exponent : Int
  deriving DecidableEq

namespace Numeral

/-- The number with the given decimal digits. -/
def ofDigits (digits : List Nat) : Nat := digits.foldl (fun n d => 10 * n + d) 0

/-- The digits that the text begins with, and what follows them. -/
def takeDigits : Text → List Nat × Text
  | [] => ([], [])
  | c :: rest =>
    match decimalDigit? c with
    | some d => let (ds, rest') := takeDigits rest; (d :: ds, rest')
    | none => ([], c :: rest)

/-- The sign that the text begins with, whether it is a minus, and what follows it. -/
def takeSign : Text → Bool × Text
  | '-' :: rest => (true, rest)
  | '+' :: rest => (false, rest)
  | text => (false, text)

/-- The text without what says nothing. -/
def trimmed (text : Text) : Text :=
  let text := text.dropWhile isSpace
  ((text.reverse.dropWhile isSpace).reverse).filter fun c => c != '_'

/-- An exponent, which may be missing, and then the end of the text. -/
def exponent? : Text → Option Int
  | [] => some 0
  | c :: rest =>
    if c = 'e' ∨ c = 'E' then
      match takeSign rest with
      | (negative, rest') =>
        match takeDigits rest' with
        | (d :: ds, []) =>
          let n : Int := ofDigits (d :: ds)
          some (if negative then -n else n)
        | _ => none
    else none

/-- Reads an unsigned numeral. -/
def readUnsigned? (negative : Bool) (text : Text) : Option Numeral :=
  let (whole, rest) := takeDigits text
  let (part, rest) := match rest with
    | '.' :: rest' => takeDigits rest'
    | _ => ([], rest)
  if whole.isEmpty && part.isEmpty then none
  else (exponent? rest).map fun e => ⟨negative, ofDigits (whole ++ part), e - part.length⟩

/-- Reads a numeral. -/
def read? (text : Text) : Option Numeral :=
  let (negative, rest) := takeSign (trimmed text)
  readUnsigned? negative rest

/-- Reads an integer. -/
def readInt? (text : Text) : Option Int :=
  let (negative, rest) := takeSign (trimmed text)
  match takeDigits rest with
  | (d :: ds, []) =>
    let n : Int := ofDigits (d :: ds)
    some (if negative then -n else n)
  | _ => none

end Numeral

/-! ### Layout -/

namespace Layout

/-- A text of zeros. -/
def zeros (n : Nat) : Text := List.replicate n '0'

/-- Digits with a point after the first `n` of them, if any are left. -/
def pointAfter (n : Nat) (digits : Text) : Text :=
  match digits.drop n with
  | [] => digits
  | part => digits.take n ++ '.' :: part

/-- The number with the point in its place. -/
def positional (digits : Text) : (exponent : Int) → Text
  | .negSucc n => ['0', '.'] ++ zeros n ++ digits
  | .ofNat n => pointAfter (n + 1) (digits ++ zeros (n + 1 - digits.length))

/-- The number with a signed exponent of at least `width` digits after `letter`. -/
def scientific (letter : Char) (width : Nat) (digits : Text) (exponent : Int) : Text :=
  let size := Text.ofNat exponent.natAbs
  pointAfter 1 digits ++ letter :: (if exponent < 0 then '-' else '+') ::
    (zeros (width - size.length) ++ size)

/-- A minus in front of a negative number. -/
def signed (negative : Bool) (text : Text) : Text := if negative then '-' :: text else text

end Layout

end SqlWeave
