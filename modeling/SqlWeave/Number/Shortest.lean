/-
SqlWeave/Number/Shortest.lean

The fewest decimal digits that tell a floating point number from all others.

The numbers that round to `m · 2 ^ q` fill the interval between the midpoints to its
neighbours, ends included when `m` is even.  For one digit, two digits and so on, the two
decimal numbers next to the value are tried; the first grid with one of them in the
interval gives the digits.
-/
import SqlWeave.Number.Binary

namespace SqlWeave.Shortest

/-- The exponent of the leading decimal digit of the positive number `m · 2 ^ q`. -/
def leadingDigit (m : Nat) (q : Int) : Int :=
  let scaled := m * power 2 q * power 10 400 / power 2 (-q)
  (Text.ofNat scaled).length - 401

/-- Four times the distance to the midpoint below, in units of `2 ^ q`.  At a power of two
the neighbour below is only half as far away. -/
def gapBelow (m : Nat) (q : Int) : Nat := if m = power 2 52 ∧ q > -1074 then 1 else 2

/-- Whether `c · 10 ^ k` rounds to `m · 2 ^ q`. -/
def roundsTo (m : Nat) (q : Int) (k : Int) (c : Nat) : Bool :=
  let point := 4 * c * (power 10 k * power 2 (-q))
  let unit := power 2 q * power 10 (-k)
  let low := (4 * m - gapBelow m q) * unit
  let high := (4 * m + 2) * unit
  if m % 2 = 0 then low ≤ point && point ≤ high else low < point && point < high

/-- The multiple of `10 ^ k` that rounds to `m · 2 ^ q`, the nearer of two. -/
def onGrid? (m : Nat) (q : Int) (k : Int) : Option Nat :=
  let value := m * (power 2 q * power 10 (-k))
  let step := power 10 k * power 2 (-q)
  let down := value / step
  match roundsTo m q k down, roundsTo m q k (down + 1) with
  | false, false => none
  | true, false => some down
  | false, true => some (down + 1)
  | true, true =>
    let excess := 2 * (value % step)
    some (if excess < step ∨ excess = step ∧ down % 2 = 0 then down else down + 1)

/-- Drops zeros at the end. -/
def dropZeros (digits : Text) : Text := (digits.reverse.dropWhile (· = '0')).reverse

/-- The digits of the positive number `m · 2 ^ q`, and the exponent of the first one. -/
def digits (m : Nat) (q : Int) : Text × Int :=
  let lead := leadingDigit m q
  let grids := (List.range 17).map fun (n : Nat) => lead - n
  match grids.findSome? fun k => (onGrid? m q k).map fun c => (c, k) with
  | some (c, k) =>
    let written := Text.ofNat c
    (dropZeros written, written.length - 1 + k)
  | none => (['0'], 0)

end SqlWeave.Shortest

namespace SqlWeave.Binary64

/-- The text of a finite number: positional from `0.0001` up to `9999999999999999`, else
with an exponent of at least two digits. -/
def finiteText (negative : Bool) (m : Nat) (q : Int) : Text :=
  Layout.signed negative <|
    if m = 0 then ['0']
    else
      let (digits, exponent) := Shortest.digits m q
      if -4 ≤ exponent ∧ exponent < 16 then Layout.positional digits exponent
      else Layout.scientific 'e' 2 digits exponent

/-- The text of a number, in which a finite integral one keeps no fraction. -/
def text : Binary64 → Text
  | nan => "nan".toList
  | infinite negative => Layout.signed negative "inf".toList
  | finite negative m q => finiteText negative m q

/-- The text of a number, in which a finite one without exponent always has a fraction. -/
def textWithPoint : Binary64 → Text
  | finite negative m q =>
    let t := finiteText negative m q
    if t.any fun c => c = '.' || c = 'e' then t else t ++ ['.', '0']
  | x => x.text

end SqlWeave.Binary64
