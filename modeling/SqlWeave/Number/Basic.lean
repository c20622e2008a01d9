/-
SqlWeave/Number/Basic.lean

Numbers of three kinds, their SQL text, and when two of them are the same number.
-/
import SqlWeave.Number.Shortest
import SqlWeave.Number.Decimal

namespace SqlWeave

/-- A number of one of the three kinds. -/
inductive Number
  | int (n : Int)
  | binary (x : Binary64)
  | decimal (d : Decimal)
  deriving DecidableEq

namespace Number

/-- The SQL text of a number. -/
def sqlText : Number → Text
  | int n => Text.ofInt n
  | binary .nan => "NaN".toList
  | binary (.infinite negative) => Layout.signed negative "Infinity".toList
  | binary x => x.textWithPoint
  | decimal (.nan ..) => "NaN".toList
  | decimal (.infinite negative) => Layout.signed negative "Infinity".toList
  | decimal d => d.text

/-- The text by which a number describes itself. -/
def text : Number → Text
  | int n => Text.ofInt n
  | binary x => x.textWithPoint
  | decimal d => d.text

/-! ### The same number -/

/-- An exact value: `± coefficient · 10 ^ exponent` with a coefficient that does not end in
zero, or one of the infinities. -/
inductive Exact
  | infinite (negative : Bool)
  | finite (negative : Bool) (coefficient : Nat) (exponent : Int)
  deriving DecidableEq

/-- The exact value with the zeros at the end of the coefficient moved into the exponent. -/
def Exact.normal (negative : Bool) (coefficient : Nat) (exponent : Int) : Exact :=
  if coefficient = 0 then finite false 0 0
  else
    let kept := Shortest.dropZeros (Text.ofNat coefficient)
    let dropped := (Text.ofNat coefficient).length - kept.length
    finite negative (coefficient / power 10 dropped) (exponent + dropped)

/-- The exact value of a number, unless it is not a number. -/
def value? : Number → Option Exact
  | int n => some (Exact.normal (n < 0) n.natAbs 0)
  | binary .nan => none
  | binary (.infinite negative) => some (.infinite negative)
  | binary (.finite negative m q) =>
    some (Exact.normal negative (m * power 2 q * power 5 (-q)) (min q 0))
  | decimal (.nan ..) => none
  | decimal (.infinite negative) => some (.infinite negative)
  | decimal (.finite negative c e) => some (Exact.normal negative c e)

/-- Whether two numbers have the same value.  What is not a number is the same as nothing. -/
def same (a b : Number) : Bool := a.value?.isSome && a.value? = b.value?

end Number

end SqlWeave
