/-
SqlWeave/Number/Binary.lean

Binary floating point numbers of 64 bits, as exact numbers `m · 2 ^ q`, and the one
nearest to a decimal numeral.

Main results: rounding a quotient misses it by half a unit at most
(`roundEven_lower`, `roundEven_upper`).
-/
import SqlWeave.Number.Numeral

namespace SqlWeave

/-- A floating point number.  A finite one is `± m · 2 ^ q` with `m < 2 ^ 53`, and `q` is
the least exponent, `-1074`, or `m` has all of its 53 bits. -/
inductive Binary64
  | nan
  | infinite (negative : Bool)
  | finite (negative : Bool) (m : Nat) (q : Int)
  deriving DecidableEq

namespace Binary64

/-- The quotient to the nearest integer, a half to the even one. -/
def roundEven (num den : Nat) : Nat :=
  let down := num / den
  let excess := 2 * (num % den)
  if excess < den ∨ excess = den ∧ down % 2 = 0 then down else down + 1

theorem roundEven_lower {num den : Nat} (h : 0 < den) :
    2 * num ≤ den * (2 * roundEven num den + 1) := by
  have hdiv := Nat.div_add_mod num den
  have hmod := Nat.mod_lt num h
  unfold roundEven
  simp only
  split <;> grind

theorem roundEven_upper {num den : Nat} (h : 0 < den) :
    den * (2 * roundEven num den) ≤ 2 * num + den := by
  have hdiv := Nat.div_add_mod num den
  have hmod := Nat.mod_lt num h
  unfold roundEven
  simp only
  split <;> grind

/-- The exponent of the leading bit of a positive quotient. -/
def leadingBit (num den : Nat) : Int :=
  let e : Int := (Nat.log2 num : Int) - Nat.log2 den
  if num * power 2 (-e) < den * power 2 e then e - 1 else e

/-- The zero with a sign. -/
def zero (negative : Bool) : Binary64 := finite negative 0 (-1074)

/-- The number with the mantissa `m`, which may have come out one bit too long. -/
def ofRounded (negative : Bool) (m : Nat) (q : Int) : Binary64 :=
  let (m, q) := if m = power 2 53 then (power 2 52, q + 1) else (m, q)
  if q > 971 then infinite negative else finite negative m q

/-- The number nearest to a numeral. -/
def nearest (x : Numeral) : Binary64 :=
  let size : Int := (Text.ofNat x.coefficient).length + x.exponent
  if x.coefficient = 0 ∨ size < -330 then zero x.negative
  else if size > 310 then infinite x.negative
  else
    let num := x.coefficient * power 10 x.exponent
    let den := power 10 (-x.exponent)
    let q := max (-1074) (leadingBit num den - 52)
    ofRounded x.negative (roundEven (num * power 2 (-q)) (den * power 2 q)) q

/-- Reads a floating point number. -/
def read? (text : Text) : Option Binary64 :=
  let (negative, rest) := Numeral.takeSign (Numeral.trimmed text)
  let word := rest.folded
  if word = "inf".toList ∨ word = "infinity".toList then some (infinite negative)
  else if word = "nan".toList then some nan
  else (Numeral.readUnsigned? negative rest).map nearest

end Binary64

end SqlWeave
