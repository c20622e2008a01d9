/-
SqlWeave/Series.lean

Writing the items of a series with `", "` between them.  Where series may nest, an inner
series becomes a group in round brackets; everywhere else inner series are written flat, in
line with their neighbours.

The rule for a single item may have effects, such as failing; items are written in order.
-/
import SqlWeave.Value.Kind

namespace SqlWeave.Series

open Text

variable {m : Type → Type} [Monad m]

mutual

/-- One item, where `one` writes what is no series. -/
def flat (one : Value → m Text) : Value → m Text
  | .series _ items => do return commaJoin (← flats one items)
  | v => one v

/-- Each of the items. -/
def flats (one : Value → m Text) : List Value → m (List Text)
  | [] => pure []
  | v :: vs => do
    let t ← flat one v
    let ts ← flats one vs
    return t :: ts

end

/-- One item, with round brackets around it if it is a series. -/
def grouped (one : Value → m Text) (v : Value) : m Text :=
  if v.isSeries then do return '(' :: ((← flat one v) ++ [')']) else one v

/-- Each of the items, with round brackets around those that are series. -/
def groupeds (one : Value → m Text) : List Value → m (List Text)
  | [] => pure []
  | v :: vs => do
    let t ← grouped one v
    let ts ← groupeds one vs
    return t :: ts

/-- The items of a series. -/
def write (one : Value → m Text) (nests : Bool) (items : List Value) : m Text := do
  return commaJoin (← if nests then groupeds one items else flats one items)

theorem flat_of_not_isSeries {one : Value → m Text} {v : Value} (h : v.isSeries = false) :
    flat one v = one v := by
  cases v <;> simp_all [flat, Value.isSeries]

end SqlWeave.Series
