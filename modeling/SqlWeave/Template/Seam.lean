/-
SqlWeave/Template/Seam.lean

The seam between a value and its neighbours.  Two quotes of one kind that meet would be read
as a doubled quote inside one string, so a blank is put between them.

Main results: a value of which neither end meets its own quote stays as it is
(`setOff_eq_self`).
-/
import SqlWeave.Text.Basic

namespace SqlWeave.Template

open Text

/-- The quotes of the two dialects. -/
def isQuote (c : Char) : Bool := c = apostrophe || c = quotation || c = backtick

/-- A value with a blank at each end that would fuse with its neighbour.  `before` is the
last character of the text so far, or nothing, and `after` is the text that follows. -/
def setOff (before escaped after : Text) : Text :=
  match escaped.head?, escaped.getLast? with
  | some head, some tail =>
    (if isQuote head ∧ before = [head] then [' '] else []) ++ escaped ++
      (if isQuote tail ∧ after.head? = some tail then [' '] else [])
  | _, _ => escaped

@[simp] theorem setOff_nil (before after : Text) : setOff before [] after = [] := rfl

theorem setOff_eq_self {before escaped after : Text}
    (hb : ∀ c, escaped.head? = some c → isQuote c → before ≠ [c])
    (ha : ∀ c, escaped.getLast? = some c → isQuote c → after.head? ≠ some c) :
    setOff before escaped after = escaped := by
  unfold setOff
  split
  · rename_i head tail hh ht
    have h1 : ¬(isQuote head ∧ before = [head]) := fun h => hb head hh h.1 h.2
    have h2 : ¬(isQuote tail ∧ after.head? = some tail) := fun h => ha tail ht h.1 h.2
    simp [h1, h2]
  · rfl

end SqlWeave.Template
