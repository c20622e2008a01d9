/-
SqlWeave/Postgres/Gap.lean

The gap between two string constants that Postgres joins into one: blanks and line
comments, with a line break among them.  The joined constant is read by the rules of its
first part, so a string value must not be followed by such a gap and another string.
-/
import SqlWeave.Failure

namespace SqlWeave.Postgres

open Text

/-- The blanks of a gap that do not break the line. -/
def isGapBlank (c : Char) : Bool := c = '\t' || c = '\x0c' || c = ' '

/-- Whether the text opens a line comment. -/
def opensDashes (text : Text) : Bool := ['-', '-'].isPrefixOf text

/-- What follows the first line break of a gap, while only blanks and a comment come before
it.  The flag tells whether the text starts inside the comment. -/
def afterBreak? : (inComment : Bool) → Text → Option Text
  | _, [] => none
  | inComment, c :: rest =>
    if isLineBreak c then some rest
    else if inComment ∨ opensDashes (c :: rest) then afterBreak? true rest
    else if isGapBlank c then afterBreak? false rest
    else none

/-- What follows the blanks, line breaks and comments that the text begins with. -/
def dropGap : (inComment : Bool) → Text → Text
  | _, [] => []
  | inComment, c :: rest =>
    if isLineBreak c then dropGap false rest
    else if inComment ∨ opensDashes (c :: rest) then dropGap true rest
    else if isGapBlank c then dropGap false rest
    else c :: rest

/-- What follows the gap that the text begins with. -/
def afterGap? (text : Text) : Option Text := (afterBreak? false text).map (dropGap false)

/-- Whether a string just before `following` would be joined to another one.  Where the gap
takes up all of `following`, a value after it counts as one. -/
def continues (following : Text) (valueFollows : Bool) : Bool :=
  match afterGap? following with
  | none => false
  | some [] => valueFollows
  | some (c :: _) => c = apostrophe

/-- Refuses a value that ends in a string constant and would be joined to another one. -/
def checkFreeStanding (escaped following : Text) (valueFollows : Bool) : Except Failure Unit :=
  if escaped.getLast? = some apostrophe ∧ continues following valueFollows then
    .error (.ambiguousContinuation following)
  else .ok ()

end SqlWeave.Postgres
