/-
SqlWeave/MySQL/Grammar.lean

How MySQL writes values: strings with backslash escapes between apostrophes, identifiers
between backticks, bytes as hexadecimal literals.

Main results: escaping works character by character (`escapeBody_append`).
-/
import SqlWeave.Grammar
import SqlWeave.MySQL.Lexer
import SqlWeave.Text.Meta

namespace SqlWeave.MySQL

open Text

/-! ### Strings and bytes -/

/-- One character in the body of a string. -/
def escapeChar (c : Char) : Text :=
  if c = nul then [backslash, '0']
  else if c = backspace then [backslash, 'b']
  else if c = '\t' then [backslash, 't']
  else if c = '\n' then [backslash, 'n']
  else if c = '\r' then [backslash, 'r']
  else if c = substitute then [backslash, 'Z']
  else if isMeta c then [backslash, c]
  else [c]

/-- The body of a string, for either quote. -/
def escapeBody (t : Text) : Text := t.flatMap escapeChar

theorem escapeBody_append (a b : Text) : escapeBody (a ++ b) = escapeBody a ++ escapeBody b := by
  simp [escapeBody]

/-- A string literal. -/
def quoteString (t : Text) : Text := between apostrophe (escapeBody t)

/-- A literal for some bytes. -/
def quoteBlob (data : List UInt8) : Text := 'X' :: between apostrophe (hexBytes data)

/-! ### Identifiers -/

/-- Identifiers stand between backticks. -/
def nameStyle : NameStyle where
  part?
    | [] => none
    | c :: body => if c = backtick then Name.afterPart? backtick false body else none
  quote splits name :=
    .ok (Name.quotedPath (fun p => between backtick (doubled backtick p)) splits name)

/-! ### Splicing -/

/-- The text of a value inside an open quote.  In a backtick the quotes that begin and end
the identifier are there already. -/
def splice (s : Surroundings) (options : Options) (delimiter : Text) (v : Value) :
    Except Failure Text :=
  if delimiter = [backtick] then do
    let quoted ← nameStyle.escape s.trust options.forbidQualified v
    return (quoted.drop 1).dropLast
  else if delimiter = [apostrophe] ∨ delimiter = [quotation] then
    .ok (escapeBody (spliceText s options v))
  else .error (.unescapableDelimiter delimiter)

/-- MySQL and its relatives. -/
def grammar : Grammar Quote where
  lexer := lexer
  quoteString := quoteString
  quoteBlob := quoteBlob
  nameStyle := nameStyle
  splice := splice
  checkFreeStanding _ _ _ := .ok ()

end SqlWeave.MySQL
