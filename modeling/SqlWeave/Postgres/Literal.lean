/-
SqlWeave/Postgres/Literal.lean

How Postgres writes strings, bytes and identifiers.  A text without special characters but
the apostrophe is a plain string, all others are strings with escapes.  No Postgres text can
hold the zero character: where there are escapes it is spelled out, for the server to
refuse, and elsewhere it is refused here.

Main results: escaping works character by character (`escapeBody_append`,
`unicodeBody_append`), and a text is refused exactly for a zero character
(`withoutNul_eq_ok_iff`).
-/
import SqlWeave.Name
import SqlWeave.Text.Meta
import SqlWeave.Postgres.Lexer

namespace SqlWeave.Postgres

open Text

/-! ### Bodies -/

/-- One character in the body of a string with escapes.  The zero character is written in
hexadecimal, so that no digit after it can extend the escape.  An apostrophe is doubled,
which works for a string without escapes too. -/
def escapeChar (c : Char) : Text :=
  if c = nul then "\\x00".toList
  else if c = backspace then [backslash, 'b']
  else if c = '\t' then [backslash, 't']
  else if c = '\n' then [backslash, 'n']
  else if c = '\r' then [backslash, 'r']
  else if c = substitute then "\\x1a".toList
  else if c = apostrophe then [apostrophe, apostrophe]
  else if isMeta c then [backslash, c]
  else [c]

/-- The body of a string with escapes. -/
def escapeBody (t : Text) : Text := t.flatMap escapeChar

/-- One character in a body with code point escapes. -/
def unicodeChar (c : Char) : Text :=
  if isMeta c then backslash :: paddedDigits 16 4 c.toNat else [c]

/-- The body of a string or identifier with code point escapes. -/
def unicodeBody (t : Text) : Text := t.flatMap unicodeChar

theorem escapeBody_append (a b : Text) : escapeBody (a ++ b) = escapeBody a ++ escapeBody b := by
  simp [escapeBody]

theorem unicodeBody_append (a b : Text) :
    unicodeBody (a ++ b) = unicodeBody a ++ unicodeBody b := by
  simp [unicodeBody]

/-- A text for a construct that cannot spell the zero character. -/
def withoutNul (delimiter t : Text) : Except Failure Text :=
  if t.contains nul then .error (.unrepresentable nul delimiter) else .ok t

theorem withoutNul_eq_ok_iff {delimiter t u : Text} :
    withoutNul delimiter t = .ok u ↔ nul ∉ t ∧ u = t := by
  by_cases h : nul ∈ t <;> simp [withoutNul, h, eq_comm]

/-- The body of a construct without escapes: its quote is doubled. -/
def plainBody (mark : Char) (delimiter t : Text) : Except Failure Text :=
  (withoutNul delimiter t).map (doubled mark)

/-! ### Strings and bytes -/

/-- Whether a text needs a string with escapes. -/
def needsEscapes (t : Text) : Bool := t.any fun c => isMeta c && c != apostrophe

/-- A string literal. -/
def quoteString (t : Text) : Text :=
  if needsEscapes t then 'E' :: between apostrophe (escapeBody t)
  else between apostrophe (doubled apostrophe t)

/-- A literal for some bytes. -/
def quoteBlob (data : List UInt8) : Text :=
  "decode('".toList ++ hexBytes data ++ "', 'hex')".toList

/-- The four binary digits of a hexadecimal digit. -/
def bitsOfDigit (c : Char) : Text :=
  if c.isDigit then paddedDigits 2 4 (c.toNat - '0'.toNat)
  else if 'a' ≤ c ∧ c ≤ 'f' then paddedDigits 2 4 (c.toNat - 'a'.toNat + 10)
  else []

/-- The binary digits of some hexadecimal digits. -/
def bitsOfHex (digits : Text) : Text := digits.flatMap bitsOfDigit

/-! ### Identifiers -/

/-- What opens an identifier. -/
def nameOpener (unicode : Bool) : Text := if unicode then ['u', '&', quotation] else [quotation]

/-- A name between double quotes, in its pieces or as one. -/
def quoteName (unicode splits : Bool) (name : Text) : Except Failure Text :=
  if unicode then
    .ok (Name.quotedPath (fun p => nameOpener true ++ unicodeBody p ++ [quotation]) splits name)
  else
    (withoutNul [quotation] name).map
      (Name.quotedPath (fun p => nameOpener false ++ doubled quotation p ++ [quotation]) splits)

/-- What follows the quoted identifier that a text begins with. -/
def namePart? (text : Text) : Option Text :=
  match Quote.opened? text with
  | some (q, body) => if q.isName then Name.afterPart? q.mark q.escapes body else none
  | none => none

/-- Identifiers stand between double quotes.  Any trusted form is taken; new ones are written
plain, or with code point escapes. -/
def nameStyle (unicode : Bool) : NameStyle where
  part? := namePart?
  quote := quoteName unicode

end SqlWeave.Postgres
