/-
SqlWeave/Postgres/Grammar.lean

How Postgres splices values into open constructs.  The rule follows the text that opened
the construct, without regard to the case of a letter in it.
-/
import SqlWeave.Grammar
import SqlWeave.Postgres.Literal
import SqlWeave.Postgres.Gap

namespace SqlWeave.Postgres

open Text

/-! ### Dollar quotes -/

/-- Whether a text can stand between two dollar tags: the tag is not in it, and its end from
the last dollar on is not the beginning of the tag. -/
def fitsBetween (tag text : Text) : Bool :=
  !holds tag text &&
    match fromLast? '$' text with
    | none => true
    | some tail => !tail.isPrefixOf tag

/-- A text between dollar tags stays as it is, or is refused under the description `shown`. -/
def embed (shown tag text : Text) : Except Failure Text :=
  if fitsBetween tag text then .ok text else .error (.dollarClash tag text shown)

/-- A text between dollar tags stays as it is, or is refused. -/
def checkDollarEmbedding (text tag : Text) : Except Failure Text := embed text.quoted tag text

/-! ### Places of a value -/

/-- The rules for a value inside an open construct. -/
inductive Place
  /-- An identifier, plain or with code point escapes. -/
  | name (unicode : Bool)
  /-- A string without escapes. -/
  | plain
  /-- A bit string in binary digits. -/
  | bits
  /-- A bit string in hexadecimal digits. -/
  | hex
  /-- A string with escapes. -/
  | escape
  /-- After a closed string with escapes: the value brings its own quotes. -/
  | continuation
  /-- A string with code point escapes. -/
  | unicode
  /-- Between dollar tags. -/
  | dollar
  deriving DecidableEq

/-- The rule that belongs to the text that opened a construct. -/
def Place.ofDelimiter? (delimiter : Text) : Option Place :=
  if delimiter.folded = ['e'] then some continuation
  else if isTag delimiter then some dollar
  else match Quote.opened? delimiter with
    | some (.string, []) => some plain
    | some (.escape _, []) => some escape
    | some (.bits _, []) => some bits
    | some (.hex _, []) => some hex
    | some (.unicode _, []) => some unicode
    | some (.name, []) => some (name false)
    | some (.unicodeName _, []) => some (name true)
    | _ => none

/-- A quoted identifier without its first opening and its last closing quote, which the
open construct has already. -/
def unquoted (quotedName : Text) : Text :=
  let body := match Quote.opened? quotedName with
    | some (q, rest) => if q.isName then rest else quotedName
    | none => quotedName
  if body.getLast? = some quotation then body.dropLast else body

/-- How a refusal shows the text of a value. -/
def shownAs (v : Value) (text : Text) : Text :=
  match v with
  | .text .. => v.full
  | _ => text.quoted

/-- The text of a value inside a string or bit string. -/
def spliceString (place : Place) (delimiter : Text) (v : Value) (text : Text) :
    Except Failure Text :=
  match place with
  | .escape => .ok (escapeBody text)
  | .continuation => .ok (between apostrophe (escapeBody text))
  | .unicode => .ok (unicodeBody text)
  | .dollar => (withoutNul delimiter text).bind (embed (shownAs v text) delimiter)
  | _ => plainBody apostrophe delimiter text

/-- The text of a value inside the construct that `delimiter` opens. -/
def splice (s : Surroundings) (options : Options) (delimiter : Text) (v : Value) :
    Except Failure Text :=
  match Place.ofDelimiter? delimiter with
  | none => .error (.unescapableDelimiter delimiter)
  | some (.name unicode) =>
    ((nameStyle unicode).escape s.trust options.forbidQualified v).map unquoted
  | some place =>
    match v, place with
    | .blob _ data, .hex => .ok (hexBytes data)
    | .blob _ data, .bits => .ok (bitsOfHex (hexBytes data))
    | _, _ => spliceString place delimiter v (spliceText s options v)

/-- Postgres. -/
def grammar : Grammar State where
  lexer := lexer
  quoteString := quoteString
  quoteBlob := quoteBlob
  nameStyle := nameStyle false
  splice := splice
  checkFreeStanding := checkFreeStanding

end SqlWeave.Postgres
