/-
SqlWeave/Failure.lean

Why weaving values into SQL text can fail.  A failure holds what is needed to word it;
the wording itself is in `SqlWeave.Report`.
-/
import SqlWeave.Lexer.Body

namespace SqlWeave

/-- The cause of a failure. -/
inductive Failure
  /-- The text ended inside a construct. -/
  | unclosed (description opener : Text)
  /-- A comment does not end in the chunk that opens it; `body` is all that follows its opener. -/
  | unclosedComment (comment : Comment) (body : Text)
  /-- A chunk ends in a backslash that has nothing to escape; `scanned` led up to it. -/
  | halfEscape (opener scanned : Text)
  /-- A string value is followed by a gap that may join it to another string. -/
  | ambiguousContinuation (following : Text)
  /-- A chunk of a dollar-quoted body ends in what could become the closing tag. -/
  | dollarTail (tag tail : Text)
  /-- A value holds a dollar tag, or ends in the beginning of one. -/
  | dollarClash (tag text shown : Text)
  /-- A trusted fragment in the place of an identifier is not shaped like one. -/
  | malformedIdentifier (content : Text) (forbidQualified : Bool)
  /-- No escaping rule belongs to the delimiter. -/
  | unescapableDelimiter (delimiter : Text)
  /-- The delimited text has no spelling for the character. -/
  | unrepresentable (char : Char) (delimiter : Text)
  /-- The values do not fit the gaps between the chunks. -/
  | arity (chunks values : Nat)
  /-- No dialect goes by the name. -/
  | unknownDialect (name : Text) (known : List Text)
  /-- A template that carries values was given more of them. -/
  | valuesGivenTwice
  deriving DecidableEq

/-- The kinds of failure that callers tell apart. -/
inductive Category
  | general
  | lexical
  | unterminated
  | ambiguousContinuation
  | mergeHazard
  | escaping
  | malformedIdentifier
  | unescapableDelimiter
  | unrepresentable
  | arity
  | unknownDialect
  | usage
  deriving DecidableEq

/-- The kind of a failure. -/
def Failure.category : Failure → Category
  | unclosed .. => .unterminated
  | unclosedComment .. => .unterminated
  | halfEscape .. => .lexical
  | ambiguousContinuation .. => .ambiguousContinuation
  | dollarTail .. => .mergeHazard
  | dollarClash .. => .mergeHazard
  | malformedIdentifier .. => .malformedIdentifier
  | unescapableDelimiter .. => .unescapableDelimiter
  | unrepresentable .. => .unrepresentable
  | arity .. => .arity
  | unknownDialect .. => .unknownDialect
  | valuesGivenTwice => .usage

end SqlWeave
