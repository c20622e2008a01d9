/-
SqlWeave/Report.lean

What callers are told about a failure: its category, its wording, a code, and details by
name.

Main results: a failure is reported under its own category (`category_report`).
-/
import SqlWeave.Failure
import SqlWeave.Value.Describe

namespace SqlWeave

open Text

/-! ### Categories -/

/-- Wider groups of categories. -/
inductive CategoryGroup
  | any
  | lexical
  | escaping
  | unterminated
  | badValue
  | failedLookup
  deriving DecidableEq

namespace Category

/-- Whether a category belongs to a group. -/
def belongs : Category → CategoryGroup → Bool
  | usage, _ => false
  | _, .any => true
  | c, .lexical => c = lexical || c = unterminated || c = ambiguousContinuation
  | c, .escaping =>
    c = escaping || c = malformedIdentifier || c = unescapableDelimiter || c = unrepresentable
  | c, .unterminated => c = unterminated
  | c, .badValue => c = arity
  | c, .failedLookup => c = unknownDialect

/-- The code of a category. -/
def code : Category → Text
  | general => "CONTEXTQL_ERROR".toList
  | lexical => "LEX_ERROR".toList
  | unterminated => "UNTERMINATED".toList
  | ambiguousContinuation => "AMBIGUOUS_CONTINUATION".toList
  | mergeHazard => "MERGE_HAZARD".toList
  | escaping => "ESCAPE_ERROR".toList
  | malformedIdentifier => "MALFORMED_IDENTIFIER".toList
  | unescapableDelimiter => "UNESCAPABLE_DELIMITER".toList
  | unrepresentable => "UNREPRESENTABLE_CHARACTER".toList
  | arity => "ARITY".toList
  | unknownDialect => "UNKNOWN_DIALECT".toList
  | usage => []

end Category

/-! ### Reports -/

/-- A report of a failure. -/
structure Report where
  category : Category
  message : Text
  code : Text
  details : List (Text × Value)

namespace Report

/-- A report with a wording of its own.  An empty code stands for that of the category. -/
def plain (category : Category) (message code : Text) (details : List (Text × Value)) : Report :=
  ⟨category, message, if code.isEmpty then category.code else code, details⟩

/-- A report with the code of its category. -/
def coded (category : Category) (message : Text) (details : List (Text × Value)) : Report :=
  ⟨category, message, category.code, details⟩

/-- A construct left open, named by what opened it, as far as that is known. -/
def unterminated (message : Text) (delimiter : Value) : Report :=
  coded .unterminated message [("delimiter".toList, delimiter)]

/-- A text that could fuse with what is around it. -/
def mergeHazard (message : Text) (delimiter text : Value) : Report :=
  coded .mergeHazard message [("delimiter".toList, delimiter), ("text".toList, text)]

/-- A trusted fragment that is no identifier. -/
def malformedIdentifier (content forbidQualified : Value) : Report :=
  coded .malformedIdentifier ("Expected id, got ".toList ++ content.plain)
    [("identifier".toList, content), ("forbid_qualified".toList, forbidQualified)]

/-- A delimiter without escaping rule. -/
def unescapableDelimiter (delimiter : Value) : Report :=
  coded .unescapableDelimiter ("Cannot escape with ".toList ++ delimiter.plain)
    [("delimiter".toList, delimiter)]

/-- A character without spelling. -/
def unrepresentable (char delimiter : Value) : Report :=
  coded .unrepresentable
    ("Cannot represent ".toList ++ char.full ++ " inside ".toList ++ delimiter.plain ++
      " delimited text".toList)
    [("char".toList, char), ("delimiter".toList, delimiter)]

/-- Values that do not fit the gaps between the chunks. -/
def arity (chunks values : Int) : Report :=
  coded .arity
    ("Expected ".toList ++ ofInt (chunks - 1) ++ " value(s) for ".toList ++ ofInt chunks ++
      " literal chunk(s), got ".toList ++ ofInt values ++ ['.'])
    [("chunks".toList, .ofInt chunks), ("values".toList, .ofInt values)]

/-- A name without dialect. -/
def unknownDialect (name known : Value) : Report :=
  coded .unknownDialect
    ("Unsupported dialect target: '".toList ++ name.plain ++ "'. Registered targets: ".toList ++
      known.plain ++ ['.'])
    [("name".toList, name), ("registered".toList, known)]

/-- The details that a failure of the category offers by themselves too. -/
def attributes (r : Report) : List (Text × Value) :=
  match r.category with
  | .unterminated | .mergeHazard | .unescapableDelimiter | .unrepresentable => r.details
  | .malformedIdentifier => r.details.take 1
  | _ => []

end Report

/-- The report of a failure. -/
def Failure.report : Failure → Report
  | unclosed description opener =>
    .unterminated ("Unclosed ".toList ++ description ++ [':', ' '] ++ opener) (.ofText opener)
  | unclosedComment comment body =>
    .unterminated
      ("Unterminated ".toList ++ comment.description ++ [':', ' '] ++ comment.opener ++ body)
      (.ofText comment.opener)
  | halfEscape opener scanned =>
    .coded .lexical
      ("Incomplete escape sequence in ".toList ++ opener ++ " delimited string at `".toList ++
        scanned ++ "`".toList) []
  | ambiguousContinuation following =>
    .coded .ambiguousContinuation
      ("Potential for ambiguous string continuation at ".toList ++ following.quoted) []
  | dollarTail tag tail =>
    .mergeHazard
      ("merge hazard '".toList ++ tail ++ "' at end of ".toList ++ tag ++
        " delimited string".toList) (.ofText tag) (.ofText tail)
  | dollarClash tag text shown =>
    .mergeHazard ("Cannot embed ".toList ++ shown ++ " between ".toList ++ tag) (.ofText tag)
      (.ofText text)
  | malformedIdentifier content forbidQualified =>
    .malformedIdentifier (.ofText content) (.bool forbidQualified)
  | unescapableDelimiter delimiter => .unescapableDelimiter (.ofText delimiter)
  | unrepresentable char delimiter => .unrepresentable (.ofText [char]) (.ofText delimiter)
  | arity chunks values => .arity chunks values
  | unknownDialect name known => .unknownDialect (.ofText name) (.series .list (known.map .ofText))
  | valuesGivenTwice => .coded .usage "A template object carries its own values.".toList []

/-- The wording of a failure. -/
def Failure.message (e : Failure) : Text := e.report.message

theorem Failure.category_report (e : Failure) : e.report.category = e.category := by
  cases e <;> rfl

end SqlWeave
