/-
SqlWeave/Lexer/Body.lean

Comments by their openers, and the bodies of quoted constructs.  The quote itself is written
twice inside a body; where `escapes` holds, a backslash takes the next character with it.

Main results: what follows the closing quote is shorter than what was read
(`length_lt_of_readBody_closed`); without escapes no text stops halfway
(`readBody_ne_halfEscape`).
-/
import SqlWeave.Text.Basic

namespace SqlWeave

open Text

/-! ### Comments -/

/-- A comment, by the text that opens it. -/
inductive Comment
  | dashes
  | hash
  | block
  deriving DecidableEq

namespace Comment

/-- The text that opens the comment. -/
def opener : Comment → Text
  | dashes => ['-', '-']
  | hash => ['#']
  | block => ['/', '*']

/-- What messages call the comment. -/
def description : Comment → Text
  | block => "block comment".toList
  | _ => "line comment".toList

end Comment

/-! ### Bodies -/

/-- How the reading of a body ends. -/
inductive BodyEnd
  /-- The text ends and the body is still open. -/
  | inside
  /-- The closing quote was read; `rest` follows it. -/
  | closed (rest : Text)
  /-- The text ends in a backslash with nothing to escape. -/
  | halfEscape
  deriving DecidableEq

/-- Reads a body up to the quote `mark` that closes it. -/
def readBody (mark : Char) (escapes : Bool) : Text → BodyEnd
  | [] => .inside
  | c :: rest =>
    if c = mark then
      match rest with
      | [] => .closed []
      | d :: rest' => if d = mark then readBody mark escapes rest' else .closed (d :: rest')
    else if escapes ∧ c = backslash then
      match rest with
      | [] => .halfEscape
      | _ :: rest' => readBody mark escapes rest'
    else readBody mark escapes rest

variable {mark : Char} {escapes : Bool}

theorem length_lt_of_readBody_closed {text rest : Text}
    (h : readBody mark escapes text = .closed rest) : rest.length < text.length := by
  fun_induction readBody mark escapes text <;> grind

theorem readBody_ne_halfEscape (text : Text) : readBody mark false text ≠ .halfEscape := by
  fun_induction readBody mark false text <;> grind

end SqlWeave
