/-
SqlWeave/MySQL/Lexer.lean

The lexer of MySQL.  Strings stand in apostrophes or double quotes, identifiers in
backticks.  Two dashes and a blank, or a hash, open a line comment; block comments do not
nest.  A comment has to end in the chunk that opens it, because a value spliced after the
chunk would land inside it: no comment is ever left open.
-/
import SqlWeave.Lexer.Basic
import SqlWeave.Lexer.Body

namespace SqlWeave.MySQL

open Text

/-! ### Quotes -/

/-- The quoted constructs. -/
inductive Quote
  | single
  | double
  | backtick
  deriving DecidableEq

namespace Quote

/-- The character that opens and closes the construct. -/
def mark : Quote → Char
  | single => apostrophe
  | double => quotation
  | backtick => Text.backtick

/-- The construct that a character opens. -/
def ofChar? (c : Char) : Option Quote :=
  if c = apostrophe then some single
  else if c = quotation then some double
  else if c = Text.backtick then some backtick
  else none

theorem ofChar?_eq_some_iff {c : Char} {q : Quote} : ofChar? c = some q ↔ c = q.mark := by
  cases q <;> simp only [ofChar?, mark] <;> grind

/-- What messages call the construct. -/
def description : Quote → Text
  | backtick => "quoted identifier".toList
  | _ => "quoted string".toList

end Quote

/-! ### The next quote -/

/-- Where a search for the next quote stands: in code, or in a comment with the given text
after its opener. -/
inductive Place
  | code
  | inside (comment : Comment) (body : Text)

/-- What a search for the next quote comes upon. -/
inductive Found
  | nothing
  | opened (quote : Quote) (rest : Text)
  | unclosed (comment : Comment) (body : Text)

/-- Whether a dash followed by this text opens a comment. -/
def opensDashes : Text → Bool
  | '-' :: c :: _ => isBlank c
  | _ => false

/-- Looks for the next quote outside comments. -/
def seek : Place → Text → Found
  | .code, [] => .nothing
  | .code, c :: rest =>
    if c = '-' ∧ opensDashes rest then seek (.inside .dashes rest.tail) rest
    else if c = '#' then seek (.inside .hash rest) rest
    else if c = '/' then
      match rest with
      | [] => .nothing
      | d :: rest' =>
        if d = '*' then seek (.inside .block rest') rest' else seek .code (d :: rest')
    else match Quote.ofChar? c with
      | some q => .opened q rest
      | none => seek .code rest
  | .inside comment body, [] => .unclosed comment body
  | .inside .block body, c :: rest =>
    if c = '*' then
      match rest with
      | [] => .unclosed .block body
      | d :: rest' => if d = '/' then seek .code rest' else seek (.inside .block body) (d :: rest')
    else seek (.inside .block body) rest
  | .inside comment body, c :: rest =>
    if isLineBreak c then seek .code rest else seek (.inside comment body) rest

theorem length_lt_of_seek_opened {place : Place} {text rest : Text} {q : Quote}
    (h : seek place text = .opened q rest) : rest.length < text.length := by
  fun_induction seek place text <;> grind

/-! ### The lexer -/

/-- One step: at top level up to the next quote, else up to the closing quote. -/
def advance : Option Quote → Text → Except Failure (Option Quote × Text)
  | none, text =>
    match seek .code text with
    | .nothing => .ok (none, [])
    | .opened q rest => .ok (some q, rest)
    | .unclosed comment body => .error (.unclosedComment comment body)
  | some q, text =>
    match readBody q.mark true text with
    | .inside => .ok (some q, [])
    | .closed rest => .ok (none, rest)
    | .halfEscape => .error (.halfEscape [q.mark] text)

theorem length_lt_of_advance {s s' : Option Quote} {text rest : Text} (hne : text ≠ [])
    (h : advance s text = .ok (s', rest)) : rest.length < text.length := by
  have hpos := List.length_pos_iff.2 hne
  cases s with
  | none =>
    simp only [advance] at h
    split at h <;> simp at h
    · exact h.2 ▸ hpos
    · rename_i hs
      exact h.2 ▸ length_lt_of_seek_opened hs
  | some q =>
    simp only [advance] at h
    split at h <;> simp at h
    · exact h.2 ▸ hpos
    · rename_i hs
      exact h.2 ▸ length_lt_of_readBody_closed hs

/-- The lexer of MySQL and its relatives. -/
def lexer : Lexer Quote where
  advance := advance
  opener q := [q.mark]
  description := Quote.description
  endsCleanly _ := false
  selfDelimiting _ := false
  advance_reads hne h := .inl (length_lt_of_advance hne h)

end SqlWeave.MySQL
