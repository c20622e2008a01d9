/-
SqlWeave/Postgres/Lexer.lean

The lexer of Postgres: line comments, nested block comments, quoted identifiers, and
strings in apostrophes (plain, or with a letter in front that changes how the body is
read) or between dollar tags.

A string with escapes may be continued: after blanks and comments an apostrophe opens
another piece of it, which is read with escapes too.  The state `continuation` stands for
an escape string that has just been closed.

Main results: a step reads something or hands over to the top level
(`length_lt_or_eq_of_advance`).
-/
import SqlWeave.Lexer.Basic
import SqlWeave.Lexer.Body
import SqlWeave.Text.CharClass

namespace SqlWeave.Postgres

open Text

/-! ### Quoted constructs -/

/-- A construct between apostrophes or double quotes.  A letter in front of the quote may
be written in upper or lower case. -/
inductive Quote
  /-- A plain string. -/
  | string
  /-- A string with backslash escapes. -/
  | escape (upper : Bool)
  /-- A bit string in binary digits. -/
  | bits (upper : Bool)
  /-- A bit string in hexadecimal digits. -/
  | hex (upper : Bool)
  /-- A string with code point escapes. -/
  | unicode (upper : Bool)
  /-- A plain identifier. -/
  | name
  /-- An identifier with code point escapes. -/
  | unicodeName (upper : Bool)
  deriving DecidableEq

namespace Quote

/-- A letter in the case it was written in. -/
def letter (c : Char) (upper : Bool) : Char := if upper then c.toUpper else c

/-- The text that opens the construct. -/
def opener : Quote → Text
  | string => [apostrophe]
  | escape upper => [letter 'e' upper, apostrophe]
  | bits upper => [letter 'b' upper, apostrophe]
  | hex upper => [letter 'x' upper, apostrophe]
  | unicode upper => [letter 'u' upper, '&', apostrophe]
  | name => [quotation]
  | unicodeName upper => [letter 'u' upper, '&', quotation]

/-- Whether the construct names something. -/
def isName : Quote → Bool
  | name | unicodeName _ => true
  | _ => false

/-- The character that closes the construct. -/
def mark (q : Quote) : Char := if q.isName then quotation else apostrophe

/-- Whether a backslash in the body takes the next character with it. -/
def escapes : Quote → Bool
  | escape _ | unicode _ | unicodeName _ => true
  | _ => false

/-- The construct with its letter in lower case. -/
def folded : Quote → Quote
  | escape _ => escape false
  | bits _ => bits false
  | hex _ => hex false
  | unicode _ => unicode false
  | unicodeName _ => unicodeName false
  | q => q

/-- The construct that the text opens, and what follows its quote. -/
def opened? : Text → Option (Quote × Text)
  | [] => none
  | c :: rest =>
    if c = apostrophe then some (string, rest)
    else if c = quotation then some (name, rest)
    else match rest with
      | [] => none
      | d :: rest' =>
        if d = apostrophe then
          if c.toLower = 'e' then some (escape (c = 'E'), rest')
          else if c.toLower = 'b' then some (bits (c = 'B'), rest')
          else if c.toLower = 'x' then some (hex (c = 'X'), rest')
          else none
        else if d = '&' ∧ c.toLower = 'u' then
          match rest' with
          | [] => none
          | e :: rest'' =>
            if e = apostrophe then some (unicode (c = 'U'), rest'')
            else if e = quotation then some (unicodeName (c = 'U'), rest'')
            else none
        else none

theorem length_lt_of_opened? {text rest : Text} {q : Quote} (h : opened? text = some (q, rest)) :
    rest.length < text.length := by
  unfold opened? at h
  grind

end Quote

/-! ### Dollar tags -/

/-- The characters of the name in a dollar tag. -/
def isTagChar (c : Char) : Bool := c.isAlphanum || c = '_'

/-- Whether a name may stand between the dollars of a tag. -/
def isTagName : Text → Bool
  | [] => true
  | c :: rest => !c.isDigit && (c :: rest).all isTagChar

/-- The dollar tag that the text begins with, and what follows it. -/
def tag? : Text → Option (Text × Text)
  | [] => none
  | c :: rest =>
    if c = '$' then
      match rest.dropWhile isTagChar with
      | [] => none
      | d :: rest' =>
        let name := rest.takeWhile isTagChar
        if d = '$' ∧ isTagName name then some ('$' :: (name ++ ['$']), rest') else none
    else none

/-- Whether a text is a dollar tag. -/
def isTag (text : Text) : Bool := tag? text = some (text, [])

theorem length_lt_of_tag? {text tag rest : Text} (h : tag? text = some (tag, rest)) :
    rest.length < text.length := by
  unfold tag? at h
  split at h
  · simp at h
  · rename_i c t
    have hle : (t.dropWhile isTagChar).length ≤ t.length :=
      (List.dropWhile_sublist isTagChar).length_le
    grind

/-! ### Open constructs -/

/-- A construct that can be open between two steps. -/
inductive State
  | lineComment
  | blockComment (depth : Nat)
  | quoted (quote : Quote)
  | dollar (tag : Text)
  /-- An escape string was closed and may go on. -/
  | continuation
  deriving DecidableEq

namespace State

/-- The text that opened the construct. -/
def opener : State → Text
  | lineComment => Comment.dashes.opener
  | blockComment _ => Comment.block.opener
  | quoted q => q.opener
  | dollar tag => tag
  | continuation => ['e']

/-- The construct by its opener without regard to case.  Case matters in a dollar tag. -/
def folded : State → State
  | quoted q => quoted q.folded
  | s => s

/-- What messages call the construct. -/
def description : State → Text
  | lineComment => Comment.dashes.description
  | blockComment _ => Comment.block.description
  | quoted q => if q.isName then "quoted identifier".toList else "quoted string".toList
  | dollar _ => "dollar-quoted string".toList
  | continuation => "escape string continuation".toList

end State

/-! ### Comments -/

/-- What follows a block comment of which `depth` levels are open. -/
def afterBlock? (depth : Nat) (text : Text) : Option Text :=
  match depth, text with
  | 0, text => some text
  | _ + 1, [] => none
  | depth + 1, c :: rest =>
    match rest with
    | [] => none
    | d :: rest' =>
      if c = '*' ∧ d = '/' then afterBlock? depth rest'
      else if c = '/' ∧ d = '*' then afterBlock? (depth + 2) rest'
      else afterBlock? (depth + 1) (d :: rest')
termination_by structural text

/-- What follows a line comment.  The line break that ends it is not part of it. -/
def afterLine? (text : Text) : Option Text :=
  match text.dropWhile fun c => !isLineBreak c with
  | [] => none
  | c :: rest => some (c :: rest)

/-- The comment that the text opens, and what follows its opener. -/
def commentOpened? : Text → Option (Comment × Text)
  | c :: d :: rest =>
    if c = '-' ∧ d = '-' then some (.dashes, rest)
    else if c = '/' ∧ d = '*' then some (.block, rest)
    else none
  | _ => none

/-- What follows a comment whose opener has been read. -/
def afterComment? : Comment → Text → Option Text
  | .block => afterBlock? 1
  | _ => afterLine?

theorem length_lt_of_commentOpened? {text rest : Text} {k : Comment}
    (h : commentOpened? text = some (k, rest)) : rest.length < text.length := by
  unfold commentOpened? at h
  grind

theorem length_lt_or_eq_of_afterBlock? {depth : Nat} {text rest : Text}
    (h : afterBlock? depth text = some rest) : rest.length < text.length ∨ rest = text := by
  have key : rest.length < text.length ∨ depth = 0 ∧ rest = text := by
    fun_induction afterBlock? depth text <;> grind
  exact key.imp_right And.right

theorem length_lt_or_eq_of_afterLine? {text rest : Text} (h : afterLine? text = some rest) :
    rest.length < text.length ∨ rest = text := by
  have hsuf : rest <:+ text := by
    unfold afterLine? at h
    split at h
    · simp at h
    · rename_i hd
      exact Option.some.inj h ▸ hd ▸ List.dropWhile_suffix _
  rcases Nat.lt_or_ge rest.length text.length with hlt | hge
  · exact .inl hlt
  · exact .inr (hsuf.eq_of_length_le hge)

/-! ### The next construct -/

/-- The construct that the text opens, and what follows its opener. -/
def opened? (text : Text) : Option (State × Text) :=
  match commentOpened? text with
  | some (.block, rest) => some (.blockComment 1, rest)
  | some (_, rest) => some (.lineComment, rest)
  | none =>
    match tag? text with
    | some (tag, rest) => some (.dollar tag, rest)
    | none => (Quote.opened? text).map fun (q, rest) => (.quoted q, rest)

/-- Looks for the next construct that opens.  A word is skipped as a whole and ends the
search, since neither the letters nor the dollars in it open anything. -/
def seek : Text → Option State × Text
  | [] => (none, [])
  | c :: rest =>
    match opened? (c :: rest) with
    | some (s, rest') => (some s, rest')
    | none =>
      if isWordStart c then (none, rest.dropWhile fun d => isWordChar d || d = '$')
      else seek rest

theorem length_lt_of_opened? {text rest : Text} {s : State} (h : opened? text = some (s, rest)) :
    rest.length < text.length := by
  unfold opened? at h
  split at h
  · rename_i hc
    simp at h
    exact h.2 ▸ length_lt_of_commentOpened? hc
  · rename_i hc
    simp at h
    exact h.2 ▸ length_lt_of_commentOpened? hc
  · split at h
    · rename_i ht
      simp at h
      exact h.2 ▸ length_lt_of_tag? ht
    · obtain ⟨⟨q, r⟩, hq, he⟩ := Option.map_eq_some_iff.1 h
      simp at he
      exact he.2 ▸ Quote.length_lt_of_opened? hq

theorem length_seek_lt {text : Text} (hne : text ≠ []) : (seek text).2.length < text.length := by
  fun_induction seek text with
  | case1 => contradiction
  | case2 c rest s rest' h => exact length_lt_of_opened? h
  | case3 c rest h hw =>
    have : (rest.dropWhile fun d => isWordChar d || d = '$').length ≤ rest.length :=
      (List.dropWhile_sublist _).length_le
    simp
    omega
  | case4 c rest h hw ih =>
    cases rest with
    | nil => simp [seek]
    | cons d t =>
      have := ih (by simp)
      simp at this ⊢
      omega

/-! ### The lexer -/

/-- A step inside a dollar-quoted string.  A text that ends in the beginning of the tag is
refused: what follows could complete it. -/
def advanceDollar (tag text : Text) : Except Failure (Option State × Text) :=
  match afterFirst? tag text with
  | some rest => .ok (none, rest)
  | none =>
    match fromLast? '$' text with
    | some tail =>
      if tail.isPrefixOf tag then .error (.dollarTail tag tail)
      else .ok (some (.dollar tag), [])
    | none => .ok (some (.dollar tag), [])

/-- A step after a closed escape string.  Blanks and comments keep the continuation alive,
and an apostrophe takes it up.  A comment has to end in the same chunk. -/
def advanceContinuation (text : Text) : Except Failure (Option State × Text) :=
  let rest := text.dropWhile isBlank
  match commentOpened? rest with
  | some (k, body) =>
    match afterComment? k body with
    | some rest' => .ok (some .continuation, rest')
    | none => .error (.unclosedComment k body)
  | none =>
    if rest.head? = some apostrophe then .ok (some (.quoted (.escape false)), rest.tail)
    else if rest = text then .ok (none, text)
    else .ok (some .continuation, rest)

/-- One step. -/
def advance : Option State → Text → Except Failure (Option State × Text)
  | none, text => .ok (seek text)
  | some .lineComment, text =>
    match afterLine? text with
    | some rest => .ok (none, rest)
    | none => .error (.unclosedComment .dashes text)
  | some (.blockComment depth), text =>
    match afterBlock? depth text with
    | some rest => .ok (none, rest)
    | none => .error (.unclosedComment .block text)
  | some (.quoted q), text =>
    match readBody q.mark q.escapes text with
    | .inside => .ok (some (.quoted q), [])
    | .closed rest => .ok (if q.folded = .escape false then some .continuation else none, rest)
    | .halfEscape => .error (.halfEscape q.opener text)
  | some (.dollar tag), text => advanceDollar tag text
  | some .continuation, text => advanceContinuation text

/-! ### Every step reads or hands over -/

theorem length_le_of_afterComment? {k : Comment} {text rest : Text}
    (h : afterComment? k text = some rest) : rest.length ≤ text.length := by
  have : rest.length < text.length ∨ rest = text := by
    cases k
    · exact length_lt_or_eq_of_afterLine? h
    · exact length_lt_or_eq_of_afterLine? h
    · exact length_lt_or_eq_of_afterBlock? h
  rcases this with h | rfl <;> omega

theorem length_lt_or_eq_of_advanceDollar {tag text rest : Text} {s' : Option State}
    (hne : text ≠ []) (h : advanceDollar tag text = .ok (s', rest)) :
    rest.length < text.length ∨ rest = text ∧ s' = none := by
  have hpos := List.length_pos_iff.2 hne
  unfold advanceDollar at h
  split at h
  · rename_i ht
    simp at h
    have hsuf : rest <:+ text := h.2 ▸ afterFirst?_suffix ht
    rcases Nat.lt_or_ge rest.length text.length with hlt | hge
    · exact .inl hlt
    · exact .inr ⟨hsuf.eq_of_length_le hge, h.1.symm⟩
  · split at h
    · split at h <;> simp at h
      exact .inl (h.2 ▸ hpos)
    · simp at h
      exact .inl (h.2 ▸ hpos)

theorem length_lt_or_eq_of_advanceContinuation {text rest : Text} {s' : Option State}
    (h : advanceContinuation text = .ok (s', rest)) :
    rest.length < text.length ∨ rest = text ∧ s' = none := by
  have hle : (text.dropWhile isBlank).length ≤ text.length :=
    (List.dropWhile_sublist isBlank).length_le
  unfold advanceContinuation at h
  simp only at h
  split at h
  · rename_i hc
    have := length_lt_of_commentOpened? hc
    split at h <;> simp at h
    rename_i ha
    have := length_le_of_afterComment? ha
    exact .inl (h.2 ▸ by omega)
  · split at h
    · rename_i hd
      simp at h
      have : text.dropWhile isBlank ≠ [] := by
        intro he
        simp [he] at hd
      have := List.length_pos_iff.2 this
      exact .inl (by simp [← h.2]; omega)
    · split at h <;> simp at h
      · exact .inr ⟨h.2.symm, h.1.symm⟩
      · rename_i hne'
        refine .inl (h.2 ▸ ?_)
        exact Nat.lt_of_le_of_ne hle fun he =>
          hne' ((List.dropWhile_suffix isBlank).eq_of_length_le (Nat.le_of_eq he.symm))

/-- A step reads something, or it leaves the open construct without reading. -/
theorem length_lt_or_eq_of_advance {s s' : Option State} {text rest : Text} (hne : text ≠ [])
    (h : advance s text = .ok (s', rest)) :
    rest.length < text.length ∨ rest = text ∧ s.isSome ∧ s' = none := by
  have hpos := List.length_pos_iff.2 hne
  match s with
  | none =>
    simp [advance] at h
    exact .inl (by simpa [h] using length_seek_lt hne)
  | some .lineComment =>
    simp only [advance] at h
    split at h <;> simp at h
    rename_i ha
    rcases length_lt_or_eq_of_afterLine? ha with hlt | he
    · exact .inl (h.2 ▸ hlt)
    · exact .inr ⟨h.2 ▸ he, rfl, h.1.symm⟩
  | some (.blockComment depth) =>
    simp only [advance] at h
    split at h <;> simp at h
    rename_i ha
    rcases length_lt_or_eq_of_afterBlock? ha with hlt | he
    · exact .inl (h.2 ▸ hlt)
    · exact .inr ⟨h.2 ▸ he, rfl, h.1.symm⟩
  | some (.quoted q) =>
    simp only [advance] at h
    split at h <;> simp at h
    · exact .inl (h.2 ▸ hpos)
    · rename_i hr
      exact .inl (h.2 ▸ length_lt_of_readBody_closed hr)
  | some (.dollar tag) =>
    rcases length_lt_or_eq_of_advanceDollar hne h with hlt | ⟨he, hs⟩
    · exact .inl hlt
    · exact .inr ⟨he, rfl, hs⟩
  | some .continuation =>
    rcases length_lt_or_eq_of_advanceContinuation h with hlt | ⟨he, hs⟩
    · exact .inl hlt
    · exact .inr ⟨he, rfl, hs⟩

/-- The lexer of Postgres. -/
def lexer : Lexer State where
  advance := advance
  opener := State.opener
  description := State.description
  endsCleanly s := s = .continuation
  selfDelimiting s := s = .continuation
  advance_reads := length_lt_or_eq_of_advance

end SqlWeave.Postgres
