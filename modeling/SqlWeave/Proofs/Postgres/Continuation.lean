/-
SqlWeave/Proofs/Postgres/Continuation.lean

What comes after a string with escapes.  An apostrophe behind blanks and comments takes the
string up again and is then read by its rules.  All other text is read as at top level.

Main results: a text that does not take the string up leaves open what it leaves open at top
level, or the continuation is still alive at its end (`transition_continuation`).
-/
import SqlWeave.Proofs.Postgres.Comment
import SqlWeave.Proofs.Postgres.Fusion

namespace SqlWeave.Postgres

open Text

/-- Whether the text takes up a string with escapes that was closed just before it. -/
inductive TakesUp : Text → Prop
  | here {t : Text} : TakesUp (apostrophe :: t)
  | blank {c : Char} {t : Text} (hc : isBlank c) (h : TakesUp t) : TakesUp (c :: t)
  | comment {t body rest : Text} {k : Comment} (hopened : commentOpened? t = some (k, body))
      (hafter : afterComment? k body = some rest) (h : TakesUp rest) : TakesUp t

/-- A text takes up nothing if, after blanks, neither an apostrophe nor a comment comes first. -/
theorem not_takesUp {t : Text} (hquote : (t.dropWhile isBlank).head? ≠ some apostrophe)
    (hcomment : commentOpened? (t.dropWhile isBlank) = none) : ¬TakesUp t := by
  intro h
  induction h with
  | here => exact hquote rfl
  | blank hc h ih =>
    rw [List.dropWhile_cons_of_pos hc] at hquote hcomment
    exact ih hquote hcomment
  | comment hopened hafter h ih =>
    rw [dropWhile_isBlank_of_commentOpened? hopened, hopened] at hcomment
    contradiction

/-- Whether a comment is open. -/
def inComment : Option State → Bool
  | some .lineComment => true
  | some (.blockComment _) => true
  | _ => false

/-- What a comment opens. -/
def opensComment : Comment → State
  | .block => .blockComment 1
  | _ => .lineComment

theorem transition_none_of_commentOpened? {t body : Text} {k : Comment}
    (h : commentOpened? t = some (k, body)) :
    lexer.transition none t = lexer.transition (some (opensComment k)) body := by
  apply transition_none_of_opened
  rcases commentOpened?_eq_some_iff.1 h with ⟨rfl, rfl⟩ | ⟨rfl, rfl⟩ <;> rfl

theorem transition_opensComment {body rest : Text} {k : Comment}
    (h : afterComment? k body = some rest) :
    lexer.transition (some (opensComment k)) body = lexer.transition none rest := by
  cases k with
  | block =>
    refine transition_blockComment ?_ h
    rintro rfl
    contradiction
  | dashes | hash => exact transition_lineComment h

/-- A comment that does not end in a text is open after it, if the text can be read at all. -/
theorem inComment_of_unclosed {body : Text} {k : Comment} {q : Option State}
    (h : afterComment? k body = none)
    (hread : lexer.transition (some (opensComment k)) body = .ok q) : inComment q := by
  by_cases hne : body = []
  · subst hne
    obtain rfl : some (opensComment k) = q := by simpa using hread
    cases k <;> rfl
  · exfalso
    cases k with
    | block =>
      have := (transition_blockComment_of_none hne h).symm.trans hread
      contradiction
    | dashes | hash =>
      have := (transition_lineComment_of_none hne h).symm.trans hread
      contradiction

/-- Where a text does not take up the string before it, it is read as at top level; if it is
made of blanks and comments alone, the string may still be taken up after it. -/
theorem transition_continuation {t : Text} {q : Option State} (h : ¬TakesUp t)
    (hread : lexer.transition none t = .ok q) (hq : inComment q = false) :
    lexer.transition (some .continuation) t = .ok q ∨
      q = none ∧ lexer.transition (some .continuation) t = .ok (some .continuation) := by
  -- Blanks and comments are passed by in either state; the first other character decides.
  induction hn : t.length using Nat.strongRecOn generalizing t with
  | ind n ih =>
    subst hn
    cases t with
    | nil =>
      obtain rfl : none = q := by simpa using hread
      exact .inr ⟨rfl, Lexer.transition_nil _ _⟩
    | cons c t =>
      by_cases hblank : isBlank c
      · have hidle := isIdle_of_isSeparator (isSeparator_of_isBlank hblank)
        rw [transition_none_of_idle hidle] at hread
        rw [transition_continuation_blank hblank]
        exact ih t.length (by simp) (fun ht => h (.blank hblank ht)) hread rfl
      by_cases hquote : c = apostrophe
      · exact absurd (hquote ▸ .here) h
      cases hopened : commentOpened? (c :: t) with
      | some found =>
        obtain ⟨k, body⟩ := found
        rw [transition_none_of_commentOpened? hopened] at hread
        cases hafter : afterComment? k body with
        | some rest =>
          rw [transition_opensComment hafter] at hread
          rw [transition_continuation_of_comment hopened hafter]
          have hbody := length_lt_of_commentOpened? hopened
          have hrest := length_le_of_afterComment? hafter
          exact ih rest.length (by omega) (fun ht => h (.comment hopened hafter ht)) hread rfl
        | none =>
          rw [inComment_of_unclosed hafter hread] at hq
          contradiction
      | none =>
        left
        rw [transition_continuation_of_other (by simpa using hblank) hquote hopened, hread]

end SqlWeave.Postgres
