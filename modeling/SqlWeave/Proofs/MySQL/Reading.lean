/-
SqlWeave/Proofs/MySQL/Reading.lean

How the lexer of MySQL goes through a text, with one rule for each outcome of a step.

Main results: a text that stays inside its quotes is transparent to what follows it
(`transition_quoted_append`).
-/
import SqlWeave.Proofs.Lexer.Agreement
import SqlWeave.Proofs.Lexer.Body
import SqlWeave.MySQL.Lexer

namespace SqlWeave.MySQL

open Text

variable {q : Quote} {text rest : Text}

/-! ### Searching -/

theorem seek_dash (h : opensDashes rest) :
    seek .code ('-' :: rest) = seek (.inside .dashes rest.tail) rest := by
  rw [seek.eq_def]
  simp [h]

theorem seek_hash : seek .code ('#' :: rest) = seek (.inside .hash rest) rest := by
  rw [seek.eq_def]
  simp

theorem seek_block : seek .code ('/' :: '*' :: rest) = seek (.inside .block rest) rest := by
  rw [seek.eq_def]
  simp

theorem seek_slash (h : rest.head? ≠ some '*') : seek .code ('/' :: rest) = seek .code rest := by
  rw [seek.eq_def]
  cases rest with
  | nil => rfl
  | cons d rest =>
    have hd : d ≠ '*' := by simpa using h
    simp [hd]

theorem seek_quote {c : Char} (h : Quote.ofChar? c = some q) :
    seek .code (c :: rest) = .opened q rest := by
  obtain rfl := Quote.ofChar?_eq_some_iff.1 h
  rw [seek.eq_def]
  cases q <;> rfl

theorem seek_other {c : Char} (hdash : ¬(c = '-' ∧ opensDashes rest)) (hhash : c ≠ '#')
    (hslash : c ≠ '/') (hquote : Quote.ofChar? c = none) :
    seek .code (c :: rest) = seek .code rest := by
  rw [seek.eq_def]
  simp [hdash, hhash, hslash, hquote]

theorem seek_line_end {k : Comment} {body : Text} {c : Char} (hk : k ≠ .block)
    (hc : isLineBreak c) : seek (.inside k body) (c :: rest) = seek .code rest := by
  rw [seek.eq_def]
  cases k with
  | block => exact (hk rfl).elim
  | dashes | hash => simp [hc]

theorem seek_line_other {k : Comment} {body : Text} {c : Char} (hk : k ≠ .block)
    (hc : ¬isLineBreak c) : seek (.inside k body) (c :: rest) = seek (.inside k body) rest := by
  rw [seek.eq_def]
  cases k with
  | block => exact (hk rfl).elim
  | dashes | hash => simp [hc]

theorem seek_block_end {body : Text} :
    seek (.inside .block body) ('*' :: '/' :: rest) = seek .code rest := by
  rw [seek.eq_def]
  simp

theorem seek_block_other {body : Text} {c : Char} (h : ¬(c = '*' ∧ rest.head? = some '/')) :
    seek (.inside .block body) (c :: rest) = seek (.inside .block body) rest := by
  rw [seek.eq_def]
  cases rest with
  | nil => by_cases hc : c = '*' <;> simp [hc, seek]
  | cons d rest =>
    by_cases hc : c = '*'
    · have hd : d ≠ '/' := by
        rintro rfl
        exact h ⟨hc, rfl⟩
      simp [hc, hd]
    · simp [hc]

/-! ### At top level -/

theorem transition_none_of_nothing (h : seek .code text = .nothing) :
    lexer.transition none text = .ok none := by
  by_cases hne : text = []
  · rw [hne, Lexer.transition_nil]
  have hstep : lexer.advance none text = .ok (none, []) := by
    simp only [lexer, advance, h]
  rw [lexer.transition_of_advance hne hstep, Lexer.transition_nil]

theorem transition_none_of_opened (h : seek .code text = .opened q rest) :
    lexer.transition none text = lexer.transition (some q) rest := by
  have hne : text ≠ [] := by
    rintro rfl
    simp [seek] at h
  apply lexer.transition_of_advance hne
  simp only [lexer, advance, h]

theorem transition_none_of_unclosed {k : Comment} {body : Text}
    (h : seek .code text = .unclosed k body) :
    lexer.transition none text = .error (.unclosedComment k body) := by
  have hne : text ≠ [] := by
    rintro rfl
    simp [seek] at h
  apply lexer.transition_of_advance_error hne
  simp only [lexer, advance, h]

/-! ### Inside quotes -/

theorem transition_quoted_of_inside (h : readBody q.mark true text = .inside) :
    lexer.transition (some q) text = .ok (some q) := by
  by_cases hne : text = []
  · rw [hne, Lexer.transition_nil]
  have hstep : lexer.advance (some q) text = .ok (some q, []) := by
    simp only [lexer, advance, h]
  rw [lexer.transition_of_advance hne hstep, Lexer.transition_nil]

theorem transition_quoted_of_closed (h : readBody q.mark true text = .closed rest) :
    lexer.transition (some q) text = lexer.transition none rest := by
  have hne : text ≠ [] := by
    rintro rfl
    simp [readBody] at h
  apply lexer.transition_of_advance hne
  simp only [lexer, advance, h]

theorem transition_quoted_of_halfEscape (h : readBody q.mark true text = .halfEscape) :
    lexer.transition (some q) text = .error (.halfEscape [q.mark] text) := by
  have hne : text ≠ [] := by
    rintro rfl
    simp [readBody] at h
  apply lexer.transition_of_advance_error hne
  simp only [lexer, advance, h]

/-- What follows a text that stays inside is read as if that text were not there. -/
theorem transition_quoted_append {a : Text} (h : readBody q.mark true a = .inside) (b : Text) :
    Agree (lexer.transition (some q) (a ++ b)) (lexer.transition (some q) b) := by
  have hab := readBody_append_of_inside h (b := b)
  cases hb : readBody q.mark true b with
  | inside =>
    rw [transition_quoted_of_inside hb, transition_quoted_of_inside (hab.trans hb)]
    exact Agree.refl _
  | closed rest =>
    rw [transition_quoted_of_closed hb, transition_quoted_of_closed (hab.trans hb)]
    exact Agree.refl _
  | halfEscape =>
    rw [transition_quoted_of_halfEscape hb, transition_quoted_of_halfEscape (hab.trans hb)]
    rfl

end SqlWeave.MySQL
