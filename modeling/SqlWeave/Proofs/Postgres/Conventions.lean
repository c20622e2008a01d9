/-
SqlWeave/Proofs/Postgres/Conventions.lean

One body, two conventions.  Whether a backslash escapes what comes after it depends on more than
the literal itself: a letter in front of it, a string with escapes that it continues, and how the
server is set up.  The body of a string that is written here is safe in either case.

A string without escapes is written only where there is no backslash.  In a string with escapes
no apostrophe stands behind a lone backslash, since apostrophes are doubled and not escaped.  So
the quotes of a body pair up in the same way whether backslashes count or not.

Main results: what stays inside its quote is passed by (`PassedBy.of_inside`), and under both
conventions that is every body of a string literal, and every text that is written into a string
with escapes (`bodies_passed_by_either_way`).
-/
import SqlWeave.Proofs.Postgres.Literal
import SqlWeave.Proofs.Postgres.Reading

namespace SqlWeave.Postgres

open Text

variable {q : Quote} {b : Text}

/-! ### Bodies that are passed by -/

/-- Whether a construct is a string of text, with escapes or without. -/
def Quote.IsText : Quote → Prop
  | .string | .escape _ => True
  | _ => False

/-- Whether a scan that stands in the quote `q` goes past `b` as if it were not there: nothing in
`b` closes the quote, and nothing at its end changes what comes next, be it any text or the
closing quote. -/
structure PassedBy (q : Quote) (b : Text) : Prop where
  stays : lexer.transition (some (.quoted q)) b = .ok (some (.quoted q))
  transparent (rest : Text) : Agree (lexer.transition (some (.quoted q)) (b ++ rest))
    (lexer.transition (some (.quoted q)) rest)
  closes (rest : Text) (h : rest.head? ≠ some q.mark) :
    lexer.advance (some (.quoted q)) (b ++ q.mark :: rest) = .ok (q.after, rest)

theorem PassedBy.of_inside (h : readBody q.mark q.escapes b = .inside) : PassedBy q b where
  stays := transition_quoted_of_inside h
  transparent := transition_quoted_append h
  closes rest hrest := by
    have hclosed : readBody q.mark q.escapes (b ++ q.mark :: rest) = .closed rest := by
      rw [readBody_append_of_inside h, readBody_of_head?_ne hrest]
    simp only [lexer, advance, hclosed]
    rfl

/-- What stays inside of apostrophes whether backslashes count or not is passed by in every
string of text. -/
theorem passedBy_of_inside (h : ∀ escapes, readBody apostrophe escapes b = .inside)
    (hq : q.IsText) : PassedBy q b := by
  have hmark : q.mark = apostrophe := by
    cases q with
    | string | escape upper => rfl
    | bits | hex | unicode | name | unicodeName => exact hq.elim
  exact .of_inside (by rw [hmark]; exact h q.escapes)

/-! ### Bodies under both conventions -/

theorem apostrophe_not_mem_escapeChar {c : Char} (hc : c ≠ apostrophe) :
    apostrophe ∉ escapeChar c := by
  cases h : isMeta c with
  | true =>
    revert hc
    rcases isMeta_iff.1 h with rfl | rfl | rfl | rfl | rfl | rfl | rfl | rfl | rfl | rfl <;> decide
  | false => simpa [escapeChar_of_not_isMeta h] using hc.symm

theorem readBody_escapeBody_either (escapes : Bool) (t : Text) :
    readBody apostrophe escapes (escapeBody t) = .inside := by
  cases escapes with
  | true => exact readBody_escapeBody t
  | false =>
    -- Without escapes only the apostrophes count, and those come in twos.
    apply readBody_flatMap
    intro c _
    by_cases hc : c = apostrophe
    · subst hc
      have htwice : escapeChar apostrophe = [apostrophe, apostrophe] := by decide
      rw [htwice, readBody_twice, readBody]
    · refine readBody_of_forall fun d hd => ⟨?_, by simp⟩
      rintro rfl
      exact apostrophe_not_mem_escapeChar hc hd

/-- Every backslash in a text is a reason to write it with escapes. -/
theorem readBody_doubled_either {t : Text} (h : needsEscapes t = false) (escapes : Bool) :
    readBody apostrophe escapes (doubled apostrophe t) = .inside := by
  apply readBody_doubled
  rintro c hc ⟨-, rfl⟩
  have hneeds : needsEscapes t := List.any_eq_true.2 ⟨backslash, hc, by decide⟩
  rw [h] at hneeds
  contradiction

/-- Whether backslashes count or not, the body of a string literal is passed by, and so is every
text written into a string with escapes. -/
theorem bodies_passed_by_either_way (t : Text) :
    (∃ (q : Quote) (b : Text), q.IsText ∧ quoteString t = q.opener ++ (b ++ [apostrophe]) ∧
        ∀ q' : Quote, q'.IsText → PassedBy q' b) ∧
      ∀ q' : Quote, q'.IsText → PassedBy q' (escapeBody t) := by
  have hescape (q' : Quote) (hq' : q'.IsText) : PassedBy q' (escapeBody t) :=
    passedBy_of_inside (fun escapes => readBody_escapeBody_either escapes t) hq'
  refine ⟨?_, hescape⟩
  rw [quoteString]
  cases hneeds : needsEscapes t with
  | true => exact ⟨.escape true, escapeBody t, trivial, rfl, hescape⟩
  | false =>
    refine ⟨.string, doubled apostrophe t, trivial, rfl, fun q' hq' => ?_⟩
    exact passedBy_of_inside (readBody_doubled_either hneeds) hq'

end SqlWeave.Postgres
