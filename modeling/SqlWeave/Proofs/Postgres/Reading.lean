/-
SqlWeave/Proofs/Postgres/Reading.lean

How the lexer of Postgres goes through a text, with one rule for each outcome of a step.  At
top level the rules are for a single character or word, so that a reading can be followed
through a text without regard to where the steps of the lexer end.

Main results: `transition_none_of_opened`, `transition_none_of_word` and
`transition_none_of_other` at top level; a text that stays inside its quotes or its tags is
transparent to what follows it (`transition_quoted_append`, `transition_dollar_append`); the
rules of a continuation, from `transition_continuation_of_comment` on.
-/
import SqlWeave.Proofs.Lexer.Agreement
import SqlWeave.Proofs.Lexer.Body
import SqlWeave.Proofs.Postgres.Opener

namespace SqlWeave.Postgres

open Text

/-! ### At top level -/

theorem transition_none_eq_seek (text : Text) :
    lexer.transition none text = lexer.transition (seek text).1 (seek text).2 := by
  cases text with
  | nil => rfl
  | cons c t => exact lexer.transition_of_advance (List.cons_ne_nil c t) rfl

theorem transition_none_of_opened {text rest : Text} {s : State}
    (h : opened? text = some (s, rest)) :
    lexer.transition none text = lexer.transition (some s) rest := by
  rw [transition_none_eq_seek]
  cases text with
  | nil => simp [opened?, commentOpened?, tag?, Quote.opened?] at h
  | cons c t => rw [seek, h]

theorem transition_none_of_word {c : Char} {t : Text} (h : opened? (c :: t) = none)
    (hw : isWordStart c) :
    lexer.transition none (c :: t) = lexer.transition none (t.dropWhile isWordPart) := by
  rw [transition_none_eq_seek, seek, h]
  simp only [hw, if_true]
  rfl

theorem transition_none_of_other {c : Char} {t : Text} (h : opened? (c :: t) = none)
    (hw : ¬isWordStart c) : lexer.transition none (c :: t) = lexer.transition none t := by
  rw [transition_none_eq_seek, seek, h]
  simp only [hw]
  exact (transition_none_eq_seek t).symm

/-- The characters that neither begin an opener nor a word. -/
def isIdle (c : Char) : Bool := !isOpenerChar c && !isWordStart c

theorem transition_none_of_idle {c : Char} (hc : isIdle c) (t : Text) :
    lexer.transition none (c :: t) = lexer.transition none t := by
  simp only [isIdle, Bool.and_eq_true, Bool.not_eq_true'] at hc
  exact transition_none_of_other (opened?_cons_eq_none hc.1 t) (by simp [hc.2])

theorem transition_none_idle_append {a : Text} (ha : ∀ c ∈ a, isIdle c) (t : Text) :
    lexer.transition none (a ++ t) = lexer.transition none t := by
  induction a with
  | nil => rfl
  | cons c a ih =>
    rw [List.cons_append, transition_none_of_idle (ha c (by simp)),
      ih fun d hd => ha d (by simp [hd])]

/-! ### Inside quotes -/

/-- What is open after the closing quote. -/
def Quote.after (q : Quote) : Option State :=
  if q.folded = .escape false then some .continuation else none

theorem transition_quoted_of_inside {q : Quote} {text : Text}
    (h : readBody q.mark q.escapes text = .inside) :
    lexer.transition (some (.quoted q)) text = .ok (some (.quoted q)) := by
  by_cases hne : text = []
  · rw [hne, Lexer.transition_nil]
  have hstep : lexer.advance (some (.quoted q)) text = .ok (some (.quoted q), []) := by
    simp only [lexer, advance, h]
  rw [lexer.transition_of_advance hne hstep, Lexer.transition_nil]

theorem transition_quoted_of_closed {q : Quote} {text rest : Text}
    (h : readBody q.mark q.escapes text = .closed rest) :
    lexer.transition (some (.quoted q)) text = lexer.transition q.after rest := by
  have hne : text ≠ [] := by
    rintro rfl
    simp [readBody] at h
  apply lexer.transition_of_advance hne
  simp only [lexer, advance, h]
  rfl

theorem transition_quoted_of_halfEscape {q : Quote} {text : Text}
    (h : readBody q.mark q.escapes text = .halfEscape) :
    lexer.transition (some (.quoted q)) text = .error (.halfEscape q.opener text) := by
  have hne : text ≠ [] := by
    rintro rfl
    simp [readBody] at h
  apply lexer.transition_of_advance_error hne
  simp only [lexer, advance, h]

/-- What follows a text that stays inside is read as if that text were not there. -/
theorem transition_quoted_append {q : Quote} {a : Text}
    (h : readBody q.mark q.escapes a = .inside) (b : Text) :
    Agree (lexer.transition (some (.quoted q)) (a ++ b))
      (lexer.transition (some (.quoted q)) b) := by
  have hab := readBody_append_of_inside h (b := b)
  cases hb : readBody q.mark q.escapes b with
  | inside =>
    rw [transition_quoted_of_inside hb, transition_quoted_of_inside (hab.trans hb)]
    exact Agree.refl _
  | closed rest =>
    rw [transition_quoted_of_closed hb, transition_quoted_of_closed (hab.trans hb)]
    exact Agree.refl _
  | halfEscape =>
    rw [transition_quoted_of_halfEscape hb, transition_quoted_of_halfEscape (hab.trans hb)]
    rfl

/-! ### Between dollar tags -/

theorem transition_dollar_of_closed {tag text rest : Text} (hne : text ≠ [])
    (h : afterFirst? tag text = some rest) :
    lexer.transition (some (.dollar tag)) text = lexer.transition none rest := by
  apply lexer.transition_of_advance hne
  simp only [lexer, advance, advanceDollar, h]

theorem transition_dollar_of_fitsBetween {tag text : Text} (h : fitsBetween tag text) :
    lexer.transition (some (.dollar tag)) text = .ok (some (.dollar tag)) := by
  by_cases hne : text = []
  · rw [hne, Lexer.transition_nil]
  obtain ⟨hno, htail⟩ := fitsBetween_iff.1 h
  have hstep : lexer.advance (some (.dollar tag)) text = .ok (some (.dollar tag), []) := by
    simp only [lexer, advance, advanceDollar, hno]
    cases hl : fromLast? '$' text with
    | none => rfl
    | some tail =>
      have hp : ¬tail.isPrefixOf tag := fun hp => htail tail hl (List.isPrefixOf_iff_prefix.1 hp)
      simp only [hp]
      rfl
  rw [lexer.transition_of_advance hne hstep, Lexer.transition_nil]

theorem transition_dollar_of_tail {tag text tail : Text} (hno : afterFirst? tag text = none)
    (hl : fromLast? '$' text = some tail) (hp : tail <+: tag) :
    lexer.transition (some (.dollar tag)) text = .error (.dollarTail tag tail) := by
  have hne : text ≠ [] := by
    rintro rfl
    simp [fromLast?] at hl
  apply lexer.transition_of_advance_error hne
  simp only [lexer, advance, advanceDollar, hno, hl, List.isPrefixOf_iff_prefix.2 hp, if_true]

theorem ne_nil_of_afterFirst?_tag {tag text rest : Text} (ht : isTag tag)
    (h : afterFirst? tag text = some rest) : text ≠ [] := by
  rintro rfl
  obtain ⟨name, -, -, rfl⟩ := isTag_iff.1 ht
  simp [afterFirst?, afterStart?] at h

/-- What follows a text that fits between the tags is read as if that text were not there. -/
theorem transition_dollar_append {tag a : Text} (ht : isTag tag) (h : fitsBetween tag a)
    (b : Text) :
    Agree (lexer.transition (some (.dollar tag)) (a ++ b))
      (lexer.transition (some (.dollar tag)) b) := by
  have hab := afterFirst?_append_of_fitsBetween ht h (b := b)
  cases hb : afterFirst? tag b with
  | some rest =>
    have hne := ne_nil_of_afterFirst?_tag ht hb
    rw [transition_dollar_of_closed hne hb,
      transition_dollar_of_closed (by simp [hne]) (hab.trans hb)]
    exact Agree.refl _
  | none =>
    cases hl : fromLast? '$' b with
    | none =>
      -- The last dollar, if there is one, is in the first piece, which fits.
      have hfits : fitsBetween tag b := fitsBetween_iff.2 ⟨hb, by simp [hl]⟩
      have hfits' : fitsBetween tag (a ++ b) := by
        refine fitsBetween_iff.2 ⟨hab.trans hb, ?_⟩
        intro tail htail hp
        rw [fromLast?_append, hl, Option.none_or, Option.map_eq_some_iff] at htail
        obtain ⟨tail', htail', rfl⟩ := htail
        exact (fitsBetween_iff.1 h).2 tail' htail' ((List.prefix_append tail' b).trans hp)
      rw [transition_dollar_of_fitsBetween hfits, transition_dollar_of_fitsBetween hfits']
      exact Agree.refl _
    | some tail =>
      have hl' : fromLast? '$' (a ++ b) = some tail := by
        rw [fromLast?_append, hl, Option.some_or]
      by_cases hp : tail <+: tag
      · rw [transition_dollar_of_tail hb hl hp, transition_dollar_of_tail (hab.trans hb) hl' hp]
        rfl
      · have hfits : fitsBetween tag b := fitsBetween_iff.2 ⟨hb, by simp [hl, hp]⟩
        have hfits' : fitsBetween tag (a ++ b) :=
          fitsBetween_iff.2 ⟨hab.trans hb, by simp [hl', hp]⟩
        rw [transition_dollar_of_fitsBetween hfits, transition_dollar_of_fitsBetween hfits']
        exact Agree.refl _

/-! ### Inside comments -/

theorem afterLine?_nil : afterLine? [] = none := rfl

theorem transition_lineComment {text rest : Text} (h : afterLine? text = some rest) :
    lexer.transition (some .lineComment) text = lexer.transition none rest := by
  have hne : text ≠ [] := by
    rintro rfl
    simp [afterLine?_nil] at h
  apply lexer.transition_of_advance hne
  simp only [lexer, advance, h]

theorem transition_lineComment_of_none {text : Text} (hne : text ≠ [])
    (h : afterLine? text = none) :
    lexer.transition (some .lineComment) text = .error (.unclosedComment .dashes text) := by
  apply lexer.transition_of_advance_error hne
  simp only [lexer, advance, h]

theorem transition_blockComment {depth : Nat} {text rest : Text} (hne : text ≠ [])
    (h : afterBlock? depth text = some rest) :
    lexer.transition (some (.blockComment depth)) text = lexer.transition none rest := by
  apply lexer.transition_of_advance hne
  simp only [lexer, advance, h]

theorem transition_blockComment_of_none {depth : Nat} {text : Text} (hne : text ≠ [])
    (h : afterBlock? depth text = none) :
    lexer.transition (some (.blockComment depth)) text =
      .error (.unclosedComment .block text) := by
  apply lexer.transition_of_advance_error hne
  simp only [lexer, advance, h]

/-! ### After an escape string -/

theorem commentOpened?_cons_eq_none {c : Char} (h : c ≠ '-') (h' : c ≠ '/') (t : Text) :
    commentOpened? (c :: t) = none := by
  rw [Option.eq_none_iff_forall_ne_some]
  rintro ⟨k, rest⟩ hk
  rcases commentOpened?_eq_some_iff.1 hk with ⟨-, ht⟩ | ⟨-, ht⟩
  · exact h (List.cons.inj ht).1
  · exact h' (List.cons.inj ht).1

/-- A comment begins with no blank. -/
theorem dropWhile_isBlank_of_commentOpened? {k : Comment} {text body : Text}
    (h : commentOpened? text = some (k, body)) : text.dropWhile isBlank = text := by
  rcases commentOpened?_eq_some_iff.1 h with ⟨-, rfl⟩ | ⟨-, rfl⟩ <;> rfl

theorem transition_continuation_of_comment {k : Comment} {text body rest : Text}
    (h : commentOpened? text = some (k, body)) (hr : afterComment? k body = some rest) :
    lexer.transition (some .continuation) text = lexer.transition (some .continuation) rest := by
  have hne : text ≠ [] := by
    rintro rfl
    simp [commentOpened?] at h
  apply lexer.transition_of_advance hne
  simp only [lexer, advance, advanceContinuation, dropWhile_isBlank_of_commentOpened? h, h, hr]

theorem transition_continuation_of_unclosed {k : Comment} {text body : Text}
    (h : commentOpened? text = some (k, body)) (hr : afterComment? k body = none) :
    lexer.transition (some .continuation) text = .error (.unclosedComment k body) := by
  have hne : text ≠ [] := by
    rintro rfl
    simp [commentOpened?] at h
  apply lexer.transition_of_advance_error hne
  simp only [lexer, advance, advanceContinuation, dropWhile_isBlank_of_commentOpened? h, h, hr]

theorem transition_continuation_apostrophe (t : Text) :
    lexer.transition (some .continuation) (apostrophe :: t) =
      lexer.transition (some (.quoted (.escape false))) t := by
  apply lexer.transition_of_advance (List.cons_ne_nil _ _)
  have hcomment : commentOpened? (apostrophe :: t) = none :=
    commentOpened?_cons_eq_none (by decide) (by decide) t
  have hdrop : (apostrophe :: t).dropWhile isBlank = apostrophe :: t := rfl
  simp only [lexer, advance, advanceContinuation, hdrop, hcomment]
  rfl

theorem transition_continuation_of_other {c : Char} {t : Text} (hblank : isBlank c = false)
    (hquote : c ≠ apostrophe) (hcomment : commentOpened? (c :: t) = none) :
    lexer.transition (some .continuation) (c :: t) = lexer.transition none (c :: t) := by
  apply lexer.transition_of_advance (List.cons_ne_nil _ _)
  have hdrop : (c :: t).dropWhile isBlank = c :: t :=
    List.dropWhile_cons_of_neg (by simp [hblank])
  simp [lexer, advance, advanceContinuation, hdrop, hcomment, hquote]

/-- Blanks keep the continuation alive. -/
theorem transition_continuation_dropWhile (text : Text) :
    lexer.transition (some .continuation) text =
      lexer.transition (some .continuation) (text.dropWhile isBlank) := by
  -- The lexer looks past the blanks before it decides, so each outcome is the same without.
  by_cases hsame : text.dropWhile isBlank = text
  · rw [hsame]
  have hne : text ≠ [] := by
    rintro rfl
    exact hsame rfl
  cases hcomment : commentOpened? (text.dropWhile isBlank) with
  | some found =>
    obtain ⟨k, body⟩ := found
    cases hr : afterComment? k body with
    | some rest =>
      have hstep : lexer.advance (some .continuation) text = .ok (some .continuation, rest) := by
        simp only [lexer, advance, advanceContinuation, hcomment, hr]
      rw [lexer.transition_of_advance hne hstep, transition_continuation_of_comment hcomment hr]
    | none =>
      have hstep : lexer.advance (some .continuation) text = .error (.unclosedComment k body) := by
        simp only [lexer, advance, advanceContinuation, hcomment, hr]
      rw [lexer.transition_of_advance_error hne hstep,
        transition_continuation_of_unclosed hcomment hr]
  | none =>
    by_cases hhead : (text.dropWhile isBlank).head? = some apostrophe
    · obtain ⟨t, ht⟩ := List.head?_eq_some_iff.1 hhead
      rw [ht] at hcomment
      have hstep : lexer.advance (some .continuation) text =
          .ok (some (.quoted (.escape false)), t) := by
        simp only [lexer, advance, advanceContinuation, ht, hcomment, List.head?_cons, if_true,
          List.tail_cons]
      rw [lexer.transition_of_advance hne hstep, ht, transition_continuation_apostrophe]
    · apply lexer.transition_of_advance hne
      simp only [lexer, advance, advanceContinuation, hcomment, hhead, hsame, if_false]

theorem transition_continuation_blank {c : Char} (hc : isBlank c) (t : Text) :
    lexer.transition (some .continuation) (c :: t) =
      lexer.transition (some .continuation) t := by
  rw [transition_continuation_dropWhile, List.dropWhile_cons_of_pos hc,
    ← transition_continuation_dropWhile]

end SqlWeave.Postgres
