/-
SqlWeave/Proofs/Postgres/TakenUp.lean

Strings with escapes that go on.  Behind such a string the lexer waits for an apostrophe that takes
it up, past blanks and comments.  What may stand between two strings that Postgres joins is written
down a second time, in the check of values between tokens, and the two agree on all but one
character: the form feed, which the check takes for a blank and the lexer does not.

Main results: the gaps that the check finds, as a grammar (`isGap_iff`); a gap keeps the string
alive exactly if every form feed in it stands inside of a comment (`gap_taken_up_iff`).  A value
that is written behind the string takes it up, and what comes next is read as if the value were
not there (`value_taken_up`).
-/
import SqlWeave.Proofs.Postgres.Gap
import SqlWeave.Proofs.Postgres.Parts
import SqlWeave.Proofs.Postgres.Statement
import SqlWeave.Proofs.ReadBack

namespace SqlWeave.Postgres

open Text Template

/-! ### Comments in a gap -/

/-- Whether a text of blanks and line comments ends inside of a comment: no line break comes behind
some `--` in it. -/
def EndsInComment (t : Text) : Prop :=
  ∃ front body, t = front ++ '-' :: '-' :: body ∧ ∀ c ∈ body, isLineBreak c = false

theorem not_endsInComment_nil : ¬EndsInComment [] := by
  rintro ⟨front, body, h, -⟩
  simp at h

theorem EndsInComment.append_left {t : Text} (h : EndsInComment t) (u : Text) :
    EndsInComment (u ++ t) := by
  obtain ⟨front, body, rfl, hbody⟩ := h
  exact ⟨u ++ front, body, by simp, hbody⟩

theorem EndsInComment.of_cons {c : Char} {t : Text} (hc : c ≠ '-') (h : EndsInComment (c :: t)) :
    EndsInComment t := by
  obtain ⟨front, body, h, hbody⟩ := h
  cases front with
  | nil => exact absurd (List.cons.inj h).1 hc
  | cons d front => exact ⟨front, body, (List.cons.inj h).2, hbody⟩

/-- A line break ends every comment before it. -/
theorem EndsInComment.of_break {c : Char} {t u : Text} (hc : isLineBreak c)
    (h : EndsInComment (u ++ c :: t)) : EndsInComment t := by
  have hdash : c ≠ '-' := by
    rintro rfl
    contradiction
  obtain ⟨front, body, htext, hbody⟩ := h
  -- The break stands before the dashes, since no break comes behind them.
  rcases List.append_eq_append_iff.1 htext with ⟨more, -, hmore⟩ | ⟨more, -, hmore⟩
  · cases more with
    | nil => exact absurd (List.cons.inj hmore).1 hdash
    | cons d more => exact ⟨more, body, (List.cons.inj hmore).2, hbody⟩
  · have hmem : c ∈ '-' :: '-' :: body := by simp [hmore]
    have hbreak := hbody c (by simpa [hdash] using hmem)
    rw [hc] at hbreak
    contradiction

/-! ### The gaps that the check finds -/

theorem IsGap.not_endsInComment {g : Text} (h : IsGap g) : ¬EndsInComment g := by
  induction h with
  | nil => exact not_endsInComment_nil
  | blank hc h ih => exact fun hends => ih (hends.of_cons (ne_dash_of_gap hc))
  | comment hbody hc h ih =>
    intro hends
    rw [← List.cons_append, ← List.cons_append] at hends
    exact ih (hends.of_break hc)

/-- At the end of a text, a gap that does not end in a comment is a gap by itself. -/
theorem GapBefore.isGap {g : Text} (h : GapBefore [] g) (hclosed : ¬EndsInComment g) : IsGap g := by
  induction h with
  | nil => exact .nil
  | @blank c g hc h ih => exact .blank hc (ih fun hends => hclosed (hends.append_left [c]))
  | @comment body g hbody hends h ih =>
    cases g with
    | nil => exact absurd ⟨[], body, by simp, hbody⟩ hclosed
    | cons c g =>
      have hc : isLineBreak c := hends c rfl
      have hdash := ne_dash_of_gap (.inr hc)
      refine .comment hbody hc ((ih fun hends => hclosed ?_).of_cons_blank hdash)
      exact hends.append_left ('-' :: '-' :: body)

/-- The texts that the check takes for a gap from beginning to end and that do not end in a
comment are blanks and line comments, with a line break among them. -/
theorem isGap_iff {g : Text} :
    (IsGap g ∧ ∃ c ∈ g, isLineBreak c) ↔ afterGap? g = some [] ∧ ¬EndsInComment g := by
  constructor
  · rintro ⟨h, hbreak⟩
    have hafter := afterGap?_of_isGap h hbreak []
    rw [List.append_nil] at hafter
    exact ⟨hafter, h.not_endsInComment⟩
  · rintro ⟨h, hclosed⟩
    obtain ⟨g', hlongest⟩ := isLongestGap_dropGap g
    obtain ⟨hbreak, hrest⟩ := hlongest.afterGap?_eq_some_iff.1 h
    rw [← hrest] at hlongest
    obtain rfl : g = g' := by simpa using hlongest.eq_append
    exact ⟨hlongest.gap.isGap hclosed, hbreak⟩

/-! ### Form feeds -/

/-- The blank of a gap that the lexer does not take for one. -/
abbrev formFeed : Char := '\x0c'

/-- Whether every form feed in a text of blanks and line comments stands inside of a comment. -/
def FormFeedsInComments (g : Text) : Prop :=
  ∀ front rest, g = front ++ formFeed :: rest → EndsInComment front

theorem formFeedsInComments_nil : FormFeedsInComments [] := by
  intro front rest h
  simp at h

theorem not_formFeedsInComments_cons (g : Text) : ¬FormFeedsInComments (formFeed :: g) :=
  fun h => not_endsInComment_nil (h [] g rfl)

theorem formFeedsInComments_cons_iff {c : Char} {g : Text} (hc : c ≠ '-') (hfeed : c ≠ formFeed) :
    FormFeedsInComments (c :: g) ↔ FormFeedsInComments g := by
  constructor
  · rintro h front rest rfl
    exact (h (c :: front) rest rfl).of_cons hc
  · intro h front rest htext
    cases front with
    | nil => exact absurd (List.cons.inj htext).1 hfeed
    | cons d front =>
      obtain ⟨rfl, hg⟩ := List.cons.inj htext
      exact (h front rest hg).append_left [c]

theorem formFeedsInComments_comment_iff {c : Char} {body g : Text}
    (hbody : ∀ d ∈ body, isLineBreak d = false) (hc : isLineBreak c) :
    FormFeedsInComments ('-' :: '-' :: (body ++ c :: g)) ↔ FormFeedsInComments g := by
  constructor
  · rintro h front rest rfl
    have hends := h ('-' :: '-' :: (body ++ c :: front)) rest (by simp)
    rw [← List.cons_append, ← List.cons_append] at hends
    exact hends.of_break hc
  · intro h front rest htext
    match front with
    | [] => exact absurd (List.cons.inj htext).1 (by decide)
    | [d] => exact absurd (List.cons.inj (List.cons.inj htext).2).1 (by decide)
    | d :: e :: front =>
      obtain ⟨rfl, hdash⟩ := List.cons.inj htext
      obtain ⟨rfl, htail⟩ := List.cons.inj hdash
      -- The form feed comes behind the line break, or it stands inside of the comment.
      rcases List.append_eq_append_iff.1 htail with ⟨more, rfl, hmore⟩ | ⟨more, rfl, -⟩
      · cases more with
        | nil =>
          obtain rfl := (List.cons.inj hmore).1
          contradiction
        | cons d more =>
          have hends := h more rest (List.cons.inj hmore).2
          have hleft := hends.append_left ('-' :: '-' :: (body ++ [d]))
          simpa using hleft
      · exact ⟨[], front, rfl, fun d hd => hbody d (by simp [hd])⟩

/-! ### Gaps behind a string with escapes -/

theorem isBlank_of_gap {c : Char} (hc : isGapBlank c ∨ isLineBreak c) (hfeed : c ≠ formFeed) :
    isBlank c := by
  rcases hc with hblank | hbreak
  · simp only [isGapBlank, Bool.or_eq_true, decide_eq_true_eq] at hblank
    rcases hblank with (rfl | rfl) | rfl
    · rfl
    · contradiction
    · rfl
  · exact isBlank_of_isLineBreak hbreak

/-- A gap is passed by as a whole, or a form feed in it makes the rest of it be read at top level. -/
theorem IsGap.kept_or_dropped {g : Text} (h : IsGap g) :
    (FormFeedsInComments g ∧ ∀ t, lexer.transition (some .continuation) (g ++ t) =
        lexer.transition (some .continuation) t) ∨
      (¬FormFeedsInComments g ∧ ∀ t, lexer.transition (some .continuation) (g ++ t) =
        lexer.transition none t) := by
  induction h with
  | nil => exact .inl ⟨formFeedsInComments_nil, fun t => rfl⟩
  | @blank c g hc h ih =>
    by_cases hfeed : c = formFeed
    · subst hfeed
      -- Nothing is open behind the form feed, so the rest of the gap is read at top level.
      refine .inr ⟨not_formFeedsInComments_cons g, fun t => ?_⟩
      rw [List.cons_append, transition_continuation_of_other rfl (by decide)
        (commentOpened?_cons_eq_none (by decide) (by decide) _),
        transition_none_of_idle (isIdle_of_gap hc), transition_none_gap_append h]
    · rw [formFeedsInComments_cons_iff (ne_dash_of_gap hc) hfeed]
      have hstep (t : Text) : lexer.transition (some .continuation) (c :: g ++ t) =
          lexer.transition (some .continuation) (g ++ t) :=
        transition_continuation_blank (isBlank_of_gap hc hfeed) _
      simp only [hstep]
      exact ih
  | @comment body g c hbody hc h ih =>
    rw [formFeedsInComments_comment_iff hbody hc]
    have hstep (t : Text) :
        lexer.transition (some .continuation) ('-' :: '-' :: (body ++ c :: g) ++ t) =
          lexer.transition (some .continuation) (g ++ t) := by
      have hopened : commentOpened? ('-' :: '-' :: (body ++ c :: (g ++ t))) =
          some (.dashes, body ++ c :: (g ++ t)) := rfl
      have hafter : afterComment? .dashes (body ++ c :: (g ++ t)) = some (c :: (g ++ t)) :=
        afterLine?_of_break hbody hc
      rw [List.cons_append, List.cons_append, List.append_assoc, List.cons_append,
        transition_continuation_of_comment hopened hafter,
        transition_continuation_blank (isBlank_of_isLineBreak hc)]
    simp only [hstep]
    exact ih

/-- Whether a text that comes behind a string with escapes leaves it to an apostrophe to take the
string up. -/
structure Keeps (g : Text) : Prop where
  state : lexer.transition (some .continuation) g = .ok (some .continuation)
  string (rest : Text) : lexer.transition (some .continuation) (g ++ apostrophe :: rest) =
    lexer.transition (some (.quoted (.escape false))) rest

/-- Whether a text that comes behind a string with escapes is the end of it, so that an apostrophe
opens a string of its own. -/
structure Drops (g : Text) : Prop where
  state : lexer.transition (some .continuation) g = .ok none
  string (rest : Text) : lexer.transition (some .continuation) (g ++ apostrophe :: rest) =
    lexer.transition (some (.quoted .string)) rest

theorem Keeps.not_drops {g : Text} (h : Keeps g) : ¬Drops g := by
  intro hdrops
  have := h.state.symm.trans hdrops.state
  contradiction

theorem IsGap.keeps_or_drops {g : Text} (h : IsGap g) :
    FormFeedsInComments g ∧ Keeps g ∨ ¬FormFeedsInComments g ∧ Drops g := by
  rcases h.kept_or_dropped with ⟨hfeeds, hread⟩ | ⟨hfeeds, hread⟩
  · refine .inl ⟨hfeeds, ?_, fun rest => ?_⟩
    · rw [← List.append_nil g, hread, Lexer.transition_nil]
    · rw [hread, transition_continuation_apostrophe]
  · have hopened (rest : Text) : opened? (apostrophe :: rest) = some (.quoted .string, rest) :=
      opened?_opener (s := .quoted .string) trivial rest
    refine .inr ⟨hfeeds, ?_, fun rest => ?_⟩
    · rw [← List.append_nil g, hread, Lexer.transition_nil]
    · rw [hread, transition_none_of_opened (hopened rest)]

/-- Behind a string with escapes, a gap of the check in which every comment ends keeps the string
alive exactly if no form feed stands in it outside of comments.  If one does, the string is over,
and the next one is read without escapes. -/
theorem gap_taken_up_iff {g : Text} (hgap : afterGap? g = some []) (hclosed : ¬EndsInComment g) :
    (Keeps g ↔ FormFeedsInComments g) ∧ (Drops g ↔ ¬FormFeedsInComments g) := by
  obtain ⟨hg, -⟩ := isGap_iff.2 ⟨hgap, hclosed⟩
  rcases hg.keeps_or_drops with ⟨hfeeds, hkeeps⟩ | ⟨hfeeds, hdrops⟩
  · simp [hfeeds, hkeeps, hkeeps.not_drops]
  · have hnot : ¬Keeps g := fun hkeeps => hkeeps.not_drops hdrops
    simp [hfeeds, hdrops, hnot]

/-- Blanks of every kind, and a form feed and an apostrophe in a comment. -/
theorem gap_taken_up_over_comment :
    let g := '\t' :: ' ' :: '-' :: '-' :: ([apostrophe, formFeed] ++ '\n' :: [' ', '\r'])
    afterGap? g = some [] ∧ ¬EndsInComment g ∧ (Keeps g ↔ FormFeedsInComments g) ∧
      (Drops g ↔ ¬FormFeedsInComments g) ∧ Keeps g := by
  intro g
  have hbody : ∀ c ∈ [apostrophe, formFeed], isLineBreak c = false := by
    simp [isLineBreak, apostrophe, formFeed]
  have hcomment : IsGap ('-' :: '-' :: ([apostrophe, formFeed] ++ '\n' :: [' ', '\r'])) :=
    .comment hbody (by decide) (.blank (.inl (by decide)) (.blank (.inr (by decide)) .nil))
  have hg : IsGap g := .blank (.inl (by decide)) (.blank (.inl (by decide)) hcomment)
  have hfeeds : FormFeedsInComments g := by
    refine (formFeedsInComments_cons_iff (by decide) (by decide)).2 ?_
    refine (formFeedsInComments_cons_iff (by decide) (by decide)).2 ?_
    refine (formFeedsInComments_comment_iff hbody (by decide)).2 ?_
    refine (formFeedsInComments_cons_iff (by decide) (by decide)).2 ?_
    exact (formFeedsInComments_cons_iff (by decide) (by decide)).2 formFeedsInComments_nil
  obtain ⟨hgap, hclosed⟩ := isGap_iff.1 ⟨hg, '\n', by decide, by decide⟩
  obtain ⟨hkeeps, hdrops⟩ := gap_taken_up_iff hgap hclosed
  exact ⟨hgap, hclosed, hkeeps, hdrops, hkeeps.2 hfeeds⟩

/-- With a form feed the check still finds the gap, but the lexer reads what follows at top level:
a string behind it is read without escapes, and ends too early. -/
theorem gap_dropped_at_form_feed :
    let g := [formFeed, '\n']
    let rest := [backslash, apostrophe]
    afterGap? g = some [] ∧ ¬EndsInComment g ∧
      lexer.transition none ("SELECT E'a'".toList ++ g) = .ok none ∧
      lexer.transition (some .continuation) g = .ok none ∧
      lexer.transition (some .continuation) (g ++ apostrophe :: rest) = .ok none ∧
      lexer.transition (some (.quoted (.escape false))) rest =
        .ok (some (.quoted (.escape false))) := by
  intro g rest
  have hg : IsGap g := .blank (.inl (by decide)) (.blank (.inr (by decide)) .nil)
  exact ⟨by decide, hg.not_endsInComment, by cbv, by cbv, by cbv, by cbv⟩

/-! ### Values behind a string with escapes -/

variable {surroundings : Surroundings} {options : Options}

/-- Behind a text that ends in a string with escapes, every value has a string of its own that
takes that one up.  Set off from its neighbours, it leaves the lexer where it was, and what follows
is read as if the value were not there. -/
theorem value_taken_up {front : Text} (h : lexer.transition none front = .ok (some .continuation))
    (v : Value) (after : Text) :
    ∃ e, splice surroundings options State.continuation.opener v = .ok e ∧
      lexer.transition none (front ++ setOff (lastChar [] front) e after) =
        .ok (some .continuation) ∧
      Agree (lexer.transition none (front ++ setOff (lastChar [] front) e after ++ after))
        (lexer.transition (some .continuation) after) := by
  have hbody := readBody_escapeBody (spliceText surroundings options v)
  obtain ⟨hfilled, hjoins⟩ := transition_none_setOff h hbody after
  exact ⟨_, splice_continuation, hfilled, transition_append (s := none) trivial hfilled hjoins⟩

/-- Apostrophes on both sides of the value, and one in it. -/
theorem value_taken_up_between_quotes :
    let env : Surroundings := ⟨defaultMinter.policy, .zero⟩
    let front := "SELECT E'a'".toList
    let v : Value := .ofText [apostrophe, backslash]
    let after := "'b'--".toList
    lexer.transition none front = .ok (some .continuation) ∧
      ∃ e, splice env .default State.continuation.opener v = .ok e ∧
        lexer.transition none (front ++ setOff (lastChar [] front) e after) =
          .ok (some .continuation) ∧
        Agree (lexer.transition none (front ++ setOff (lastChar [] front) e after ++ after))
          (lexer.transition (some .continuation) after) := by
  intro env front v after
  have hfront : lexer.transition none "SELECT E'a'".toList = .ok (some .continuation) := by cbv
  exact ⟨hfront, value_taken_up hfront v after⟩

end SqlWeave.Postgres
