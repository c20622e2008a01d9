/-
SqlWeave/Proofs/Postgres/Cut.lean

Reading a text of Postgres in two pieces.  At top level the pieces must not fuse, and after a
string with escapes two quotes must not meet.  Inside quotes and dollar tags nothing can go
wrong: what would, the lexer refuses.

The proof follows the reading of the first piece.  It keeps in view what the lexer has gone
through already, since an opener that is cut in two may not begin inside a word.

Main results: if no quote and no comment comes about where the pieces meet, the reading goes on
in the second piece at once, behind an opener or behind a word (`resumed_append`); where the
pieces do not fuse, reading them together comes to reading one after the other
(`transition_append`).
-/
import SqlWeave.Proofs.Postgres.Comment
import SqlWeave.Proofs.Postgres.Fusion

namespace SqlWeave.Postgres

open Text

/-! ### What a reading keeps -/

/-- What can be open in a reading: a dollar quote with a proper tag, a block comment with some
level of it left. -/
def Proper : Option State → Prop
  | some (.dollar tag) => isTag tag
  | some (.blockComment depth) => depth ≠ 0
  | _ => True

theorem proper_of_isOpened {s : State} (hs : s.IsOpened) : Proper (some s) := by
  cases s with
  | dollar tag => exact hs
  | blockComment depth =>
    obtain rfl : depth = 1 := hs
    exact Nat.one_ne_zero
  | continuation => exact hs.elim
  | lineComment | quoted q => trivial

theorem Quote.mark_eq (q : Quote) : q.mark = apostrophe ∨ q.mark = quotation := by
  unfold Quote.mark
  split
  · exact .inr rfl
  · exact .inl rfl

theorem Quote.atTop_after (q : Quote) : AtTop q.after := by
  unfold Quote.after
  split
  · exact .inr rfl
  · exact .inl rfl

theorem proper_after (q : Quote) : Proper q.after := by
  rcases q.atTop_after with h | h <;> rw [h] <;> trivial

theorem isOpened_of_seek {t rest : Text} {s : State} (h : seek t = (some s, rest)) :
    s.IsOpened := by
  fun_induction seek t with
  | case1 => simp at h
  | case2 c t s' rest' hopened =>
    obtain rfl : s' = s := by
      simp at h
      exact h.1
    exact (opened?_eq_some_iff.1 hopened).1
  | case3 c t hopened hw => simp at h
  | case4 c t hopened hw ih => exact ih h

theorem proper_of_advance {s s' : Option State} {t rest : Text} (hs : Proper s)
    (h : advance s t = .ok (s', rest)) : Proper s' := by
  cases s' with
  | none => trivial
  | some r =>
    cases s with
    | none => exact proper_of_isOpened (isOpened_of_seek (Except.ok.inj h))
    | some s =>
      cases s with
      | lineComment =>
        simp only [advance] at h
        split at h <;> simp at h
      | blockComment depth =>
        simp only [advance] at h
        split at h <;> simp at h
      | quoted q =>
        simp only [advance] at h
        split at h
        · simp at h
          exact h.1 ▸ trivial
        · have hafter := proper_after q
          simp only [Except.ok.injEq, Prod.mk.injEq] at h
          exact h.1 ▸ hafter
        · contradiction
      | dollar tag =>
        simp only [advance, advanceDollar] at h
        split at h
        · simp at h
        · split at h
          · split at h <;> simp at h
            exact h.1 ▸ hs
          · simp at h
            exact h.1 ▸ hs
      | continuation =>
        simp only [advance, advanceContinuation] at h
        split at h
        · split at h <;> simp at h
          exact h.1 ▸ trivial
        · split at h
          · simp at h
            exact h.1 ▸ trivial
          · split at h <;> simp at h
            exact h.1 ▸ trivial

theorem proper_of_transition {s q : Option State} {t : Text} (hs : Proper s)
    (h : lexer.transition s t = .ok q) : Proper q := by
  induction s, t using Lexer.transition.induct lexer with
  | case1 s =>
    obtain rfl : s = q := by simpa using h
    exact hs
  | case2 s t hne e he =>
    rw [lexer.transition_of_advance_error hne he] at h
    contradiction
  | case3 s t hne s' rest hstep ih =>
    rw [lexer.transition_of_advance hne hstep] at h
    exact ih (proper_of_advance hs hstep) h

/-! ### Readings and cuts -/

/-- Whether an outcome is that of reading on in the second of two pieces. -/
def Resumed (q : Option State) (a b : Text) (outcome : Except Failure (Option State)) : Prop :=
  ∃ s u, Resumes q a b s u ∧ Agree outcome (lexer.transition s u)

/-- A reading of `a`, with `b` to follow.  The lexer has gone through `y`; it reads `x` from `s`
on, and that leaves `q` open. -/
structure Cut (s q : Option State) (a y x b : Text) : Prop where
  whole : y ++ x = a
  proper : Proper s
  reads : lexer.transition s x = .ok q
  fresh : AtTop s → Fresh y x
  abuts : Abuts q a b

/-- The reading that is left after the lexer has gone through `u`, too. -/
theorem Cut.later {s s' q : Option State} {a y u x b : Text} (h : Cut s q a y (u ++ x) b)
    (hread : lexer.transition s (u ++ x) = lexer.transition s' x) (hs : Proper s')
    (hfresh : AtTop s' → Fresh (y ++ u) x) :
    Cut s' q a (y ++ u) x b where
  whole := by rw [List.append_assoc, h.whole]
  proper := hs
  reads := hread.symm.trans h.reads
  fresh := hfresh
  abuts := h.abuts

/-- How much is left to read.  Leaving a construct without reading counts, too. -/
def left (s : Option State) (x : Text) : Nat := 2 * x.length + if s.isSome then 1 else 0

/-- Whether every shorter reading of the first piece goes on in the second one. -/
def GoesOnBelow (n : Nat) (q : Option State) (a b : Text) : Prop :=
  ∀ {s y x}, left s x < n → Cut s q a y x b → Resumed q a b (lexer.transition s (x ++ b))

variable {s q : Option State} {a y x b : Text}

theorem left_lt {s s' : Option State} {u x : Text} (hu : u ≠ []) : left s' x < left s (u ++ x) := by
  have := List.length_pos_iff.2 hu
  unfold left
  rw [List.length_append]
  split <;> split <;> omega

theorem left_none_lt (s : State) (u x : Text) : left none x < left (some s) (u ++ x) := by
  show 2 * x.length + 0 < 2 * (u ++ x).length + 1
  rw [List.length_append]
  omega

theorem Resumed.apart {outcome : Except Failure (Option State)}
    (h : Agree outcome (lexer.transition q b)) : Resumed q a b outcome :=
  ⟨q, b, .apart, h⟩

/-- Where the first piece is read to its end, the second one is read from there. -/
theorem Resumed.here (q : Option State) (a b : Text) : Resumed q a b (lexer.transition q b) :=
  .apart (Agree.refl _)

/-! ### One state at a time -/

/-- An opener that is all in the first piece. -/
theorem Cut.resumed_of_opened {s' : State} {rest : Text} (h : Cut none q a y x b)
    (ih : GoesOnBelow (left none x) q a b) (hopened : opened? x = some (s', rest)) :
    Resumed q a b (lexer.transition none (x ++ b)) := by
  rw [transition_none_of_opened (opened?_append hopened)]
  have hread := transition_none_of_opened hopened
  obtain ⟨hs, rfl⟩ := opened?_eq_some_iff.1 hopened
  refine ih (left_lt hs.opener_ne_nil) (h.later hread (proper_of_isOpened hs) ?_)
  rintro (h | h)
  · contradiction
  · obtain rfl := Option.some.inj h
    exact hs.elim

/-- An opener that is cut in two: its first part opens nothing, so the first piece ends there. -/
theorem Cut.resumed_of_opened_append {s' : State} {rest : Text} (h : Cut none q a y x b)
    (hx : x ≠ []) (hopened : opened? x = none) (hopened' : opened? (x ++ b) = some (s', rest)) :
    Resumed q a b (lexer.transition none (x ++ b)) := by
  obtain ⟨hs, z, hz, hopener, hb⟩ := exists_opener_eq hopened hopened'
  have hcalm := transition_none_of_calm (cutOpener_of_eq hs hopener hx hz).calm
  have hq : q = none := (Except.ok.inj (hcalm.symm.trans h.reads)).symm
  rw [transition_none_of_opened hopened']
  have hresumes : Resumes q a b (some s') rest :=
    .opener hq hs h.whole.symm hb hx hz hopener (h.fresh (.inl rfl))
  exact ⟨some s', rest, hresumes, Agree.refl _⟩

/-- A word that ends in the first piece, or goes on in the second one. -/
theorem Cut.resumed_of_word {c : Char} {t : Text} (h : Cut none q a y (c :: t) b)
    (ih : GoesOnBelow (left none (c :: t)) q a b) (hw : isWordStart c)
    (hopened : opened? (c :: t) = none) (hopened' : opened? (c :: (t ++ b)) = none) :
    Resumed q a b (lexer.transition none (c :: (t ++ b))) := by
  have hread := transition_none_of_word hopened hw
  rw [transition_none_of_word hopened' hw]
  cases hrest : t.dropWhile isWordPart with
  | nil =>
    -- The word goes on in the second piece.
    have htake : t.takeWhile isWordPart = t := by
      rw [← List.append_nil (t.takeWhile isWordPart), ← hrest, List.takeWhile_append_dropWhile]
    have hall : ∀ d ∈ t, isWordPart d := by
      rw [← htake]
      exact List.all_eq_true.1 List.all_takeWhile
    rw [hrest, Lexer.transition_nil] at hread
    obtain rfl : none = q := Except.ok.inj (hread.symm.trans h.reads)
    rw [List.dropWhile_append_of_pos hall]
    cases hopens : opensInWord b with
    | false =>
      rw [transition_none_dropWhile hopens]
      exact .here none a b
    | true =>
      have hends : endsInWord a := h.whole ▸ endsInWord_append hw hall
      exact ⟨none, _, .word rfl hends hopens, Agree.refl _⟩
  | cons d rest =>
    have hsplit : c :: t = (c :: t.takeWhile isWordPart) ++ t.dropWhile isWordPart := by
      rw [List.cons_append, List.takeWhile_append_dropWhile]
    have hdrop : (t ++ b).dropWhile isWordPart = t.dropWhile isWordPart ++ b := by
      rw [List.dropWhile_append, hrest]
      rfl
    rw [hdrop]
    rw [hsplit] at h ih
    refine ih (left_lt (by simp)) (h.later ?_ trivial fun _ => fresh_dropWhile _ _)
    rw [← hsplit, hread]

theorem Cut.resumed_none (h : Cut none q a y x b) (ih : GoesOnBelow (left none x) q a b) :
    Resumed q a b (lexer.transition none (x ++ b)) := by
  cases x with
  | nil =>
    obtain rfl : none = q := by simpa using h.reads
    exact .here none a b
  | cons c t =>
    -- The lexer looks for an opener first, in the first piece and then across the cut.
    cases hopened : opened? (c :: t) with
    | some found => exact h.resumed_of_opened ih hopened
    | none =>
      cases hopened' : opened? (c :: t ++ b) with
      | some found => exact h.resumed_of_opened_append (by simp) hopened hopened'
      | none =>
        rw [List.cons_append] at hopened' ⊢
        by_cases hw : isWordStart c
        · exact h.resumed_of_word ih hw hopened hopened'
        · have hread := transition_none_of_other hopened hw
          rw [transition_none_of_other hopened' hw]
          have hfresh := (h.fresh (.inl rfl)).step hw
          exact ih (left_lt (u := [c]) (by simp)) (h.later (u := [c]) hread trivial fun _ => hfresh)

theorem Cut.resumed_quoted {k : Quote} (h : Cut (some (.quoted k)) q a y x b)
    (ih : GoesOnBelow (left (some (.quoted k)) x) q a b) :
    Resumed q a b (lexer.transition (some (.quoted k)) (x ++ b)) := by
  cases hbody : readBody k.mark k.escapes x with
  | inside =>
    obtain rfl : some (.quoted k) = q :=
      Except.ok.inj ((transition_quoted_of_inside hbody).symm.trans h.reads)
    exact .apart (transition_quoted_append hbody b)
  | closed rest =>
    obtain ⟨front, rfl⟩ := readBody_closed_eq hbody
    have hread := transition_quoted_of_closed hbody
    -- A closing quote at the very end would be doubled only if the quotes met.
    have hdouble : rest = [] → b.head? ≠ some k.mark := by
      rintro rfl hb
      have hlast : a.getLast? = some k.mark := by simp [← h.whole]
      rw [Lexer.transition_nil] at hread
      obtain rfl : k.after = q := Except.ok.inj (hread.symm.trans h.reads)
      exact h.abuts.quotes k.atTop_after ⟨k.mark, k.mark_eq, hlast, hb⟩
    have hmark : isWordChar k.mark = false := by
      rcases k.mark_eq with hk | hk <;> rw [hk] <;> decide
    rw [transition_quoted_of_closed (readBody_append_of_closed hbody hdouble)]
    rw [List.append_cons] at h ih hread
    refine ih (left_lt (by simp)) (h.later hread (proper_after k) fun _ => ?_)
    rw [← List.append_assoc]
    exact fresh_of_last hmark
  | halfEscape =>
    have := (transition_quoted_of_halfEscape hbody).symm.trans h.reads
    contradiction

theorem Cut.resumed_dollar {tag : Text} (h : Cut (some (.dollar tag)) q a y x b)
    (ih : GoesOnBelow (left (some (.dollar tag)) x) q a b) :
    Resumed q a b (lexer.transition (some (.dollar tag)) (x ++ b)) := by
  have htag : isTag tag := h.proper
  cases hfirst : afterFirst? tag x with
  | some rest =>
    have hne := ne_nil_of_afterFirst?_tag htag hfirst
    have hread := transition_dollar_of_closed hne hfirst
    rw [transition_dollar_of_closed (by simp [hne]) (afterFirst?_append_of_some hfirst)]
    obtain ⟨name, -, -, rfl⟩ := isTag_iff.1 htag
    obtain ⟨front, rfl⟩ := append_of_afterFirst? hfirst
    rw [← List.append_assoc] at h ih hread
    refine ih (left_lt (by simp)) (h.later hread trivial fun _ => ?_)
    rw [← List.cons_append, ← List.append_assoc, ← List.append_assoc]
    exact fresh_of_last (by decide)
  | none =>
    by_cases hfits : fitsBetween tag x
    · obtain rfl : some (.dollar tag) = q :=
        Except.ok.inj ((transition_dollar_of_fitsBetween hfits).symm.trans h.reads)
      exact .apart (transition_dollar_append htag hfits b)
    · -- A piece that ends in the beginning of the tag has been refused already.
      obtain ⟨tail, hlast, hprefix⟩ : ∃ tail, fromLast? '$' x = some tail ∧ tail <+: tag := by
        simpa [fitsBetween_iff, hfirst] using hfits
      have := (transition_dollar_of_tail hfirst hlast hprefix).symm.trans h.reads
      contradiction

theorem Cut.resumed_lineComment (h : Cut (some .lineComment) q a y x b)
    (ih : GoesOnBelow (left (some .lineComment) x) q a b) :
    Resumed q a b (lexer.transition (some .lineComment) (x ++ b)) := by
  by_cases hne : x = []
  · subst hne
    obtain rfl : some .lineComment = q := by simpa using h.reads
    exact .here _ a b
  cases hafter : afterLine? x with
  | none =>
    have := (transition_lineComment_of_none hne hafter).symm.trans h.reads
    contradiction
  | some rest =>
    rw [transition_lineComment (afterLine?_append hafter)]
    have hread := transition_lineComment hafter
    -- The line break itself is left to the top level, and no word goes on with it.
    obtain ⟨front, c, t, rfl, rfl, hc, -⟩ := afterLine?_eq hafter
    exact ih (left_none_lt _ front _) (h.later hread trivial fun _ => fresh_of_isLineBreak hc)

theorem Cut.resumed_blockComment {depth : Nat} (h : Cut (some (.blockComment depth)) q a y x b)
    (ih : GoesOnBelow (left (some (.blockComment depth)) x) q a b) :
    Resumed q a b (lexer.transition (some (.blockComment depth)) (x ++ b)) := by
  by_cases hne : x = []
  · subst hne
    obtain rfl : some (.blockComment depth) = q := by simpa using h.reads
    exact .here _ a b
  cases hafter : afterBlock? depth x with
  | none =>
    have := (transition_blockComment_of_none hne hafter).symm.trans h.reads
    contradiction
  | some rest =>
    rw [transition_blockComment (by simp [hne]) (afterBlock?_append hafter)]
    have hread := transition_blockComment hne hafter
    obtain ⟨front, rfl⟩ := afterBlock?_eq h.proper hafter
    rw [List.append_cons] at h ih hread
    refine ih (left_lt (by simp)) (h.later hread trivial fun _ => ?_)
    rw [← List.append_assoc]
    exact fresh_of_last (by decide)

theorem commentOpened?_append {a b body : Text} {k : Comment}
    (h : commentOpened? a = some (k, body)) : commentOpened? (a ++ b) = some (k, body ++ b) := by
  rcases commentOpened?_eq_some_iff.1 h with ⟨rfl, rfl⟩ | ⟨rfl, rfl⟩ <;> rfl

/-- The opener of a comment that is cut in two is cut after its first character, which opens
nothing by itself. -/
theorem commentsMeet_of_commentOpened? {c : Char} {t body : Text} {k : Comment}
    (ha : commentOpened? (c :: t) = none) (hab : commentOpened? (c :: t ++ b) = some (k, body))
    (y : Text) : lexer.transition none (c :: t) = .ok none ∧ CommentsMeet (y ++ c :: t) b := by
  have hcut {d e : Char} (hab : c :: t ++ b = d :: e :: body)
      (hsome : ∀ r, (commentOpened? (d :: e :: r)).isSome) : c = d ∧ t = [] ∧ b = e :: body := by
    obtain ⟨rfl, htail⟩ := List.cons.inj hab
    cases t with
    | nil => exact ⟨rfl, rfl, htail⟩
    | cons e' t =>
      obtain rfl : e' = e := (List.cons.inj htail).1
      have := hsome t
      simp [ha] at this
  rcases commentOpened?_eq_some_iff.1 hab with ⟨-, hab⟩ | ⟨-, hab⟩
  · obtain ⟨rfl, rfl, rfl⟩ := hcut hab fun _ => rfl
    exact ⟨transition_none_of_calm (calm_nil.cons rfl), .inl ⟨by simp, rfl⟩⟩
  · obtain ⟨rfl, rfl, rfl⟩ := hcut hab fun _ => rfl
    exact ⟨transition_none_of_calm (calm_nil.cons rfl), .inr ⟨by simp, rfl⟩⟩

/-- A comment that ends in the first piece, after a string with escapes. -/
theorem Cut.resumed_of_comment {body rest : Text} {k : Comment}
    (h : Cut (some .continuation) q a y x b) (ih : GoesOnBelow (left (some .continuation) x) q a b)
    (hopened : commentOpened? x = some (k, body)) (hafter : afterComment? k body = some rest) :
    Resumed q a b (lexer.transition (some .continuation) (x ++ b)) := by
  rw [transition_continuation_of_comment (commentOpened?_append hopened)
    (afterComment?_append hafter)]
  have hread := transition_continuation_of_comment hopened hafter
  obtain ⟨front, rfl, hends⟩ := afterComment?_eq hafter
  obtain ⟨opener, hne, rfl⟩ : ∃ opener, opener ≠ [] ∧ x = opener ++ (front ++ rest) := by
    rcases commentOpened?_eq_some_iff.1 hopened with ⟨-, htext⟩ | ⟨-, htext⟩
    · exact ⟨['-', '-'], by simp, htext⟩
    · exact ⟨['/', '*'], by simp, htext⟩
  rw [← List.append_assoc] at h ih hread
  refine ih (left_lt (by simp [hne])) (h.later hread trivial fun _ => ?_)
  -- No word is open behind a slash or before a line break.
  rcases hends with hslash | ⟨d, hd, hbreak⟩
  · obtain ⟨front', rfl⟩ := List.getLast?_eq_some_iff.1 hslash
    rw [← List.append_assoc, ← List.append_assoc]
    exact fresh_of_last (by decide)
  · obtain ⟨rest, rfl⟩ := List.head?_eq_some_iff.1 hd
    exact fresh_of_isLineBreak hbreak

theorem Cut.resumed_continuation (h : Cut (some .continuation) q a y x b)
    (ih : GoesOnBelow (left (some .continuation) x) q a b) :
    Resumed q a b (lexer.transition (some .continuation) (x ++ b)) := by
  cases x with
  | nil =>
    obtain rfl : some .continuation = q := by simpa using h.reads
    exact .here _ a b
  | cons c t =>
    by_cases hblank : isBlank c
    · rw [List.cons_append, transition_continuation_blank hblank]
      refine ih (left_lt (u := [c]) (by simp)) (h.later (u := [c]) ?_ trivial fun _ => ?_)
      · exact transition_continuation_blank hblank t
      · exact fresh_of_last (isSeparator_iff.1 (isSeparator_of_isBlank hblank)).2
    by_cases hquote : c = apostrophe
    · subst hquote
      rw [List.cons_append, transition_continuation_apostrophe]
      refine ih (left_lt (u := [_]) (by simp)) (h.later (u := [_]) ?_ trivial (by simp [AtTop]))
      exact transition_continuation_apostrophe t
    cases hcomment : commentOpened? (c :: t) with
    | some found =>
      cases hafter : afterComment? found.1 found.2 with
      | some rest => exact h.resumed_of_comment ih hcomment hafter
      | none =>
        have := (transition_continuation_of_unclosed hcomment hafter).symm.trans h.reads
        contradiction
    | none =>
      -- The string is not taken up, and the text is read at top level.
      have hblank : isBlank c = false := by simpa using hblank
      have hread := transition_continuation_of_other hblank hquote hcomment
      have hfresh := h.fresh (.inr rfl)
      cases hcomment' : commentOpened? (c :: t ++ b) with
      | some found =>
        obtain ⟨hnone, hmeet⟩ := commentsMeet_of_commentOpened? hcomment hcomment' y
        have hq : q = none := Except.ok.inj (h.reads.symm.trans (hread.trans hnone))
        rw [h.whole] at hmeet
        exact absurd hmeet (h.abuts.comments hq)
      | none =>
        rw [List.cons_append] at hcomment' ⊢
        rw [transition_continuation_of_other hblank hquote hcomment', ← List.cons_append]
        exact ih (left_none_lt _ [] _)
          { h with proper := trivial, reads := hread.symm.trans h.reads, fresh := fun _ => hfresh }

/-! ### Readings in two pieces -/

theorem Cut.resumed (h : Cut s q a y x b) : Resumed q a b (lexer.transition s (x ++ b)) := by
  -- The induction is on what is left to read, over all that may have been read before.
  induction hn : left s x using Nat.strongRecOn generalizing s y x with
  | ind n hind =>
    subst hn
    have ih : GoesOnBelow (left s x) q a b := fun hlt h => hind _ hlt h rfl
    cases s with
    | none => exact h.resumed_none ih
    | some s =>
      cases s with
      | lineComment => exact h.resumed_lineComment ih
      | blockComment depth => exact h.resumed_blockComment ih
      | quoted k => exact h.resumed_quoted ih
      | dollar tag => exact h.resumed_dollar ih
      | continuation => exact h.resumed_continuation ih

/-- If no quote and no comment comes about where two pieces meet, the reading goes on in the
second piece, at most behind an opener or a word. -/
theorem resumed_append (hs : Proper s) (h : lexer.transition s a = .ok q) (habuts : Abuts q a b) :
    Resumed q a b (lexer.transition s (a ++ b)) := by
  have hfresh : Fresh [] a := by
    intro hinside
    contradiction
  have hcut : Cut s q a [] a b := ⟨rfl, hs, h, fun _ => hfresh, habuts⟩
  exact hcut.resumed

/-- What a first piece leaves open, the second one goes on from. -/
theorem transition_append (hs : Proper s) (h : lexer.transition s a = .ok q)
    (hjoins : Joins q a b) :
    Agree (lexer.transition s (a ++ b)) (lexer.transition q b) := by
  obtain ⟨s', u, hresumes, hagree⟩ := resumed_append hs h hjoins.abuts
  obtain ⟨rfl, rfl⟩ := hresumes.eq_of_joins hjoins
  exact hagree

theorem transition_append_eq_ok {r : Option State} (hs : Proper s)
    (ha : lexer.transition s a = .ok q) (hb : lexer.transition q b = .ok r)
    (hjoins : Joins q a b) : lexer.transition s (a ++ b) = .ok r := by
  have h := transition_append hs ha hjoins
  rw [hb] at h
  exact h.eq_ok

end SqlWeave.Postgres
