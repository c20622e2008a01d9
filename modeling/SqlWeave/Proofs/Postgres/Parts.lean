/-
SqlWeave/Proofs/Postgres/Parts.lean

A text taken apart as the lexer goes through it: an opener, a word, a comment, or all that
stands between quotes up to the closing one.  Each part is read for itself, whatever comes next
in the text.

Main results: the rules for the parts (`leads_opened`, `leads_word`, `leads_quoted`, ...), one for
each kind of construct that a text can begin in.
-/
import SqlWeave.Proofs.Postgres.Continuation
import SqlWeave.Proofs.Postgres.Cut

namespace SqlWeave.Postgres

open Text

variable {s s' : Option State} {t u rest : Text}

/-! ### What is read for itself -/

/-- Whether a first part of a text is read for itself, so that `s'` is open after it whatever
comes next of the rest. -/
structure Leads (s s' : Option State) (u rest : Text) : Prop where
  read : ∀ x, x <+: rest → lexer.transition s (u ++ x) = lexer.transition s' x
  last : s' = none → rest.head? = some '-' → u.getLast? ≠ some '-'

/-! ### At top level -/

theorem leads_opened {s : State} (hs : s.IsOpened) (rest : Text) :
    Leads none (some s) s.opener rest where
  read x _ := transition_none_of_opened (opened?_opener hs x)
  last := nofun

/-- A beginning of a text that opens nothing opens nothing. -/
theorem opened?_prefix_eq_none (h : opened? t = none) (hu : u <+: t) : opened? u = none := by
  obtain ⟨more, rfl⟩ := hu
  rw [Option.eq_none_iff_forall_ne_some]
  rintro ⟨s, rest⟩ hopened
  rw [opened?_append hopened] at h
  contradiction

theorem leads_other {d : Char} (hopened : opened? (d :: rest) = none) (hw : ¬isWordStart d) :
    Leads none none [d] rest where
  read x hx := transition_none_of_other
    (opened?_prefix_eq_none hopened (List.cons_prefix_cons.2 ⟨rfl, hx⟩)) hw
  last _ hhead hlast := by
    obtain rfl : d = '-' := by simpa using hlast
    obtain ⟨rest, rfl⟩ := List.head?_eq_some_iff.1 hhead
    have hdashes : opened? ('-' :: '-' :: rest) = some (.lineComment, rest) :=
      opened?_opener (s := .lineComment) trivial rest
    rw [hdashes] at hopened
    contradiction

theorem leads_word {d : Char} (hopened : opened? (d :: t) = none) (hw : isWordStart d) :
    Leads none none (d :: t.takeWhile isWordPart) (t.dropWhile isWordPart) where
  read x hx := by
    have hall : ∀ e ∈ t.takeWhile isWordPart, isWordPart e := List.all_eq_true.1 List.all_takeWhile
    have hprefix : d :: (t.takeWhile isWordPart ++ x) <+: d :: t := by
      obtain ⟨more, hmore⟩ := hx
      refine ⟨more, ?_⟩
      rw [List.cons_append, List.append_assoc, hmore, List.takeWhile_append_dropWhile]
    -- The word ends where it ended in the whole text.
    have hend : x.dropWhile isWordPart = x := by
      apply dropWhile_of_head?
      intro e he
      obtain ⟨more, hmore⟩ := hx
      have hhead := List.head?_dropWhile_not isWordPart t
      rw [← hmore, List.head?_append, he] at hhead
      exact hhead
    rw [List.cons_append, transition_none_of_word (opened?_prefix_eq_none hopened hprefix) hw,
      List.dropWhile_append_of_pos hall, hend]
  last _ _ hlast := by
    have hall : ∀ e ∈ d :: t.takeWhile isWordPart, isWordPart e :=
      List.forall_mem_cons.2 ⟨isWordPart_of_isWordStart hw, List.all_eq_true.1 List.all_takeWhile⟩
    exact absurd (hall '-' (List.mem_of_getLast? hlast)) (by decide)

/-! ### Inside comments, quotes and dollar tags -/

theorem isBlank_of_isLineBreak {d : Char} (hd : isLineBreak d) : isBlank d := by
  simp only [isLineBreak, Bool.or_eq_true, decide_eq_true_eq] at hd
  rcases hd with rfl | rfl <;> decide

theorem leads_line {body : Text} {d : Char} (hbody : ∀ e ∈ body, isLineBreak e = false)
    (hd : isLineBreak d) (rest : Text) : Leads (some .lineComment) none (body ++ [d]) rest where
  read x _ := by
    have hidle := isIdle_of_isSeparator (isSeparator_of_isBlank (isBlank_of_isLineBreak hd))
    rw [List.append_assoc, List.singleton_append,
      transition_lineComment (afterLine?_of_break hbody hd), transition_none_of_idle hidle]
  last _ _ hlast := by
    obtain rfl : d = '-' := by simpa using hlast
    contradiction

theorem leads_block {depth : Nat} (hdepth : depth ≠ 0) (h : afterBlock? depth u = some [])
    (rest : Text) : Leads (some (.blockComment depth)) none u rest where
  read x _ := by
    obtain ⟨front, rfl⟩ := afterBlock?_eq hdepth h
    exact transition_blockComment (by simp) (afterBlock?_append h)
  last _ _ hlast := by
    obtain ⟨front, rfl⟩ := afterBlock?_eq hdepth h
    simp at hlast

theorem leads_quoted {q : Quote} (h : readBody q.mark q.escapes u = .closed [])
    (hrest : rest.head? ≠ some q.mark) : Leads (some (.quoted q)) q.after u rest where
  read x hx := by
    have hhead : x.head? ≠ some q.mark := by
      cases x with
      | nil => simp
      | cons d x =>
        obtain ⟨more, rfl⟩ := hx
        exact hrest
    exact transition_quoted_of_closed (readBody_append_of_closed h fun _ => hhead)
  last _ _ hlast := by
    obtain ⟨front, rfl⟩ := readBody_closed_eq h
    have hmark : q.mark = '-' := by simpa using hlast
    rcases q.mark_eq with hq | hq <;> rw [hq] at hmark <;> contradiction

theorem leads_dollar {tag : Text} (htag : isTag tag) (h : afterFirst? tag u = some [])
    (rest : Text) : Leads (some (.dollar tag)) none u rest where
  read x _ := by
    have hne := ne_nil_of_afterFirst?_tag htag h
    exact transition_dollar_of_closed (by simp [hne]) (afterFirst?_append_of_some h)
  last _ _ hlast := by
    obtain ⟨name, -, -, rfl⟩ := isTag_iff.1 htag
    obtain ⟨front, rfl⟩ := append_of_afterFirst? h
    rw [List.append_nil, ← List.cons_append, ← List.append_assoc, List.getLast?_concat] at hlast
    contradiction

/-! ### After an escape string -/

theorem leads_blank {d : Char} (hd : isBlank d) (rest : Text) :
    Leads (some .continuation) (some .continuation) [d] rest where
  read x _ := transition_continuation_blank hd x
  last := nofun

theorem leads_apostrophe (rest : Text) :
    Leads (some .continuation) (some (.quoted (.escape false))) [apostrophe] rest where
  read x _ := transition_continuation_apostrophe x
  last := nofun

/-- A comment behind a string with escapes, with the line break that may end it. -/
theorem exists_leads_comment {k : Comment} {body : Text}
    (hopened : commentOpened? t = some (k, body)) (hafter : afterComment? k body = some rest) :
    ∃ u rest', t = u ++ rest' ∧ u ≠ [] ∧
      Leads (some .continuation) (some .continuation) u rest' := by
  rcases commentOpened?_eq_some_iff.1 hopened with ⟨rfl, rfl⟩ | ⟨rfl, rfl⟩
  · obtain ⟨front, d, t, rfl, rfl, hd, hfront⟩ := afterLine?_eq hafter
    refine ⟨'-' :: '-' :: (front ++ [d]), t, by simp, by simp, fun x _ => ?_, nofun⟩
    have hafter : afterComment? .dashes (front ++ d :: x) = some (d :: x) :=
      afterLine?_of_break hfront hd
    have hopened : commentOpened? ('-' :: '-' :: (front ++ [d]) ++ x) =
        some (.dashes, front ++ d :: x) := by
      rw [List.cons_append, List.cons_append, List.append_assoc]
      rfl
    rw [transition_continuation_of_comment hopened hafter,
      transition_continuation_blank (isBlank_of_isLineBreak hd)]
  · obtain ⟨u, rfl, hu⟩ := exists_of_afterBlock? hafter
    refine ⟨'/' :: '*' :: u, rest, rfl, by simp, fun x _ => ?_, nofun⟩
    have hafter : afterComment? .block (u ++ x) = some x := afterBlock?_append hu
    have hopened : commentOpened? ('/' :: '*' :: u ++ x) = some (.block, u ++ x) := rfl
    rw [transition_continuation_of_comment hopened hafter]

end SqlWeave.Postgres
