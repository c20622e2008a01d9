/-
SqlWeave/Proofs/MySQL/Inert.lean

What MySQL passes by before a quote: ordinary characters, and comments that end in the text.
Whether a dash or a slash is ordinary hangs on what comes behind it.

The search for the next quote is a scan of such pieces.  It cannot go on at the end of the text, at
a quote, and where a comment opens that does not end, so a search that comes upon neither the end
nor a quote has come upon such a comment.

Main results: where the search comes upon a comment without an end (`seek_eq_unclosed_iff`).
-/
import Mathlib.Data.List.Induction
import SqlWeave.Proofs.Lexer.Stops
import SqlWeave.Proofs.MySQL.Comment

namespace SqlWeave.MySQL

open Text

variable {k : Comment} {body text rest : Text} {c : Char}

/-! ### The end of a comment -/

/-- Whether a comment ends with `rest` left of the text behind its opener: the first character that
it does not run on over is the last one in front of `rest`. -/
def Ends (k : Comment) (text rest : Text) : Prop :=
  ∃ front c, text = front ++ c :: rest ∧ RunsOn k front ∧ ¬RunsOn k (front ++ [c])

theorem runsOn_nil (k : Comment) : RunsOn k [] := by
  cases k with
  | block => exact fun h => by simpa using List.infix_nil.1 h
  | dashes | hash => exact nofun

theorem RunsOn.of_append {a b : Text} (h : RunsOn k (a ++ b)) : RunsOn k a := by
  cases k with
  | block => exact fun ha => h (ha.trans (List.prefix_append a b).isInfix)
  | dashes | hash => exact fun d hd => h d (List.mem_append_left b hd)

theorem runsOn_or_ends (k : Comment) (text : Text) : RunsOn k text ∨ ∃ rest, Ends k text rest := by
  induction text using List.reverseRecOn with
  | nil => exact .inl (runsOn_nil k)
  | append_singleton text c ih =>
    rcases ih with hruns | ⟨rest, front, d, rfl, hfront, hends⟩
    · by_cases hc : RunsOn k (text ++ [c])
      · exact .inl hc
      · exact .inr ⟨[], text, c, rfl, hruns, hc⟩
    · exact .inr ⟨rest ++ [c], front, d, by simp, hfront, hends⟩

theorem Ends.length_lt (h : Ends k text rest) : rest.length < text.length := by
  obtain ⟨front, c, rfl, -, -⟩ := h
  simp only [List.length_append, List.length_cons]
  omega

/-- A comment ends at one place. -/
theorem Ends.rightUnique : Relator.RightUnique (Ends k) := by
  rintro text rest rest' ⟨front, c, rfl, hfront, hends⟩ ⟨front', c', htext, hfront', hends'⟩
  -- Of two fronts one is the beginning of the other, and it ends the comment if it is shorter.
  rcases List.append_eq_append_iff.1 htext with ⟨more, rfl, hmore⟩ | ⟨more, rfl, hmore⟩
  · rcases more with - | ⟨d, more⟩
    · exact (List.cons.inj hmore).2
    · obtain ⟨rfl, -⟩ := List.cons.inj hmore
      rw [List.append_cons] at hfront'
      exact absurd hfront'.of_append hends
  · rcases more with - | ⟨d, more⟩
    · exact (List.cons.inj hmore).2.symm
    · obtain ⟨rfl, -⟩ := List.cons.inj hmore
      rw [List.append_cons] at hfront
      exact absurd hfront.of_append hends'

theorem runsOn_line_cons_iff (hk : k ≠ .block) :
    RunsOn k (c :: text) ↔ ¬isLineBreak c ∧ RunsOn k text := by
  cases k with
  | block => exact absurd rfl hk
  | dashes | hash => simp only [RunsOn, List.forall_mem_cons, Bool.not_eq_true]

theorem runsOn_block_cons_iff :
    RunsOn .block (c :: text) ↔ ¬(c = '*' ∧ text.head? = some '/') ∧ RunsOn .block text := by
  have hprefix : ['*', '/'] <+: c :: text ↔ c = '*' ∧ text.head? = some '/' := by
    rcases text with - | ⟨d, text⟩ <;> simp [List.cons_prefix_cons, eq_comm]
  simp only [RunsOn, List.infix_cons_iff, hprefix, not_or]

theorem seek_inside_of_ends (h : Ends k text rest) :
    seek (.inside k body) text = seek .code rest := by
  obtain ⟨front, c, rfl, hfront, hends⟩ := h
  induction front with
  | nil =>
    cases k with
    | block =>
      -- The end of a block comment takes two characters.
      exact absurd (runsOn_block_cons_iff.2 ⟨by simp, runsOn_nil _⟩) hends
    | dashes | hash =>
      have hc : isLineBreak c := by
        by_contra hc
        exact hends ((runsOn_line_cons_iff (by simp)).2 ⟨hc, runsOn_nil _⟩)
      exact seek_line_end (by simp) hc
  | cons d front ih =>
    cases k with
    | block =>
      obtain ⟨hd, hfront⟩ := runsOn_block_cons_iff.1 hfront
      by_cases hclose : d = '*' ∧ (front ++ [c]).head? = some '/'
      · obtain ⟨rfl, hhead⟩ := hclose
        rcases front with - | ⟨e, front⟩
        · obtain rfl : c = '/' := by simpa using hhead
          exact seek_block_end
        · exact absurd ⟨rfl, hhead⟩ hd
      · have hother : ¬(d = '*' ∧ (front ++ c :: rest).head? = some '/') := by
          have hhead : (front ++ c :: rest).head? = (front ++ [c]).head? := by cases front <;> rfl
          rwa [hhead]
        rw [List.cons_append, seek_block_other hother]
        exact ih hfront fun hruns => hends (runsOn_block_cons_iff.2 ⟨hclose, hruns⟩)
    | dashes | hash =>
      obtain ⟨hd, hfront⟩ := (runsOn_line_cons_iff (by simp)).1 hfront
      rw [List.cons_append, seek_line_other (by simp) hd]
      exact ih hfront fun hruns => hends ((runsOn_line_cons_iff (by simp)).2 ⟨hd, hruns⟩)

/-! ### Pieces -/

/-- Whether a character in front of a text is no quote and begins no comment. -/
def IsOrdinary (c : Char) (text : Text) : Prop :=
  Quote.ofChar? c = none ∧ ∀ k body, c :: text = k.opener ++ body → ¬Opens k body

/-- One piece of what is passed by before a quote. -/
inductive TakesInert : Text → Text → Prop
  | ordinary {c : Char} {t : Text} (hc : IsOrdinary c t) : TakesInert (c :: t) t
  | comment {k : Comment} {body rest : Text} (hopens : Opens k body) (hends : Ends k body rest) :
      TakesInert (k.opener ++ body) rest

theorem TakesInert.length_lt (h : TakesInert text rest) : rest.length < text.length := by
  cases h with
  | ordinary hc => simp
  | comment hopens hends =>
    rw [List.length_append]
    exact Nat.lt_add_left _ hends.length_lt

theorem opener_append_inj {k k' : Comment} {a b : Text}
    (h : k.opener ++ a = k'.opener ++ b) : k = k' ∧ a = b := by
  cases k <;> cases k' <;> simp_all [Comment.opener]

theorem TakesInert.rightUnique : Relator.RightUnique TakesInert := by
  intro t u v hu hv
  generalize htext : t = text at hv
  cases hu with
  | ordinary hc =>
    cases hv with
    | ordinary => exact (List.cons.inj htext).2
    | comment hopens => exact absurd hopens (hc.2 _ _ htext)
  | comment hopens hends =>
    cases hv with
    | ordinary hc => exact absurd hopens (hc.2 _ _ htext.symm)
    | comment _ hends' =>
      obtain ⟨rfl, rfl⟩ := opener_append_inj htext
      exact hends.rightUnique hends'

/-! ### The search -/

theorem seek_of_isOrdinary (h : IsOrdinary c text) : seek .code (c :: text) = seek .code text := by
  obtain ⟨hquote, hcomment⟩ := h
  have hdash : ¬(c = '-' ∧ opensDashes text) := by
    rintro ⟨rfl, hdashes⟩
    unfold opensDashes at hdashes
    split at hdashes
    · rename_i d t
      exact hcomment .dashes (d :: t) rfl ⟨d, rfl, hdashes⟩
    · contradiction
  have hhash : c ≠ '#' := by
    rintro rfl
    exact hcomment .hash text rfl trivial
  by_cases hslash : c = '/'
  · subst hslash
    refine seek_slash fun hhead => ?_
    obtain ⟨t, rfl⟩ := List.head?_eq_some_iff.1 hhead
    exact hcomment .block t rfl trivial
  · exact seek_other hdash hhash hslash hquote

theorem seek_of_ends (hopens : Opens k body) (hends : Ends k body rest) :
    seek .code (k.opener ++ body) = seek .code rest := by
  cases k with
  | dashes =>
    obtain ⟨c, hhead, hblank⟩ := hopens
    obtain ⟨body, rfl⟩ := List.head?_eq_some_iff.1 hhead
    obtain ⟨front, d, hbody, hfront, hlast⟩ := hends
    have hrest : opensDashes ('-' :: c :: body) := by rwa [opensDashes_dash]
    -- The search has read one of the two dashes when it is inside of the comment.
    have hdashes : Ends .dashes ('-' :: c :: body) rest := by
      refine ⟨'-' :: front, d, by rw [hbody, List.cons_append], ?_, ?_⟩
      · exact (runsOn_line_cons_iff (by simp)).2 ⟨by decide, hfront⟩
      · exact fun hruns => hlast ((runsOn_line_cons_iff (by simp)).1 hruns).2
    exact (seek_dash hrest).trans (seek_inside_of_ends hdashes)
  | hash => exact seek_hash.trans (seek_inside_of_ends hends)
  | block => exact seek_block.trans (seek_inside_of_ends hends)

/-- A piece is not what the search is for. -/
theorem TakesInert.seek_eq (h : TakesInert text rest) : seek .code text = seek .code rest := by
  cases h with
  | ordinary hc => exact seek_of_isOrdinary hc
  | comment hopens hends => exact seek_of_ends hopens hends

/-- The search stops at the end, at a quote, or at a comment that does not end. -/
theorem stop_of_forall_not_takesInert (h : ∀ t, ¬TakesInert text t) :
    text = [] ∨ (∃ c t q, text = c :: t ∧ Quote.ofChar? c = some q) ∨
      ∃ k body, text = k.opener ++ body ∧ Opens k body ∧ RunsOn k body := by
  rcases text with - | ⟨c, t⟩
  · exact .inl rfl
  cases hquote : Quote.ofChar? c with
  | some q => exact .inr (.inl ⟨c, t, q, rfl, hquote⟩)
  | none =>
    by_cases hcomment : ∃ k body, c :: t = k.opener ++ body ∧ Opens k body
    · obtain ⟨k, body, htext, hopens⟩ := hcomment
      rcases runsOn_or_ends k body with hruns | ⟨rest, hends⟩
      · exact .inr (.inr ⟨k, body, htext, hopens, hruns⟩)
      · exact absurd (htext ▸ .comment hopens hends) (h rest)
    · exact absurd (.ordinary ⟨hquote, fun k body htext hopens => hcomment ⟨k, body, htext, hopens⟩⟩)
        (h t)

/-- The search comes upon a comment without an end exactly if such a comment is what stops it. -/
theorem seek_eq_unclosed_iff :
    seek .code text = .unclosed k body ↔
      StopsAt TakesInert text (k.opener ++ body) ∧ Opens k body ∧ RunsOn k body := by
  constructor
  · intro hseek
    obtain ⟨rest, hreach, hlast⟩ := exists_stopsAt (fun _ _ => TakesInert.length_lt) text
    rw [eq_of_reaches hreach fun _ _ => TakesInert.seek_eq] at hseek
    rcases stop_of_forall_not_takesInert hlast with
      rfl | ⟨c, t, q, rfl, hquote⟩ | ⟨k', body', rfl, hopens, hruns⟩
    · simp [seek] at hseek
    · simp [seek_quote hquote] at hseek
    · rw [seek_opener_of_runsOn hopens hruns, Found.unclosed.injEq] at hseek
      obtain ⟨rfl, rfl⟩ := hseek
      exact ⟨⟨hreach, hlast⟩, hopens, hruns⟩
  · rintro ⟨⟨hreach, -⟩, hopens, hruns⟩
    rw [eq_of_reaches hreach fun _ _ => TakesInert.seek_eq, seek_opener_of_runsOn hopens hruns]

end SqlWeave.MySQL
