/-
SqlWeave/Proofs/MySQL/Comment.lean

Comments of MySQL that do not end.  The lexer looks for the end of a comment as it comes upon
the opener, so none is ever left open.

Main results: a comment that runs on to the end of a text is refused, wherever it opens
(`exists_transition_eq_error`).
-/
import SqlWeave.Proofs.MySQL.Cut

namespace SqlWeave.MySQL

open Text

variable {k : Comment} {body t : Text}

/-- Whether the text behind an opener makes it one.  Two dashes need a blank. -/
def Opens : Comment → Text → Prop
  | .dashes, body => ∃ c, body.head? = some c ∧ isBlank c
  | _, _ => True

/-- Whether a comment with the given text behind its opener does not end in it. -/
def RunsOn : Comment → Text → Prop
  | .block, body => ¬['*', '/'] <:+: body
  | _, body => ∀ c ∈ body, isLineBreak c = false

theorem RunsOn.tail {c : Char} (h : RunsOn k (c :: t)) : RunsOn k t := by
  cases k with
  | block => exact fun ht => h (ht.trans (List.suffix_cons c t).isInfix)
  | dashes | hash => exact fun d hd => h d (List.mem_cons_of_mem c hd)

theorem seek_inside_of_runsOn (h : RunsOn k t) : seek (.inside k body) t = .unclosed k body := by
  induction t with
  | nil => cases k <;> rw [seek.eq_def]
  | cons c t ih =>
    cases k with
    | block =>
      have hc : ¬(c = '*' ∧ t.head? = some '/') := by
        rintro ⟨rfl, ht⟩
        obtain ⟨t, rfl⟩ := List.head?_eq_some_iff.1 ht
        exact h (List.prefix_append ['*', '/'] t).isInfix
      rw [seek_block_other hc, ih h.tail]
    | dashes | hash =>
      have hc : ¬isLineBreak c := by simp [h c (by simp)]
      rw [seek_line_other (by simp) hc, ih h.tail]

theorem seek_opener_of_runsOn (hopens : Opens k body) (h : RunsOn k body) :
    seek .code (k.opener ++ body) = .unclosed k body := by
  cases k with
  | dashes =>
    obtain ⟨c, hc, hblank⟩ := hopens
    obtain ⟨body, rfl⟩ := List.head?_eq_some_iff.1 hc
    have hrest : opensDashes ('-' :: c :: body) := by rwa [opensDashes_dash]
    have hdash : RunsOn .dashes ('-' :: c :: body) := List.forall_mem_cons.2 ⟨rfl, h⟩
    exact (seek_dash hrest).trans (seek_inside_of_runsOn hdash)
  | hash => exact seek_hash.trans (seek_inside_of_runsOn h)
  | block => exact seek_block.trans (seek_inside_of_runsOn h)

/-- The opener of a comment stays apart from whatever comes before it. -/
theorem apart_opener (front : Text) (k : Comment) (body : Text) :
    Apart front (k.opener ++ body) := by
  have hdashes : opensDashes (k.opener ++ body) = false := by cases k <;> rfl
  obtain ⟨d, hhead, hd⟩ : ∃ d, (k.opener ++ body).head? = some d ∧
      isBlank d = false ∧ d ≠ '*' ∧ Template.isQuote d = false := by
    cases k with
    | dashes => exact ⟨'-', rfl, by decide⟩
    | hash => exact ⟨'#', rfl, by decide⟩
    | block => exact ⟨'/', rfl, by decide⟩
  obtain ⟨hblank, hstar, hquote⟩ := hd
  refine ⟨fun _ => ⟨?_, hdashes⟩, fun _ => ?_, fun c hc _ => ?_⟩
  · simpa [hhead] using hblank
  · simpa [hhead] using hstar
  · rw [hhead, Ne, Option.some.injEq]
    rintro rfl
    rw [hc] at hquote
    contradiction

theorem exists_transition_eq_error {s : Option Quote} {front : Text}
    (hfront : lexer.transition s front = .ok none) (hopens : Opens k body) (h : RunsOn k body) :
    ∃ e, lexer.transition s (front ++ (k.opener ++ body)) = .error e ∧
      e.category = .unterminated := by
  have hread := transition_none_of_unclosed (seek_opener_of_runsOn hopens h)
  have hagree := transition_append hfront fun _ => apart_opener front k body
  exact hagree.exists_eq_error hread rfl

end SqlWeave.MySQL
