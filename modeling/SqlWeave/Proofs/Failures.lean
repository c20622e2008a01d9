/-
SqlWeave/Proofs/Failures.lean

What the failures of a step say about the text.  A step inside quotes fails for one reason: the
text ends in a backslash that the body does not pair with anything.  A step of MySQL at top level
fails for one reason, too: it has passed by nothing but ordinary characters and closed comments,
and the next thing is a comment that does not end.

The steps themselves see only where the scan has stopped, so the reason is what is left when all
other places to stop are excluded.

Main results: `failures_exact`, for the quotes of either family and for the top level of MySQL.
-/
import Mathlib
import SqlWeave.Proofs.MySQL.Inert
import SqlWeave.Proofs.MySQL.Literal
import SqlWeave.Proofs.Postgres.Cut
import SqlWeave.Report

namespace SqlWeave

open Text

variable {text : Text} {e : Failure}

/-! ### Steps inside quotes -/

theorem MySQL.advance_quoted_eq_error_iff {q : Quote} :
    advance (some q) text = .error e ↔
      e = .halfEscape [q.mark] text ∧ StopsAt (TakesInBody q.mark true) text [backslash] := by
  rw [← readBody_eq_halfEscape_iff q.mark_ne_backslash]
  cases hread : readBody q.mark true text <;> simp [advance, hread, eq_comm]

theorem Postgres.Quote.mark_ne_backslash (q : Quote) : q.mark ≠ backslash := by
  rcases q.mark_eq with hq | hq <;> rw [hq] <;> decide

theorem Postgres.advance_quoted_eq_error_iff {q : Quote} :
    advance (some (.quoted q)) text = .error e ↔
      e = .halfEscape q.opener text ∧
        StopsAt (TakesInBody q.mark q.escapes) text [backslash] := by
  rw [← readBody_eq_halfEscape_iff q.mark_ne_backslash]
  cases hread : readBody q.mark q.escapes text <;> simp [advance, hread, eq_comm]

theorem Postgres.exists_advance_quoted_eq_ok {q : Quote} (hq : q.escapes = false) (text : Text) :
    ∃ r, advance (some (.quoted q)) text = .ok r := by
  cases hread : readBody q.mark q.escapes text with
  | inside | closed => simp [advance, hread]
  | halfEscape =>
    rw [hq] at hread
    exact absurd hread (readBody_ne_halfEscape text)

/-! ### Steps at top level -/

theorem MySQL.advance_none_eq_error_iff :
    advance none text = .error e ↔
      ∃ k body, e = .unclosedComment k body ∧ StopsAt TakesInert text (k.opener ++ body) ∧
        Opens k body ∧ RunsOn k body := by
  simp only [← seek_eq_unclosed_iff]
  cases hseek : seek .code text <;> simp [advance, hseek, eq_comm]

/-! ### The reasons -/

/-- Inside quotes a step fails exactly if the scan of the body goes through to a backslash that
ends the text; without escapes it never does.  At the top level of MySQL it fails exactly if what
comes first after ordinary characters and closed comments is a comment that does not end, and the
report names the opener of it. -/
theorem failures_exact :
    (∀ (q : MySQL.Quote) text e, MySQL.lexer.advance (some q) text = .error e ↔
      e = .halfEscape [q.mark] text ∧ StopsAt (TakesInBody q.mark true) text [backslash]) ∧
    (∀ (q : Postgres.Quote) text e, Postgres.lexer.advance (some (.quoted q)) text = .error e ↔
      e = .halfEscape q.opener text ∧
        StopsAt (TakesInBody q.mark q.escapes) text [backslash]) ∧
    (∀ upper, ∀ q ∈ [Postgres.Quote.string, .bits upper, .hex upper, .name], ∀ text,
      ∃ r, Postgres.lexer.advance (some (.quoted q)) text = .ok r) ∧
    (∀ text e, MySQL.lexer.advance none text = .error e ↔
      ∃ k body, e = .unclosedComment k body ∧ StopsAt MySQL.TakesInert text (k.opener ++ body) ∧
        MySQL.Opens k body ∧ MySQL.RunsOn k body) ∧
    (∀ opener scanned, (Failure.halfEscape opener scanned).report.category = .lexical ∧
      "Incomplete escape sequence".toList <+: (Failure.halfEscape opener scanned).message) ∧
    (∀ k body, (Failure.unclosedComment k body).report.category = .unterminated ∧
      (Failure.unclosedComment k body).report.details =
        [("delimiter".toList, .ofText k.opener)]) ∧
    (∀ mark escapes text, ∃! rest, StopsAt (TakesInBody mark escapes) text rest) ∧
    (∀ text, ∃! rest, StopsAt MySQL.TakesInert text rest) := by
  refine ⟨fun q text e => MySQL.advance_quoted_eq_error_iff,
    fun q text e => Postgres.advance_quoted_eq_error_iff, ?_,
    fun text e => MySQL.advance_none_eq_error_iff, ?_, fun k body => ⟨rfl, rfl⟩, ?_, ?_⟩
  · intro upper q hq text
    have hescapes : q.escapes = false := by
      simp only [List.mem_cons, List.not_mem_nil, or_false] at hq
      rcases hq with rfl | rfl | rfl | rfl <;> rfl
    exact Postgres.exists_advance_quoted_eq_ok hescapes text
  · intro opener scanned
    refine ⟨rfl, ?_⟩
    have hbegins : "Incomplete escape sequence".toList <+:
        "Incomplete escape sequence in ".toList := by decide
    simp only [Failure.message, Failure.report, Report.coded, List.append_assoc]
    exact hbegins.trans (List.prefix_append _ _)
  · intro mark escapes text
    exact existsUnique_stopsAt (fun _ _ => TakesInBody.length_lt) TakesInBody.rightUnique text
  · intro text
    exact existsUnique_stopsAt (fun _ _ => MySQL.TakesInert.length_lt) MySQL.TakesInert.rightUnique
      text

/-- A backslash behind a pair of quotes and an escaped quote, and one behind a quote that closes;
a comment without an end behind dashes that open none and comments that end. -/
theorem failures_exact_at_end :
    let body := "it''s \\' \\".toList
    let closed := "its' \\".toList
    let code := "1 --- /*/ a */ #\n--\n/*/ b".toList
    StopsAt (TakesInBody apostrophe true) body [backslash] ∧
      ¬StopsAt (TakesInBody apostrophe true) closed [backslash] ∧
      Postgres.Quote.hex true ∈ [Postgres.Quote.string, .bits true, .hex true, .name] ∧
      (∃ r, Postgres.lexer.advance (some (.quoted (.hex true))) body = .ok r) ∧
      MySQL.lexer.advance none code = .error (.unclosedComment .block "/ b".toList) ∧
      StopsAt MySQL.TakesInert code (Comment.block.opener ++ "/ b".toList) := by
  obtain ⟨hmysql, hpostgres, hplain, htop, -⟩ := failures_exact
  have hbody : MySQL.lexer.advance (some .single) "it''s \\' \\".toList =
      .error (.halfEscape [apostrophe] "it''s \\' \\".toList) := by cbv
  have hclosed : Postgres.lexer.advance (some (.quoted (.escape true))) "its' \\".toList =
      .ok (some .continuation, " \\".toList) := by cbv
  have hcode : MySQL.lexer.advance none "1 --- /*/ a */ #\n--\n/*/ b".toList =
      .error (.unclosedComment .block "/ b".toList) := by cbv
  have hhex : Postgres.Quote.hex true ∈ [Postgres.Quote.string, .bits true, .hex true, .name] := by
    simp
  refine ⟨((hmysql _ _ _).1 hbody).2, fun hstops => ?_, hhex, hplain true _ hhex _, hcode, ?_⟩
  · have herror := (hpostgres (.escape true) _ _).2 ⟨rfl, hstops⟩
    rw [hclosed] at herror
    cases herror
  · obtain ⟨k, rest, he, hstops, -⟩ := (htop _ _).1 hcode
    obtain ⟨hk, hrest⟩ := Failure.unclosedComment.inj he
    rw [hk, hrest]
    exact hstops

end SqlWeave
