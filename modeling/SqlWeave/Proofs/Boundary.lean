/-
SqlWeave/Proofs/Boundary.lean

Where the boundaries between chunks show.  At top level they may: an opener that is cut in two
opens nothing, and two strings that meet are one string.  Inside a string, a name or a dollar
quote they do not, because a chunk that leaves one of these open has read its text to the end:
a backslash without its character and the beginning of a closing tag are refused there.

Main results: a boundary inside of a delimited construct does not show, in both families
(`transition_append_of_isDelimited`), and neither do any number of them
(`transition_flatten_of_cutsInside`).
-/
import Mathlib
import SqlWeave.Dialect
import SqlWeave.Proofs.MySQL.Cut
import SqlWeave.Proofs.Postgres.OpenComment

namespace SqlWeave

/-! ### What can be open -/

/-- Whether a lexer can have `s` open: some chunks leave a scan there. -/
def Lexer.Reaches {σ : Type} (L : Lexer σ) (s : Option σ) : Prop :=
  ∃ fed, (Scan.feeds L {} fed).state = s

namespace Family

variable {f : Family} {s q : Option f.Open} {a b : Text}

/-- Whether a construct is a string, a name or a dollar quote. -/
def isDelimited : {f : Family} → f.Open → Bool
  | mysql, _ => true
  | postgres, .quoted _ => true
  | postgres, .dollar _ => true
  | postgres, _ => false

/-- What can be open in a reading. -/
def Proper : {f : Family} → Option f.Open → Prop
  | mysql, _ => True
  | postgres, s => Postgres.Proper s

theorem proper_of_reaches (hs : f.grammar.lexer.Reaches s) : Proper s := by
  obtain ⟨fed, rfl⟩ := hs
  cases f with
  | mysql => trivial
  | postgres => exact Postgres.proper_feeds fed

theorem proper_of_transition (hs : Proper s) (h : f.grammar.lexer.transition s a = .ok q) :
    Proper q := by
  cases f with
  | mysql => trivial
  | postgres => exact Postgres.proper_of_transition hs h

/-! ### One boundary -/

/-- The second piece goes on from where the first one leaves off. -/
theorem agree_of_isDelimited {q : f.Open} (hs : Proper s) (hq : isDelimited q)
    (h : f.grammar.lexer.transition s a = .ok (some q)) (b : Text) :
    Agree (f.grammar.lexer.transition s (a ++ b)) (f.grammar.lexer.transition (some q) b) := by
  cases f with
  | mysql => exact MySQL.transition_append h nofun
  | postgres =>
    have htop : ¬Postgres.AtTop (some q) := by
      rintro (hnone | hcontinuation)
      · contradiction
      · cases hcontinuation
        contradiction
    exact Postgres.transition_append hs h (.of_not_atTop htop a b)

/-- From whatever a lexer can have open, a boundary inside of a delimited construct does not
show. -/
theorem transition_append_of_isDelimited (f : Family) {s : Option f.Open} {q : f.Open} {a : Text}
    (hs : f.grammar.lexer.Reaches s) (hq : isDelimited q)
    (h : f.grammar.lexer.transition s a = .ok (some q)) (b : Text) :
    Agree (f.grammar.lexer.transition s (a ++ b)) (f.grammar.lexer.transition (some q) b) :=
  agree_of_isDelimited (proper_of_reaches hs) hq h b

/-- A dollar quote with an apostrophe and a lone dollar in it, cut before its closing tag. -/
theorem transition_append_of_isDelimited_dollar :
    Postgres.lexer.Reaches (some .continuation) ∧
    isDelimited (f := postgres) (.dollar "$t$".toList) ∧
    Postgres.lexer.transition (some .continuation) ", $t$it's $ ".toList =
      .ok (some (.dollar "$t$".toList)) ∧
    Agree (Postgres.lexer.transition (some .continuation) (", $t$it's $ ".toList ++ "$t$ x".toList))
      (Postgres.lexer.transition (some (.dollar "$t$".toList)) "$t$ x".toList) := by
  have hs : Postgres.lexer.Reaches (some .continuation) :=
    ⟨[some "SELECT E'a".toList, some "b'".toList], by cbv⟩
  have h : Postgres.lexer.transition (some .continuation) ", $t$it's $ ".toList =
      .ok (some (.dollar "$t$".toList)) := by cbv
  exact ⟨hs, rfl, h, transition_append_of_isDelimited postgres hs rfl h _⟩

/-! ### Many boundaries -/

/-- Chunks, read one after the other from `s`, of which each but the last leaves a delimited
construct open. -/
inductive CutsInside : Option f.Open → List Text → Prop
  | last (s : Option f.Open) (t : Text) : CutsInside s [t]
  | cons {s : Option f.Open} {q : f.Open} {t : Text} {chunks : List Text}
      (h : f.grammar.lexer.transition s t = .ok (some q)) (hq : isDelimited q)
      (hchunks : CutsInside (some q) chunks) : CutsInside s (t :: chunks)

/-- Chunks that are cut inside of delimited constructs leave off where their whole text does. -/
theorem transition_flatten_of_cutsInside {chunks : List Text} (hs : Proper s)
    (h : CutsInside s chunks) :
    Agree (f.grammar.lexer.transition s chunks.flatten)
      (chunks.foldlM f.grammar.lexer.transition s) := by
  induction h with
  | last s t =>
    have hone : [t].foldlM f.grammar.lexer.transition s = f.grammar.lexer.transition s t := by
      simp [List.foldlM_cons]
    rw [hone, List.flatten_singleton]
    exact Agree.refl _
  | cons h hq hchunks ih =>
    rw [List.flatten_cons, List.foldlM_cons, h]
    exact (agree_of_isDelimited hs hq h _).trans (ih (proper_of_transition hs h))

end Family

end SqlWeave
