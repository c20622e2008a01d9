/-
SqlWeave/Proofs/Progress.lean

Why a reading ends.  The position in the text alone does not tell: a step may leave the construct
it is in and stay where it is, as behind a line comment or where a continuation is not taken up.
The step after such a step starts at top level, though, and goes on.

The steps that a step takes through a comment behind a string with escapes count as well.  The
opener of that comment has been read by then, which pays for them.

Main results: `reading_ends`, for both families, from any state at any position of a text.
-/
import Mathlib
import SqlWeave.Dialect
import SqlWeave.Proofs.MySQL.Cut
import SqlWeave.Proofs.Postgres.Rounds

namespace SqlWeave

open Text

variable {text rest : Text}

/-! ### What a step leaves -/

theorem MySQL.advance_suffix {s s' : Option Quote} (h : advance s text = .ok (s', rest)) :
    rest <:+ text := by
  cases s with
  | none =>
    simp only [advance] at h
    split at h
    · obtain ⟨-, rfl⟩ := Prod.mk.inj (Except.ok.inj h)
      exact List.nil_suffix
    · rename_i hseek
      obtain ⟨-, rfl⟩ := Prod.mk.inj (Except.ok.inj h)
      exact seek_opened_suffix hseek
    · contradiction
  | some q =>
    simp only [advance] at h
    split at h
    · obtain ⟨-, rfl⟩ := Prod.mk.inj (Except.ok.inj h)
      exact List.nil_suffix
    · rename_i hbody
      obtain ⟨-, rfl⟩ := Prod.mk.inj (Except.ok.inj h)
      obtain ⟨front, rfl, -⟩ := exists_of_readBody_closed hbody
      exact List.suffix_append ..
    · contradiction

namespace Family

variable {f : Family} {s s' : Option f.Open}

theorem advance_suffix (h : f.grammar.lexer.advance s text = .ok (s', rest)) : rest <:+ text := by
  cases f with
  | mysql => exact MySQL.advance_suffix h
  | postgres => exact Postgres.advance_suffix h

/-- How many steps a step takes in its turn. -/
def innerCalls : (f : Family) → Option f.Open → Text → Nat
  | mysql => fun _ _ => 0
  | postgres => Postgres.innerCalls

/-- The loop over the steps of a family. -/
def chunkLoop (f : Family) : Loop (Option f.Open × Text) := f.grammar.lexer.chunkLoop f.innerCalls

theorem exists_runs_chunkLoop (f : Family) (s : Option f.Open) (text : Text) : ∃ n ≤ 2 * text.length,
    f.chunkLoop.Runs (s, text) n ((f.grammar.lexer.transition s text).map (·, [])) := by
  cases f with
  | mysql =>
    exact Lexer.exists_runs_chunkLoop (fun _ _ => List.length_pos_iff.2) (fun _ => .inl rfl) s text
  | postgres =>
    exact Lexer.exists_runs_chunkLoop (fun s _ => Postgres.innerCalls_lt s)
      Postgres.innerCalls_of_advance s text

end Family

/-! ### Positions -/

/-- Whether `rest` is what `text` holds from some position behind `pos` on. -/
def IsAhead (text : Text) (pos : Nat) (rest : Text) : Prop :=
  ∃ pos', pos < pos' ∧ pos' ≤ text.length ∧ rest = text.drop pos'

theorem IsAhead.of_suffix {pos : Nat} (hsuffix : rest <:+ text.drop pos)
    (hlt : rest.length < (text.drop pos).length) : IsAhead text pos rest := by
  have hle : rest.length ≤ text.length := (hsuffix.trans (List.drop_suffix pos text)).length_le
  rw [List.length_drop] at hlt
  exact ⟨text.length - rest.length, by omega, Nat.sub_le ..,
    List.suffix_iff_eq_drop.1 (hsuffix.trans (List.drop_suffix pos text))⟩

theorem not_isAhead_drop {pos : Nat} (hpos : pos < text.length) :
    ¬IsAhead text pos (text.drop pos) := by
  rintro ⟨pos', hlt, -, heq⟩
  have hlength := congrArg List.length heq
  rw [List.length_drop, List.length_drop] at hlength
  omega

/-- A step goes ahead, or it gets to top level where it is, and the next step goes ahead. -/
theorem Family.advance_isAhead (f : Family) {s s' : Option f.Open} {pos : Nat}
    (hpos : pos < text.length)
    (h : f.grammar.lexer.advance s (text.drop pos) = .ok (s', rest)) :
    IsAhead text pos rest ∨ rest = text.drop pos ∧ s' ≠ s ∧ ∀ s'' rest',
      f.grammar.lexer.advance s' rest = .ok (s'', rest') → IsAhead text pos rest' := by
  have hne : text.drop pos ≠ [] := by simpa using hpos
  rcases f.grammar.lexer.advance_reads hne h with hlt | ⟨rfl, hs, rfl⟩
  · exact .inl (.of_suffix (advance_suffix h) hlt)
  · refine .inr ⟨rfl, ?_, fun s'' rest' h' => ?_⟩
    · rintro rfl
      contradiction
    · -- At top level there is no way to stay.
      rcases f.grammar.lexer.advance_reads hne h' with hlt | ⟨-, hs', -⟩
      · exact .of_suffix (advance_suffix h') hlt
      · contradiction

/-! ### The end of a reading -/

/-- A step that is not refused goes ahead, or the next one does.  So the loop over the steps of a
text ends, with what `transition` says, and at most two steps for each character have been taken
by then, those included that a step takes itself.  The loops inside a step end, too, the one
through a block comment after as many rounds as there is room for markers, the one through a
comment behind a string with escapes after at most one step. -/
theorem reading_ends :
    (∀ (f : Family) (s : Option f.Open) text pos, pos < text.length → ∀ s' rest,
      f.grammar.lexer.advance s (text.drop pos) = .ok (s', rest) →
        IsAhead text pos rest ∨ rest = text.drop pos ∧ s' ≠ s ∧ ∀ s'' rest',
          f.grammar.lexer.advance s' rest = .ok (s'', rest') → IsAhead text pos rest') ∧
    (∀ (f : Family) (s : Option f.Open) text, ∃ n ≤ 2 * text.length,
      f.chunkLoop.Runs (s, text) n ((f.grammar.lexer.transition s text).map (·, []))) ∧
    (∀ depth text, ∃ n ≤ text.length / 2 + 1, ∃ outcome,
      (Postgres.blockLoop text).Runs (depth, text) n outcome ∧
        Postgres.lexer.advance (some (.blockComment depth)) text =
          outcome.map fun a => (none, a.2)) ∧
    (∀ text k body, Postgres.commentOpened? (text.dropWhile isBlank) = some (k, body) →
      ∃ n ≤ 1, n = Postgres.innerCalls (some .continuation) text ∧ ∃ outcome,
        (Postgres.commentLoop k body).Runs (some (Postgres.opensComment k), body) n outcome ∧
          Postgres.lexer.advance (some .continuation) text =
            outcome.map fun a => (some .continuation, a.2)) ∧
    (∀ {α : Type} (l : Loop α) a n m o o', l.Runs a n o → l.Runs a m o' → n = m ∧ o = o') := by
  refine ⟨fun f s text pos hpos s' rest => f.advance_isAhead hpos,
    fun f s text => f.exists_runs_chunkLoop s text, Postgres.exists_runs_blockLoop, ?_,
    fun l a n m o o' => Loop.Runs.unique⟩
  intro text k body hopened
  have hle : Postgres.innerCalls (some .continuation) text ≤ 1 := by
    simp only [Postgres.innerCalls, hopened]
    split <;> omega
  exact ⟨_, hle, rfl, Postgres.exists_runs_commentLoop hopened⟩

/-- A line comment ends at its line break, where the reading stays before it goes on; behind a
string with escapes one step is taken through a comment. -/
theorem reading_ends_behind_comment :
    let text := "--a\n--b".toList
    let behind := " /* 'a' */ 'b'".toList
    3 < text.length ∧
      Postgres.lexer.advance (some .lineComment) (text.drop 3) = .ok (none, text.drop 3) ∧
      Postgres.lexer.advance none (text.drop 3) = .ok (some .lineComment, "b".toList) ∧
      IsAhead text 3 "b".toList ∧
      Postgres.commentOpened? (behind.dropWhile isBlank) = some (.block, " 'a' */ 'b'".toList) ∧
      Postgres.advance (some .continuation) behind = .ok (some .continuation, " 'b'".toList) ∧
      ∃ outcome, (Postgres.commentLoop .block " 'a' */ 'b'".toList).Runs
        (some (.blockComment 1), " 'a' */ 'b'".toList) 1 outcome := by
  obtain ⟨hsteps, -, -, hcomment, -⟩ := reading_ends
  have hlength : 3 < "--a\n--b".toList.length := by decide
  have hstay : Postgres.lexer.advance (some .lineComment) ("--a\n--b".toList.drop 3) =
      .ok (none, "--a\n--b".toList.drop 3) := by cbv
  have hmove : Postgres.lexer.advance none ("--a\n--b".toList.drop 3) =
      .ok (some .lineComment, "b".toList) := by cbv
  have hopened : Postgres.commentOpened? (" /* 'a' */ 'b'".toList.dropWhile isBlank) =
      some (.block, " 'a' */ 'b'".toList) := by cbv
  have hgoes : Postgres.advance (some .continuation) " /* 'a' */ 'b'".toList =
      .ok (some .continuation, " 'b'".toList) := by cbv
  have hone : Postgres.innerCalls (some .continuation) " /* 'a' */ 'b'".toList = 1 := by cbv
  refine ⟨hlength, hstay, hmove, ?_, hopened, hgoes, ?_⟩
  · rcases hsteps .postgres (some .lineComment) _ 3 hlength _ _ hstay with hahead | ⟨-, -, hnext⟩
    · exact absurd hahead (not_isAhead_drop hlength)
    · exact hnext _ _ hmove
  · obtain ⟨n, -, hn, outcome, hruns, -⟩ := hcomment _ _ _ hopened
    rw [hn, hone] at hruns
    exact ⟨outcome, hruns⟩

end SqlWeave
