/-
SqlWeave/Proofs/Lexer/Loop.lean

Loops, with a count of what their rounds call.  A loop as such need not end; the relation between
where it starts, how many calls it makes and what it comes to holds only if it does.

Whether a loop ends and how many calls it makes comes down to one measure that pays for the rounds:
what is left of it after a round, together with the calls of that round, is no more than what was
there before.

The loop over the steps of a lexer is paid for by twice the length of the text that is left.  A step
that reads nothing leaves the open construct, and the step after it reads: at top level the measure
is one less, which is what the step without reading has paid.

Main results: a loop ends in one way at most (`Runs.unique`), one that is paid for does end
(`Pays.exists_runs`), and the loop over steps comes to what `transition` does, with at most two
calls for each character (`exists_runs_chunkLoop`).
-/
import SqlWeave.Proofs.Lexer.Agreement

namespace SqlWeave

/-- A loop that goes from one `α` to the next, unless a round fails. -/
structure Loop (α : Type) where
  /-- Whether there is another round. -/
  goesOn : α → Prop
  /-- One round. -/
  round : α → Except Failure α
  /-- How many calls a round makes. -/
  calls : α → Nat

namespace Loop

variable {α : Type} {l : Loop α} {a : α}

/-- The loop that starts at `a` makes `n` calls and comes to an outcome. -/
inductive Runs (l : Loop α) : (a : α) → (n : Nat) → Except Failure α → Prop
  | done {a : α} (hdone : ¬l.goesOn a) : Runs l a 0 (.ok a)
  | fails {a : α} {e : Failure} (hgoes : l.goesOn a) (hround : l.round a = .error e) :
      Runs l a (l.calls a) (.error e)
  | next {a b : α} {n : Nat} {outcome : Except Failure α} (hgoes : l.goesOn a)
      (hround : l.round a = .ok b) (h : Runs l b n outcome) : Runs l a (l.calls a + n) outcome

theorem Runs.unique {n m : Nat} {o o' : Except Failure α} (h : l.Runs a n o) (h' : l.Runs a m o') :
    n = m ∧ o = o' := by
  -- At each place one of the rules applies, and it leaves no choice.
  induction h generalizing m with
  | done hdone =>
    cases h' with
    | done => exact ⟨rfl, rfl⟩
    | fails hgoes | next hgoes => exact absurd hgoes hdone
  | fails hgoes hround =>
    cases h' with
    | done hdone => exact absurd hgoes hdone
    | fails _ hround' => exact ⟨rfl, by rw [Except.error.inj (hround.symm.trans hround')]⟩
    | next _ hround' => exact nomatch hround.symm.trans hround'
  | next hgoes hround _ ih =>
    cases h' with
    | done hdone => exact absurd hgoes hdone
    | fails _ hround' => exact nomatch hround.symm.trans hround'
    | next _ hround' hruns =>
      obtain rfl := Except.ok.inj (hround.symm.trans hround')
      obtain ⟨hn, ho⟩ := ih hruns
      exact ⟨by rw [hn], ho⟩

/-- Whether a measure pays for the rounds of a loop. -/
structure Pays (l : Loop α) (measure : α → Nat) : Prop where
  pos : ∀ a, 0 < l.calls a
  failed : ∀ {a e}, l.goesOn a → l.round a = .error e → l.calls a ≤ measure a
  passed : ∀ {a b}, l.goesOn a → l.round a = .ok b → l.calls a + measure b ≤ measure a

/-- A loop that is paid for ends, with no more calls than that. -/
theorem Pays.exists_runs {measure : α → Nat} (h : l.Pays measure) (a : α) :
    ∃ n outcome, n ≤ measure a ∧ l.Runs a n outcome := by
  induction hm : measure a using Nat.strongRecOn generalizing a with
  | ind m ih =>
    subst hm
    by_cases hgoes : l.goesOn a
    · cases hround : l.round a with
      | error e => exact ⟨_, _, h.failed hgoes hround, .fails hgoes hround⟩
      | ok b =>
        have hpos := h.pos a
        have hpaid := h.passed hgoes hround
        obtain ⟨n, outcome, hn, hruns⟩ := ih (measure b) (by omega) b rfl
        exact ⟨_, _, by omega, .next hgoes hround hruns⟩
    · exact ⟨0, .ok a, Nat.zero_le _, .done hgoes⟩

end Loop

/-! ### The loop over the steps of a lexer -/

namespace Lexer

variable {σ : Type} (L : Lexer σ)

/-- The loop that takes steps until the text is used up.  A step may call further steps itself;
`inner` says how many. -/
def chunkLoop (inner : Option σ → Text → Nat) : Loop (Option σ × Text) where
  goesOn a := a.2 ≠ []
  round a := L.advance a.1 a.2
  calls a := inner a.1 a.2 + 1

variable {L} {inner : Option σ → Text → Nat} {s : Option σ} {text : Text}

/-- The loop leaves open what `transition` says. -/
theorem eq_transition_of_runs {n : Nat} {outcome : Except Failure (Option σ × Text)}
    {a : Option σ × Text} (h : (L.chunkLoop inner).Runs a n outcome) :
    outcome = (L.transition a.1 a.2).map (·, []) := by
  induction h with
  | @done a hdone =>
    obtain ⟨s, text⟩ := a
    obtain rfl : text = [] := Classical.not_not.1 hdone
    rw [transition_nil]
    rfl
  | fails hgoes hround =>
    rw [L.transition_of_advance_error hgoes hround]
    rfl
  | next hgoes hround _ ih => rw [ih, L.transition_of_advance hgoes hround]

/-- Twice the length of what is left, and one less at top level. -/
def budget (a : Option σ × Text) : Nat := 2 * a.2.length - if a.1.isNone then 1 else 0

/-- The steps that a step calls are paid for if it reads more than one character for each of
them. -/
theorem pays_chunkLoop
    (hfailed : ∀ s text, text ≠ [] → inner s text < text.length)
    (hpassed : ∀ {s text s' rest}, L.advance s text = .ok (s', rest) →
      inner s text = 0 ∨ rest.length + inner s text < text.length) :
    (L.chunkLoop inner).Pays budget where
  pos _ := Nat.succ_pos _
  failed {a e} hgoes _ := by
    obtain ⟨s, text⟩ := a
    have hlt : inner s text < text.length := hfailed s text hgoes
    simp only [chunkLoop, budget]
    split <;> omega
  passed {a b} hgoes hround := by
    obtain ⟨s, text⟩ := a
    obtain ⟨s', rest⟩ := b
    have hne : text ≠ [] := hgoes
    have hstep : L.advance s text = .ok (s', rest) := hround
    have hpos : 0 < text.length := List.length_pos_iff.2 hne
    have hinner := hpassed hstep
    simp only [chunkLoop, budget]
    rcases L.advance_reads hne hstep with hlt | ⟨rfl, hs, rfl⟩
    · split <;> split <;> omega
    · -- Nothing is read, so nothing is called, and the way to top level is paid for.
      have hsome : s.isNone = false := Option.isNone_eq_false_iff.2 hs
      simp only [hsome, Option.isNone_none, if_true, Bool.false_eq_true, if_false]
      omega

theorem exists_runs_chunkLoop
    (hfailed : ∀ s text, text ≠ [] → inner s text < text.length)
    (hpassed : ∀ {s text s' rest}, L.advance s text = .ok (s', rest) →
      inner s text = 0 ∨ rest.length + inner s text < text.length)
    (s : Option σ) (text : Text) :
    ∃ n ≤ 2 * text.length,
      (L.chunkLoop inner).Runs (s, text) n ((L.transition s text).map (·, [])) := by
  obtain ⟨n, outcome, hn, hruns⟩ := (pays_chunkLoop hfailed hpassed).exists_runs (s, text)
  have hoc := eq_transition_of_runs hruns
  subst hoc
  exact ⟨n, Nat.le_trans hn (Nat.sub_le ..), hruns⟩

end Lexer

end SqlWeave
