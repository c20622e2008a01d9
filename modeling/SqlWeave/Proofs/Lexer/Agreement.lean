/-
SqlWeave/Proofs/Lexer/Agreement.lean

When two readings come to the same, and how a reading goes on step by step.

Two readings agree if they leave the same construct open, or if both fail and the failures
are of one category.  The messages may differ: a failure shows the text that led up to it,
and that text depends on where the reading started.

Main results: agreement is an equivalence (`Agree.refl`, `Agree.symm`, `Agree.trans`), and
a reading takes one step and goes on from there (`transition_of_advance`).
-/
import SqlWeave.Lexer.Basic

namespace SqlWeave

/-- Whether two outcomes are the same result, or failures of the same category. -/
def Agree {α : Type} : Except Failure α → Except Failure α → Prop
  | .ok a, .ok b => a = b
  | .error e, .error f => e.category = f.category
  | _, _ => False

namespace Agree

variable {α : Type} {x y z : Except Failure α}

theorem refl (x : Except Failure α) : Agree x x := by
  cases x <;> simp [Agree]

theorem symm (h : Agree x y) : Agree y x := by
  cases x <;> cases y <;> simp_all [Agree]

theorem trans (hxy : Agree x y) (hyz : Agree y z) : Agree x z := by
  cases x <;> cases y <;> cases z <;> simp_all [Agree]

theorem eq_ok {a : α} (h : Agree x (.ok a)) : x = .ok a := by
  cases x <;> simp_all [Agree]

theorem exists_eq_error {e : Failure} {c : Category} (h : Agree x y) (hy : y = .error e)
    (he : e.category = c) : ∃ e', x = .error e' ∧ e'.category = c := by
  subst hy
  cases x with
  | ok a => exact h.elim
  | error e' => exact ⟨e', rfl, Eq.trans h he⟩

end Agree

namespace Lexer

variable {σ : Type} (L : Lexer σ) {s s' : Option σ} {text rest : Text}

theorem transition_of_advance (hne : text ≠ []) (h : L.advance s text = .ok (s', rest)) :
    L.transition s text = L.transition s' rest := by
  rw [L.transition_of_ne_nil hne, h]

theorem transition_of_advance_error {e : Failure} (hne : text ≠ [])
    (h : L.advance s text = .error e) : L.transition s text = .error e := by
  rw [L.transition_of_ne_nil hne, h]

/-- What is read to the end of a statement as a single chunk has no gap. -/
theorem contexts_singleton {q : Option σ} (h : L.transition none text = .ok q)
    (hq : L.finish q = .ok ()) : L.contexts [text] = .ok [] := by
  simp only [contexts, contextsFrom, h, hq, bind, Except.bind, pure, Except.pure]
  rfl

end Lexer

end SqlWeave
