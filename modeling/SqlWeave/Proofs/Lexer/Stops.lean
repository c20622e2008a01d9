/-
SqlWeave/Proofs/Lexer/Stops.lean

Scans that take a text piece by piece.  What a piece may be is a relation between a text and what
is left of it, so a piece may depend on what comes behind it.  The scan goes on as long as there is
a piece to take, and why it stopped can be read off the text that is left.

The body of a quoted construct is such a scan.  Its pieces are single characters, doubled quotes
and, with escapes, a backslash with the character behind it.

Main results: a scan stops, and at one place only (`existsUnique_stopsAt`).  A body ends in half an
escape exactly if the scan of it stops at a backslash with nothing behind it
(`readBody_eq_halfEscape_iff`).
-/
import Mathlib.Logic.ExistsUnique
import Mathlib.Logic.Relation
import SqlWeave.Proofs.Lexer.Body

namespace SqlWeave

open Text

/-! ### Scans -/

/-- Whether a scan that takes one piece after the other stops with `rest` left of the text: pieces
lead there, and no piece comes next. -/
def StopsAt (takes : Text → Text → Prop) (text rest : Text) : Prop :=
  Relation.ReflTransGen takes text rest ∧ ∀ t, ¬takes rest t

section

variable {takes : Text → Text → Prop} {text rest : Text}

theorem exists_stopsAt (hshort : ∀ t u, takes t u → u.length < t.length) (text : Text) :
    ∃ rest, StopsAt takes text rest := by
  induction hn : text.length using Nat.strongRecOn generalizing text with
  | ind n ih =>
    subst hn
    by_cases hpiece : ∃ t, takes text t
    · obtain ⟨t, ht⟩ := hpiece
      obtain ⟨rest, hreach, hlast⟩ := ih t.length (hshort text t ht) t rfl
      exact ⟨rest, .head ht hreach, hlast⟩
    · exact ⟨text, .refl, fun t ht => hpiece ⟨t, ht⟩⟩

/-- A scan that has a choice nowhere stops at one place. -/
theorem existsUnique_stopsAt (hshort : ∀ t u, takes t u → u.length < t.length)
    (hunique : Relator.RightUnique takes) (text : Text) : ∃! rest, StopsAt takes text rest := by
  obtain ⟨rest, hrest⟩ := exists_stopsAt hshort text
  -- Of two scans of one text the longer goes on from where the shorter is, but that has stopped.
  have hend {a b : Text} (ha : ∀ t, ¬takes a t) (hab : Relation.ReflTransGen takes a b) : b = a := by
    rcases hab.cases_head with rfl | ⟨t, ht, -⟩
    · rfl
    · exact absurd ht (ha t)
  refine ⟨rest, hrest, fun other hother => ?_⟩
  rcases hrest.1.total_of_right_unique hunique hother.1 with h | h
  · exact hend hrest.2 h
  · exact (hend hother.2 h).symm

/-- What no piece changes is at the end what it was at the beginning. -/
theorem eq_of_reaches {β : Type} {f : Text → β} (h : Relation.ReflTransGen takes text rest)
    (hkeeps : ∀ t u, takes t u → f t = f u) : f text = f rest := by
  induction h with
  | refl => rfl
  | tail _ hpiece ih => rw [ih, hkeeps _ _ hpiece]

end

/-! ### Bodies -/

/-- One piece of the body of a quoted construct. -/
inductive TakesInBody (mark : Char) (escapes : Bool) : Text → Text → Prop
  | plain {c : Char} {t : Text} (hc : c ≠ mark) (he : ¬(escapes ∧ c = backslash)) :
      TakesInBody mark escapes (c :: t) t
  | doubled {t : Text} : TakesInBody mark escapes (mark :: mark :: t) t
  | escaped {c : Char} {t : Text} (he : escapes) : TakesInBody mark escapes (backslash :: c :: t) t

variable {mark : Char} {escapes : Bool} {text rest : Text}

theorem TakesInBody.length_lt (h : TakesInBody mark escapes text rest) :
    rest.length < text.length := by
  cases h <;> simp only [List.length_cons] <;> omega

theorem TakesInBody.rightUnique : Relator.RightUnique (TakesInBody mark escapes) := by
  intro t u v hu hv
  cases hu with
  | plain hc he =>
    cases hv with
    | plain => rfl
    | doubled => exact absurd rfl hc
    | escaped he' => exact absurd ⟨he', rfl⟩ he
  | doubled =>
    cases hv with
    | plain hc => exact absurd rfl hc
    | doubled | escaped => rfl
  | escaped he =>
    cases hv with
    | plain _ he' => exact absurd ⟨he, rfl⟩ he'
    | doubled | escaped => rfl

/-- A piece is no end of the body. -/
theorem TakesInBody.readBody_eq (hm : mark ≠ backslash) (h : TakesInBody mark escapes text rest) :
    readBody mark escapes text = readBody mark escapes rest := by
  cases h with
  | plain hc he => exact readBody_cons_of_ne hc he
  | doubled => exact readBody_twice
  | escaped he =>
    subst he
    exact readBody_escaped hm

/-- The scan of a body stops at its end, at a quote that is not doubled, or at a backslash with
nothing behind it. -/
theorem stop_of_forall_not_takesInBody (h : ∀ t, ¬TakesInBody mark escapes text t) :
    text = [] ∨ (∃ t, text = mark :: t ∧ t.head? ≠ some mark) ∨ escapes ∧ text = [backslash] := by
  rcases text with - | ⟨c, t⟩
  · exact .inl rfl
  by_cases hc : c = mark
  · subst hc
    refine .inr (.inl ⟨t, rfl, fun hhead => ?_⟩)
    obtain ⟨t, rfl⟩ := List.head?_eq_some_iff.1 hhead
    exact h t .doubled
  by_cases he : escapes ∧ c = backslash
  · obtain ⟨he, rfl⟩ := he
    rcases t with - | ⟨d, t⟩
    · exact .inr (.inr ⟨he, rfl⟩)
    · exact absurd (.escaped he) (h t)
  · exact absurd (.plain hc he) (h t)

theorem readBody_eq_halfEscape_iff (hm : mark ≠ backslash) :
    readBody mark escapes text = .halfEscape ↔
      StopsAt (TakesInBody mark escapes) text [backslash] := by
  constructor
  · intro hread
    obtain ⟨rest, hreach, hlast⟩ := exists_stopsAt (fun _ _ => TakesInBody.length_lt) text
    rw [eq_of_reaches hreach fun _ _ => TakesInBody.readBody_eq hm] at hread
    rcases stop_of_forall_not_takesInBody hlast with rfl | ⟨t, rfl, ht⟩ | ⟨-, rfl⟩
    · simp [readBody] at hread
    · simp [readBody_of_head?_ne ht] at hread
    · exact ⟨hreach, hlast⟩
  · rintro ⟨hreach, hlast⟩
    rw [eq_of_reaches hreach fun _ _ => TakesInBody.readBody_eq hm]
    rcases stop_of_forall_not_takesInBody hlast with h | ⟨t, h, -⟩ | ⟨he, -⟩
    · contradiction
    · exact absurd (List.cons.inj h).1.symm hm
    · simp [readBody, hm.symm, he]

end SqlWeave
