/-
SqlWeave/Registry.lean

A registry of things under names, with other names that stand for them.  A name is looked up
among the aliases first.

Main results: what was put under a name is found there, and nothing else is touched
(`lookup_put`).
-/
import SqlWeave.Failure

namespace SqlWeave

/-- Things under names. -/
structure Registry (δ : Type) where
  entries : List (Text × δ)
  aliases : List (Text × Text)

namespace Registry

variable {δ : Type}

/-- Puts a thing under a key of a list, in the place of an earlier one. -/
def put {α : Type} (key : Text) (x : α) (list : List (Text × α)) : List (Text × α) :=
  (key, x) :: list.filter fun e => e.1 != key

theorem lookup_put {α : Type} (key other : Text) (x : α) (list : List (Text × α)) :
    (put key x list).lookup other = if other = key then some x else list.lookup other := by
  by_cases h : other = key
  · simp [put, h]
  · rw [put, List.lookup_cons]
    simp only [h, if_false]
    have hb : (other == key) = false := by simp [h]
    rw [hb]
    induction list with
    | nil => rfl
    | cons e list ih =>
      obtain ⟨k, y⟩ := e
      by_cases hk : k = key
      · subst hk
        simpa [List.lookup_cons, hb] using ih
      · simp [hk, List.lookup_cons] at ih ⊢
        rw [ih]

/-- The empty registry. -/
def empty : Registry δ := ⟨[], []⟩

/-- Registers a thing under a name and some aliases. -/
def register (r : Registry δ) (name : Text) (x : δ) (aliases : List Text) : Registry δ where
  entries := put name x r.entries
  aliases := aliases.foldl (fun list a => put a name list) r.aliases

/-- The names of all things, in the order of their characters' codes. -/
def targets (r : Registry δ) : List Text :=
  (r.entries.map Prod.fst).mergeSort fun a b => !decide (b < a)

/-- The thing that goes by a name or alias. -/
def resolve (r : Registry δ) (name : Text) : Except Failure δ :=
  match r.entries.lookup ((r.aliases.lookup name).getD name) with
  | some x => .ok x
  | none => .error (.unknownDialect name r.targets)

end Registry

end SqlWeave
