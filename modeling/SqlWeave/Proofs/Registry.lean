/-
SqlWeave/Proofs/Registry.lean

What names resolve to after any number of registerings.  A name stands for another one if it was
given as an alias, and for itself otherwise; registering puts a thing under a name and lets the
aliases stand for it.  So a name that stands for another one already cannot be registered: the
thing is put there, and is not found under it.

One registering is described by what the names stand for before it (`find?_register`), and a
history of them by the last ones that gave a name as an alias or put a thing under it
(`find?_registerAll`).

Main results: registering takes effect for all aliases, touches no other name, and takes effect
for the name itself exactly if that stands for itself (`register_resolves_iff`);
`register_overlooked` is the least case where it does not.
-/
import SqlWeave.Dialect
import Mathlib.Data.List.Induction

namespace SqlWeave

/-- A thing that is registered under a name and some aliases. -/
structure Registration (δ : Type) where
  name : Text
  thing : δ
  aliases : List Text

namespace Registration

variable {δ : Type}

/-- The name that an alias was last given for. -/
def aliased (history : List (Registration δ)) (a : Text) : Option Text :=
  (history.reverse.find? fun c => c.aliases.contains a).map name

/-- The thing that was last registered under a name. -/
def registered (history : List (Registration δ)) (n : Text) : Option δ :=
  (history.reverse.find? fun c => c.name = n).map thing

theorem aliased_concat (history : List (Registration δ)) (c : Registration δ) (a : Text) :
    aliased (history ++ [c]) a = if a ∈ c.aliases then some c.name else aliased history a := by
  by_cases h : a ∈ c.aliases <;> simp [aliased, h]

theorem registered_concat (history : List (Registration δ)) (c : Registration δ) (n : Text) :
    registered (history ++ [c]) n = if n = c.name then some c.thing else registered history n := by
  by_cases h : n = c.name
  · simp [registered, h]
  · simp [registered, h, Ne.symm h]

/-- Whatever an alias was given for is registered. -/
theorem exists_registered_of_aliased {history : List (Registration δ)} {a n : Text}
    (h : aliased history a = some n) : ∃ x, registered history n = some x := by
  obtain ⟨c, hc, rfl⟩ := Option.map_eq_some_iff.1 h
  have hmem : c ∈ history.reverse := List.mem_of_find?_eq_some hc
  cases hfound : history.reverse.find? fun d => d.name = c.name with
  | some d => exact ⟨d.thing, by rw [registered, hfound]; rfl⟩
  | none => simpa using List.find?_eq_none.1 hfound c hmem

end Registration

namespace Registry

open Registration

variable {δ : Type} {r : Registry δ}

/-! ### One registering -/

/-- The name that a name stands for: an alias for what it was given for, any other for itself. -/
def standsFor (r : Registry δ) (name : Text) : Text := (r.aliases.lookup name).getD name

/-- The thing that a name resolves to, if there is one. -/
def find? (r : Registry δ) (name : Text) : Option δ := r.entries.lookup (r.standsFor name)

theorem resolve_eq_elim (r : Registry δ) (name : Text) :
    r.resolve name = (r.find? name).elim (.error (.unknownDialect name r.targets)) .ok := by
  rw [resolve, find?, standsFor]
  cases r.entries.lookup ((r.aliases.lookup name).getD name) <;> rfl

theorem resolve_eq_ok_iff {name : Text} {x : δ} :
    r.resolve name = .ok x ↔ r.find? name = some x := by
  rw [resolve_eq_elim]
  cases r.find? name <;> simp

theorem resolve_eq_error_iff {name : Text} :
    (∃ known, r.resolve name = .error (.unknownDialect name known)) ↔ r.find? name = none := by
  rw [resolve_eq_elim]
  cases r.find? name <;> simp

theorem lookup_foldl_put (name a : Text) (aliases : List Text) (list : List (Text × Text)) :
    (aliases.foldl (fun list a => put a name list) list).lookup a =
      if a ∈ aliases then some name else list.lookup a := by
  induction aliases generalizing list with
  | nil => simp
  | cons b aliases ih =>
    rw [List.foldl_cons, ih, lookup_put]
    by_cases ha : a ∈ aliases
    · simp [ha]
    · by_cases hb : a = b <;> simp [ha, hb]

theorem lookup_aliases_register (name : Text) (x : δ) (aliases : List Text) (a : Text) :
    (r.register name x aliases).aliases.lookup a =
      if a ∈ aliases then some name else r.aliases.lookup a :=
  lookup_foldl_put name a aliases r.aliases

/-- After a registering, its aliases and what stood for its name resolve to the thing, and all
other names as before. -/
theorem find?_register (name : Text) (x : δ) (aliases : List Text) (other : Text) :
    (r.register name x aliases).find? other =
      if other ∈ aliases ∨ r.standsFor other = name then some x else r.find? other := by
  have hentries : (r.register name x aliases).entries = put name x r.entries := rfl
  rw [find?, standsFor, lookup_aliases_register, hentries, lookup_put]
  by_cases hmem : other ∈ aliases
  · simp [hmem]
  · simp only [hmem, if_false, false_or]
    rfl

/-! ### Histories -/

/-- The registry after some registerings, one after the other. -/
def registerAll (r : Registry δ) (history : List (Registration δ)) : Registry δ :=
  history.foldl (fun r c => r.register c.name c.thing c.aliases) r

theorem registerAll_concat (history : List (Registration δ)) (c : Registration δ) :
    r.registerAll (history ++ [c]) =
      (r.registerAll history).register c.name c.thing c.aliases := by
  rw [registerAll, List.foldl_append]
  rfl

theorem lookup_aliases_registerAll (history : List (Registration δ)) (a : Text) :
    ((empty : Registry δ).registerAll history).aliases.lookup a = aliased history a := by
  induction history using List.reverseRecOn with
  | nil => rfl
  | append_singleton history c ih =>
    rw [registerAll_concat, lookup_aliases_register, aliased_concat, ih]

theorem lookup_entries_registerAll (history : List (Registration δ)) (n : Text) :
    ((empty : Registry δ).registerAll history).entries.lookup n = registered history n := by
  induction history using List.reverseRecOn with
  | nil => rfl
  | append_singleton history c ih =>
    rw [registerAll_concat, registered_concat, ← ih]
    exact lookup_put c.name n c.thing _

/-- After a history of registerings, a name resolves to what was last registered under the name
that it was last given for as an alias, or under itself. -/
theorem find?_registerAll (history : List (Registration δ)) (name : Text) :
    ((empty : Registry δ).registerAll history).find? name =
      registered history ((aliased history name).getD name) := by
  rw [find?, standsFor, lookup_aliases_registerAll, lookup_entries_registerAll]

end Registry

namespace Dialect

open Registration

/-- The registerings of the dialects that are known from the start. -/
def builtIns : List (Registration Dialect) :=
  [⟨Family.mysql.name, builtIn .mysql, []⟩,
    ⟨Family.postgres.name, builtIn .postgres, ["pg".toList]⟩]

theorem registry_registerAll (history : List (Registration Dialect)) :
    registry.registerAll history = Registry.empty.registerAll (builtIns ++ history) := by
  show (Registry.empty.registerAll builtIns).registerAll history = _
  simp only [Registry.registerAll, List.foldl_append]

theorem standsFor_registerAll (history : List (Registration Dialect)) (name : Text) :
    (registry.registerAll history).standsFor name =
      (aliased (builtIns ++ history) name).getD name := by
  rw [registry_registerAll, Registry.standsFor, Registry.lookup_aliases_registerAll]

/-- What was given as an alias resolves to what is registered under the name it was given for. -/
theorem find?_of_aliased {history : List (Registration Dialect)} {name n : Text}
    (h : aliased (builtIns ++ history) name = some n) :
    ∃ x, registered (builtIns ++ history) n = some x ∧
      (registry.registerAll history).find? name = some x := by
  obtain ⟨x, hx⟩ := exists_registered_of_aliased h
  refine ⟨x, hx, ?_⟩
  rw [registry_registerAll, Registry.find?_registerAll, h]
  exact hx

/-- What a name resolves to after any history of registerings and one more: its aliases to the
thing; its own name too, exactly if it stands for itself, or for a name with the same thing; and
otherwise that name, and all names that have nothing to do with it, to what they did before. -/
theorem register_resolves_iff (history : List (Registration Dialect)) (c : Registration Dialect) :
    let before := registry.registerAll history
    let after := before.register c.name c.thing c.aliases
    let given := aliased (builtIns ++ history)
    (∀ a ∈ c.aliases, after.resolve a = .ok c.thing) ∧
    (after.resolve c.name = .ok c.thing ↔
      c.name ∈ c.aliases ∨ given c.name = none ∨ given c.name = some c.name ∨
        before.resolve c.name = .ok c.thing) ∧
    (∀ n, c.name ∉ c.aliases → given c.name = some n → n ≠ c.name →
      ∃ x, registered (builtIns ++ history) n = some x ∧
        before.resolve c.name = .ok x ∧ after.resolve c.name = .ok x) ∧
    (∀ other, other ≠ c.name → other ∉ c.aliases → given other ≠ some c.name →
      (∀ x, after.resolve other = .ok x ↔ before.resolve other = .ok x) ∧
      ((∃ known, after.resolve other = .error (.unknownDialect other known)) ↔
        ∃ known, before.resolve other = .error (.unknownDialect other known))) := by
  intro before after given
  -- what stands for the name before the registering decides what it changes
  have hfind (other : Text) : after.find? other =
      if other ∈ c.aliases ∨ (given other).getD other = c.name then some c.thing
      else before.find? other := by
    rw [← standsFor_registerAll]
    exact Registry.find?_register c.name c.thing c.aliases other
  simp only [Registry.resolve_eq_ok_iff, Registry.resolve_eq_error_iff]
  refine ⟨?ofAliases, ?ofName, ?ofShadowed, ?ofOthers⟩
  case ofAliases =>
    intro a ha
    rw [hfind, if_pos (.inl ha)]
  case ofName =>
    rw [hfind]
    cases hgiven : given c.name with
    | none => simp
    | some n => by_cases hmem : c.name ∈ c.aliases <;> by_cases hn : n = c.name <;> simp [hmem, hn]
  case ofShadowed =>
    intro n hmem hgiven hn
    obtain ⟨x, hx, hbefore⟩ := find?_of_aliased hgiven
    refine ⟨x, hx, hbefore, ?_⟩
    rw [hfind, hgiven, Option.getD_some, if_neg (not_or.2 ⟨hmem, hn⟩), hbefore]
  case ofOthers =>
    intro other hname hmem hgiven
    have hstands : (given other).getD other ≠ c.name := by
      cases hother : given other with
      | none => exact hname
      | some n => exact fun h => hgiven (hother.trans (congrArg some h))
    rw [hfind, if_neg (not_or.2 ⟨hmem, hstands⟩)]
    exact ⟨fun _ => Iff.rfl, Iff.rfl⟩

/-- A dialect registered as `pg`, with an alias: it goes by the alias, while `pg` stays what it
was, and so does `mysql`. -/
theorem register_resolves_iff_pg :
    let lite := variant "Lite".toList .mysql
    let after := registry.register "pg".toList lite ["lite".toList]
    after.resolve "lite".toList = .ok lite ∧
    ¬ after.resolve "pg".toList = .ok lite ∧
    (∃ x, after.resolve "pg".toList = .ok x) ∧
    after.resolve "mysql".toList = .ok (builtIn .mysql) := by
  intro lite after
  obtain ⟨haliases, hname, hshadowed, hothers⟩ :=
    register_resolves_iff [] ⟨"pg".toList, lite, ["lite".toList]⟩
  refine ⟨haliases _ (by simp), fun h => ?_, ?_, ?_⟩
  · obtain h | h | h | h := hname.1 h <;> revert h <;> decide
  · obtain ⟨x, -, -, hx⟩ := hshadowed "postgres".toList (by decide) (by decide) (by decide)
    exact ⟨x, hx⟩
  · exact ((hothers "mysql".toList (by decide) (by decide) (by decide)).1 _).2 (by rfl)

/-- A dialect registered as `pg` is not what `pg` resolves to: that is an alias already. -/
theorem register_overlooked :
    let lite := variant "Lite".toList .mysql
    let after := registry.register "pg".toList lite []
    after.resolve "pg".toList = .ok (builtIn .postgres) ∧ after.resolve "pg".toList ≠ .ok lite := by
  intro lite after
  have h : after.resolve "pg".toList = .ok (builtIn .postgres) := by rfl
  exact ⟨h, fun hlite => absurd (Except.ok.inj (h.symm.trans hlite)) (by decide)⟩

end Dialect

end SqlWeave
