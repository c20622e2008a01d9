/-
SqlWeave/Proofs/Expression.lean

The shape of the text of a free-standing value.  It is the print of a tree with few levels: at the
root an item or a list of assignments, below that lists, in these groups, and in groups nothing but
single literals, names and trusted SQL.

The types of the trees leave no other shape: a group cannot stand in a group, assignments cannot
stand below the root, and SQL text that is not trusted cannot stand anywhere.  So a mapping inside
of a value, say one that came with a user's data, has no way to turn into assignments.

Main results: what is written for a value, or refused, is the print of its tree (`escape_eq_print`).
The tree has assignments exactly for what may be taken apart, and one atom for each leaf, in order
(`escape_prints_tree`).
-/
import SqlWeave.Dialect
import SqlWeave.Proofs.Places

namespace SqlWeave

open Text

/-! ### Trees -/

/-- A single literal or name, or trusted SQL. -/
inductive Atom (trust : TrustPolicy)
  | null
  | bool (b : Bool)
  | number (n : Number)
  | string (t : Text)
  | blob (data : List UInt8)
  | identifier (i : Identifier) (trusted : trust.trustsIdentifier i)
  | fragment (f : Fragment) (trusted : trust.trustsFragment f)

/-- What stands in a list: an atom, or a group of atoms in round brackets.  A place of a group can
be empty. -/
inductive Element (trust : TrustPolicy)
  | atom (a : Atom trust)
  | group (members : List (Option (Atom trust)))

/-- An atom, or a list. -/
inductive Item (trust : TrustPolicy)
  | atom (a : Atom trust)
  | list (elements : List (Element trust))

/-- An item, or items that are assigned to names. -/
inductive Expression (trust : TrustPolicy)
  | item (i : Item trust)
  | assignments (pairs : List (Value × Item trust))

/-! ### Printing -/

section

variable {σ : Type} {trust : TrustPolicy} (G : Grammar σ)

/-- The text of an atom. -/
def Atom.print : Atom trust → Except Failure Text
  | null => .ok "NULL".toList
  | bool b => .ok (boolText b)
  | number n => .ok n.sqlText
  | string t => .ok (G.quoteString t)
  | blob data => .ok (G.quoteBlob data)
  | identifier i _ => G.escapeId trust false (.identifier i)
  | fragment f _ => .ok f.content

/-- The text of an element.  An empty place in a group is an empty text between the commas. -/
def Element.print : Element trust → Except Failure Text
  | atom a => a.print G
  | group members => do
    return '(' :: (joinPlaces (← members.mapM (Option.mapM (Atom.print G))) ++ [')'])

/-- The text of an item. -/
def Item.print : Item trust → Except Failure Text
  | atom a => a.print G
  | list elements => do return commaJoin (← elements.mapM (Element.print G))

/-- The text of an expression. -/
def Expression.print : Expression trust → Except Failure Text
  | item i => i.print G
  | assignments pairs => do
    return commaJoin (← pairs.mapM fun p => do
      let name ← G.escapeId trust false p.1
      let t ← p.2.print G
      return name ++ [' ', '=', ' '] ++ t)

end

/-! ### Atoms of a tree -/

section

variable {trust : TrustPolicy}

/-- The atoms of an element, in order. -/
def Element.atoms : Element trust → List (Atom trust)
  | atom a => [a]
  | group members => members.filterMap id

/-- The atoms of an item, in order. -/
def Item.atoms : Item trust → List (Atom trust)
  | atom a => [a]
  | list elements => elements.flatMap Element.atoms

namespace Expression

/-- The atoms of an expression, in order; names that are assigned to are not among them. -/
def atoms : Expression trust → List (Atom trust)
  | item i => i.atoms
  | assignments pairs => pairs.flatMap fun p => p.2.atoms

/-- Whether items are assigned to names. -/
def isAssignments : Expression trust → Bool
  | item _ => false
  | assignments _ => true

end Expression

end

/-! ### The tree of a value -/

namespace Value

/-- The names and items of a value that is taken apart.  What can be called is left out. -/
def assigned? (options : Options) (v : Value) : Option (List (Value × Value)) :=
  (if options.stringifyObjects then none else Grammar.pairs? v).map
    (List.filter fun p => !p.2.isCallable)

/-- The values that are written as items: those that are assigned, or else the value itself. -/
def written (options : Options) (v : Value) : List Value :=
  match v.assigned? options with
  | some pairs => pairs.map Prod.snd
  | none => [v]

end Value

section

variable (s : Surroundings) (zone : Text)

/-- The atom of a value.  Whatever has no literal of its own is a string. -/
def Atom.ofValue : Value → Atom s.trust
  | .null => null
  | .bool b => bool b
  | .number n _ => number n
  | .text t _ => string t
  | .moment m =>
    match m.text? s.host zone with
    | some t => string t
    | none => null
  | .blob _ data => blob data
  | .fragment f => if h : s.trust.trustsFragment f then fragment f h else string f.content
  | .identifier i => if h : s.trust.trustsIdentifier i then identifier i h else string i.content
  | v => string v.plain

/-- The element of a value in a list. -/
def Element.ofValue (v : Value) : Element s.trust :=
  if v.isSeries then group (v.places.map (Option.map (Atom.ofValue s zone)))
  else atom (Atom.ofValue s zone v)

/-- The item of a value. -/
def Item.ofValue : Value → Item s.trust
  | .series _ items => list (items.map (Element.ofValue s zone))
  | v => atom (Atom.ofValue s zone v)

theorem Item.ofValue_of_not_isSeries {v : Value} (h : v.isSeries = false) :
    Item.ofValue s zone v = atom (Atom.ofValue s zone v) := by
  cases v <;> first | rfl | simp [Value.isSeries] at h

/-- The expression of a value. -/
def Expression.ofValue (options : Options) (v : Value) : Expression s.trust :=
  match v.assigned? options with
  | some pairs => assignments (pairs.map fun p => (p.1, Item.ofValue s options.timeZone p.2))
  | none => item (Item.ofValue s options.timeZone v)

end

/-! ### What is printed -/

section

variable {σ : Type} (G : Grammar σ) (s : Surroundings) (zone : Text) (options : Options)

theorem print_atom_ofValue (v : Value) : (Atom.ofValue s zone v).print G = G.atom s zone v := by
  cases v with
  | moment m =>
    rw [Atom.ofValue, Grammar.atom]
    cases m.text? s.host zone <;> rfl
  | fragment f =>
    rw [Atom.ofValue, Grammar.atom]
    by_cases h : s.trust.trustsFragment f
    · rw [dif_pos h, if_pos h, Atom.print]
    · rw [dif_neg h, if_neg h, Atom.print]
  | identifier i =>
    rw [Atom.ofValue, Grammar.atom]
    by_cases h : s.trust.trustsIdentifier i
    · rw [dif_pos h, if_pos h, Atom.print, Grammar.escapeId]
    · rw [dif_neg h, if_neg h, Atom.print]
  | _ => rfl

/-- A group prints the places of its series. -/
theorem mapM_print_places (v : Value) :
    (v.places.map (Option.map (Atom.ofValue s zone))).mapM (Option.mapM (Atom.print G)) =
      Series.placed (G.atom s zone) v := by
  rw [Series.placed, List.mapM_map]
  congr 1
  funext p
  cases p with
  | none => rfl
  | some x => simp only [Function.comp_apply, Option.map_some, Option.mapM, print_atom_ofValue]

theorem print_element_ofValue (v : Value) :
    (Element.ofValue s zone v).print G = Series.grouped (G.atom s zone) v := by
  rw [Element.ofValue, Series.grouped, Series.flat_eq_joinPlaces]
  split
  · rw [Element.print, mapM_print_places, bind_map_left]
  · exact print_atom_ofValue G s zone v

theorem print_item_ofValue (v : Value) : (Item.ofValue s zone v).print G = G.item s zone v := by
  cases hs : v.isSeries with
  | false =>
    rw [Item.ofValue_of_not_isSeries s zone hs, G.item_of_not_isSeries hs]
    exact print_atom_ofValue G s zone v
  | true =>
    obtain ⟨form, items, rfl⟩ := Value.exists_of_isSeries hs
    -- Grouping stops here: below an item of the list, `grouped` writes everything in line.
    have hprint : Element.print G ∘ Element.ofValue s zone = Series.grouped (G.atom s zone) :=
      funext (print_element_ofValue G s zone)
    rw [Item.ofValue, Item.print, Grammar.item, Series.write, if_pos rfl,
      Series.groupeds_eq_mapM, List.mapM_map, hprint]

/-- What is written for a value, or refused, is the print of its tree. -/
theorem escape_eq_print (v : Value) :
    G.escape s options v = (Expression.ofValue s options v).print G := by
  rw [Grammar.escape, Expression.ofValue, Value.assigned?]
  cases if options.stringifyObjects then none else Grammar.pairs? v with
  | none => exact (print_item_ofValue G s options.timeZone v).symm
  | some pairs =>
    show G.assignments s options.timeZone pairs = _
    rw [Option.map_some, Expression.print, List.mapM_map, Grammar.assignments]
    simp only [Function.comp_def, print_item_ofValue]
    rfl

end

/-! ### What a tree holds -/

section

variable (s : Surroundings) (zone : Text) (options : Options)

theorem Element.atoms_ofValue (v : Value) :
    (Element.ofValue s zone v).atoms = v.leaves.map (Atom.ofValue s zone) := by
  rw [Element.ofValue]
  cases hs : v.isSeries with
  | false => rw [Value.leaves_of_not_isSeries hs]; rfl
  | true =>
    rw [if_pos rfl, Element.atoms, List.filterMap_map, ← Value.filterMap_places,
      List.map_filterMap]
    rfl

theorem Item.atoms_ofValue (v : Value) :
    (Item.ofValue s zone v).atoms = v.leaves.map (Atom.ofValue s zone) := by
  cases hs : v.isSeries with
  | false => rw [Item.ofValue_of_not_isSeries s zone hs, Value.leaves_of_not_isSeries hs]; rfl
  | true =>
    obtain ⟨form, items, rfl⟩ := Value.exists_of_isSeries hs
    rw [Item.ofValue, Item.atoms, List.flatMap_map, Value.leaves_series, List.map_flatMap]
    simp only [Element.atoms_ofValue]

/-- The leaves of what is written are the atoms of the tree, in order. -/
theorem Expression.atoms_ofValue (v : Value) :
    (Expression.ofValue s options v).atoms =
      ((v.written options).flatMap Value.leaves).map (Atom.ofValue s options.timeZone) := by
  rw [Expression.ofValue, Value.written]
  cases v.assigned? options with
  | none => simp [Expression.atoms, Item.atoms_ofValue]
  | some pairs =>
    simp [Expression.atoms, Item.atoms_ofValue, List.flatMap_map, List.map_flatMap]

theorem Grammar.isSome_pairs?_iff (trust : TrustPolicy) (v : Value) :
    (pairs? v).isSome ↔ v.kind trust = .mapping ∨ v.publicAttributes ≠ [] := by
  cases v with
  | mapping form entries | record kind fields => simp [pairs?, Value.kind]
  | object shown callable attributes identity =>
    simp only [pairs?]
    cases (Value.object shown callable attributes identity).publicAttributes with
    | nil => simp [Value.kind]
    | cons a as => simp
  | fragment f | identifier i =>
    simp only [pairs?, Value.publicAttributes, Value.kind]
    split <;> simp
  | _ => simp [pairs?, Value.publicAttributes, Value.kind]

theorem Expression.isAssignments_ofValue_iff (v : Value) :
    (Expression.ofValue s options v).isAssignments ↔ options.stringifyObjects = false ∧
      (v.kind s.trust = .mapping ∨ v.publicAttributes ≠ []) := by
  have hassigned :
      (Expression.ofValue s options v).isAssignments = (v.assigned? options).isSome := by
    rw [Expression.ofValue]
    cases v.assigned? options <;> rfl
  rw [hassigned, Value.assigned?, Option.isSome_map, ← Grammar.isSome_pairs?_iff]
  cases options.stringifyObjects <;> simp

/-- A mapping, and whatever else has no literal of its own, is one string. -/
theorem Atom.ofValue_of_kind {v : Value}
    (h : v.kind s.trust = .mapping ∨ v.kind s.trust = .other) :
    Atom.ofValue s zone v = string v.plain := by
  cases v with
  | fragment f =>
    cases hf : s.trust.trustsFragment f with
    | true => simp [Value.kind, hf] at h
    | false => simp [Atom.ofValue, hf, Value.plain]
  | identifier i =>
    cases hi : s.trust.trustsIdentifier i with
    | true => simp [Value.kind, hi] at h
    | false => simp [Atom.ofValue, hi, Value.plain]
  | null | bool b | number n face | text t face | blob form data | moment m
  | series form items => simp [Value.kind] at h
  | _ => rfl

end

/-! ### Every value is written as a tree -/

/-- What is written for a value, or refused, is the print of a tree.  It has assignments only at
the root, and only for a mapping, a record or an object with something to offer that need not be a
string.  Its atoms are the leaves of what is written, one for each and in order, and a mapping,
record or object among these is one string. -/
theorem escape_prints_tree (f : Family) (s : Surroundings) (options : Options) (v : Value) :
    let e := Expression.ofValue s options v
    f.grammar.escape s options v = e.print f.grammar ∧
      (e.isAssignments ↔ options.stringifyObjects = false ∧
        (v.kind s.trust = .mapping ∨ v.publicAttributes ≠ [])) ∧
      e.atoms = ((v.written options).flatMap Value.leaves).map (Atom.ofValue s options.timeZone) ∧
      ∀ w : Value, w.kind s.trust = .mapping ∨ w.kind s.trust = .other →
        Atom.ofValue s options.timeZone w = .string w.plain := by
  refine ⟨escape_eq_print f.grammar s options v, ?_, ?_, ?_⟩
  · exact Expression.isAssignments_ofValue_iff s options v
  · exact Expression.atoms_ofValue s options v
  · exact fun w hw => Atom.ofValue_of_kind s options.timeZone hw

/-- A mapping below another one, in a group that has an empty place, is a string in the tree and in
the text. -/
theorem escape_prints_tree_nested :
    let s : Surroundings := ⟨defaultMinter.policy, .zero⟩
    let inner : Value := .mapping .plain [(.ofText ['b'], .ofInt 1)]
    let group : Value := .series .list [.bool true, .series .tuple [], inner]
    let v : Value := .mapping .plain [(.ofText ['a'], .series .list [group, .null])]
    let e : Expression s.trust :=
      .assignments [(.ofText ['a'],
        .list [.group [some (.bool true), none, some (.string inner.plain)], .atom .null])]
    Expression.ofValue s .default v = e ∧ inner.kind s.trust = .mapping ∧
      Postgres.grammar.escape s .default v = e.print Postgres.grammar ∧
      e.print Postgres.grammar = .ok "\"a\" = (true, , '\x7b''b'': 1\x7d'), NULL".toList ∧
      Atom.ofValue s Options.default.timeZone inner = .string inner.plain := by
  intro s inner group v e
  have he : Expression.ofValue s .default v = e := rfl
  have htree := escape_prints_tree .postgres s .default v
  exact ⟨he, rfl, he ▸ htree.1, by cbv, htree.2.2.2 inner (.inl rfl)⟩

end SqlWeave
