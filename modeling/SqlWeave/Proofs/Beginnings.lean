/-
SqlWeave/Proofs/Beginnings.lean

How the text of a free-standing value begins.  A series without items and a mapping or object
without anything to assign are written as nothing; every other value is written as a text that
begins with a literal, a bracket or the name in an assignment.

Main results: what holds of all these beginnings, whatever comes after them, holds of the text
of every value that is not silent (`Begins.of_escape`); in both families a value is written as
nothing exactly if it is silent (`escape_eq_nil_iff`).
-/
import SqlWeave.Dialect
import SqlWeave.Proofs.Writing

namespace SqlWeave

open Text

/-! ### Silent values -/

/-- Whether a value is written as nothing: it offers nothing to assign, or is a series without
items. -/
def Value.isSilent (options : Options) (v : Value) : Bool :=
  match if options.stringifyObjects then none else Grammar.pairs? v with
  | some pairs => pairs.all fun p => p.2.isCallable
  | none => v.isSeries && v.elements.isEmpty

/-! ### Beginnings -/

theorem Text.exists_intercalate_eq (separator a : Text) (items : List Text) :
    ∃ rest, separator.intercalate (a :: items) = a ++ rest := by
  cases items with
  | nil => exact ⟨[], by simp [List.intercalate]⟩
  | cons b items => exact ⟨_, intercalate_cons_of_ne_nil separator a (List.cons_ne_nil b items)⟩

theorem Name.exists_quotedPath_eq (quote : Text → Text) (splits : Bool) (name : Text) :
    ∃ p rest, quotedPath quote splits name = quote p ++ rest := by
  have hne : (if splits then pieces name else [name]) ≠ [] := by
    split
    · exact pieces_ne_nil name
    · simp
  obtain ⟨p, ps, hp⟩ := List.exists_cons_of_ne_nil hne
  obtain ⟨rest, hrest⟩ := exists_intercalate_eq ['.'] (quote p) (ps.map quote)
  exact ⟨p, rest, by rw [quotedPath, hp, List.map_cons, hrest]⟩

/-- What holds of everything that the text of a value can begin with, and of every text that
goes on from there. -/
structure Begins {σ : Type} (G : Grammar σ) (trust : TrustPolicy) (Q : Text → Prop) : Prop where
  append : ∀ {a : Text} (b : Text), Q a → Q (a ++ b)
  null : Q "NULL".toList
  bool : ∀ b, Q (boolText b)
  number : ∀ {t : Text}, IsNumeral t → Q t
  string : ∀ t, Q (G.quoteString t)
  blob : ∀ data, Q (G.quoteBlob data)
  identifier : ∀ {i : Identifier} {t : Text},
    G.nameStyle.escape trust false (.identifier i) = .ok t → Q t
  bracket : Q ['(']
  /-- A key may be a series, and an empty one leaves no name before the sign. -/
  assignment : ∀ {key : Value} {t : Text}, key.holdsFragment trust = false →
    G.nameStyle.escape trust false key = .ok t → Q (t ++ [' ', '=', ' '])

namespace Begins

variable {σ : Type} {G : Grammar σ} {s : Surroundings} {options : Options} {zone t : Text}
  {v : Value} {Q : Text → Prop}

theorem of_commaJoin (h : Begins G s.trust Q) {ts : List Text} (ht : Q t) :
    Q (commaJoin (t :: ts)) := by
  obtain ⟨rest, hrest⟩ := exists_intercalate_eq comma t ts
  rw [commaJoin, hrest]
  exact h.append rest ht

theorem atoms (h : Begins G s.trust Q) : HoldsOfAtoms G s.trust Q where
  null := h.null
  bool := h.bool
  number := h.number
  string := h.string
  blob := h.blob
  identifier := h.identifier

theorem of_grouped (h : Begins G s.trust Q) (hv : v.holdsFragment s.trust = false)
    (ht : Series.grouped (G.atom s zone) v = .ok t) : Q t := by
  cases hs : v.isSeries with
  | false =>
    rw [Series.grouped_of_not_isSeries hs] at ht
    exact h.atoms.of_atom hv ht
  | true =>
    rw [Series.grouped_of_isSeries hs] at ht
    obtain ⟨u, -, rfl⟩ := Except.map_eq_ok_iff.1 ht
    exact h.append (u ++ [')']) h.bracket

theorem of_item (h : Begins G s.trust Q) (hv : v.holdsFragment s.trust = false)
    (hs : (v.isSeries && v.elements.isEmpty) = false) (ht : G.item s zone v = .ok t) : Q t := by
  cases hseries : v.isSeries with
  | false =>
    rw [G.item_of_not_isSeries hseries] at ht
    exact h.atoms.of_atom hv ht
  | true =>
    obtain ⟨form, items, rfl⟩ := Value.exists_of_isSeries hseries
    cases items with
    | nil => contradiction
    | cons w ws =>
      obtain ⟨ts, hts, rfl⟩ := Series.write_nested_eq_ok_iff.1 ht
      obtain ⟨u, us, hu, -, rfl⟩ := Series.groupeds_cons_eq_ok_iff.1 hts
      exact h.of_commaJoin (h.of_grouped (Value.holdsFragment_of_mem_items hv (by simp)) hu)

theorem of_assignments (h : Begins G s.trust Q) {pairs : List (Value × Value)}
    (hv : ∀ p ∈ pairs, p.1.holdsFragment s.trust = false ∧ p.2.holdsFragment s.trust = false)
    (hs : (pairs.all fun p => p.2.isCallable) = false) (ht : G.assignments s zone pairs = .ok t) :
    Q t := by
  obtain ⟨ts, hts, ht⟩ := Except.bind_eq_ok_iff.1 ht
  obtain ⟨p, hp, hkept⟩ := List.all_eq_false.1 hs
  have hmem : p ∈ pairs.filter fun p => !p.2.isCallable :=
    List.mem_filter.2 ⟨hp, by simpa using hkept⟩
  obtain ⟨⟨key, w⟩, ps, hps⟩ := List.exists_cons_of_ne_nil (List.ne_nil_of_mem hmem)
  -- Only the first assignment counts, and of that only the name and the sign.
  rw [hps, List.mapM_cons] at hts
  obtain ⟨u, hu, hts⟩ := Except.bind_eq_ok_iff.1 hts
  obtain ⟨us, -, hts⟩ := Except.bind_eq_ok_iff.1 hts
  obtain rfl : u :: us = ts := Except.ok.inj hts
  obtain ⟨name, hname, hu⟩ := Except.bind_eq_ok_iff.1 hu
  obtain ⟨item, -, hu⟩ := Except.bind_eq_ok_iff.1 hu
  have hmem : (key, w) ∈ pairs := (List.mem_filter.1 (hps ▸ List.mem_cons_self)).1
  rw [← Except.ok.inj ht]
  apply h.of_commaJoin
  rw [← Except.ok.inj hu]
  exact h.append item (h.assignment (hv _ hmem).1 hname)

/-- What the beginnings have in common, the text of every value has that is not silent. -/
theorem of_escape (h : Begins G s.trust Q) (hv : v.holdsFragment s.trust = false)
    (hs : v.isSilent options = false) (ht : G.escape s options v = .ok t) : Q t := by
  rw [Grammar.escape] at ht
  rw [Value.isSilent] at hs
  split at ht
  · rename_i pairs hpairs
    rw [hpairs] at hs
    have hpairs : Grammar.pairs? v = some pairs := by
      split at hpairs
      · contradiction
      · exact hpairs
    exact h.of_assignments (fun p => Value.holdsFragment_of_mem_pairs hv hpairs) hs ht
  · rename_i hpairs
    rw [hpairs] at hs
    exact h.of_item hv hs ht

end Begins

/-! ### Values that are written as nothing -/

theorem Grammar.escape_of_isSilent {σ : Type} {G : Grammar σ} {s : Surroundings}
    {options : Options} {v : Value} (h : v.isSilent options) : G.escape s options v = .ok [] := by
  rw [Value.isSilent] at h
  rw [Grammar.escape]
  cases hpairs : if options.stringifyObjects then none else Grammar.pairs? v with
  | some pairs =>
    rw [hpairs] at h
    have hkept : (pairs.filter fun p => !p.2.isCallable) = [] := by
      simpa using h
    simp only [Grammar.assignments, hkept]
    rfl
  | none =>
    rw [hpairs] at h
    obtain ⟨hseries, hempty⟩ : v.isSeries ∧ v.elements = [] := by simpa using h
    obtain ⟨form, items, rfl⟩ := Value.exists_of_isSeries hseries
    obtain rfl : items = [] := hempty
    rfl

theorem MySQL.begins_ne_nil (trust : TrustPolicy) : Begins MySQL.grammar trust (· ≠ []) where
  append b ha := by simp [ha]
  null := by decide
  bool b := by cases b <;> decide
  number h := h.ne_nil
  string t := by simp [MySQL.grammar, MySQL.quoteString, between]
  blob data := by simp [MySQL.grammar, MySQL.quoteBlob]
  identifier h := by
    obtain ⟨p, rest, he⟩ := Name.exists_quotedPath_eq _ _ _
    rw [← Except.ok.inj h, he]
    simp [between]
  bracket := by simp
  assignment _ _ := by simp

theorem Postgres.exists_quoteBlob_eq (data : List UInt8) :
    ∃ rest, quoteBlob data = "decode('".toList ++ rest :=
  ⟨hexBytes data ++ "', 'hex')".toList, List.append_assoc ..⟩

theorem Postgres.begins_ne_nil (trust : TrustPolicy) : Begins Postgres.grammar trust (· ≠ []) where
  append b ha := by simp [ha]
  null := by decide
  bool b := by cases b <;> decide
  number h := h.ne_nil
  string t := by
    rw [show Postgres.grammar.quoteString t = Postgres.quoteString t from rfl, Postgres.quoteString]
    split <;> simp [between]
  blob data := by
    obtain ⟨rest, he⟩ := Postgres.exists_quoteBlob_eq data
    rw [show Postgres.grammar.quoteBlob data = "decode('".toList ++ rest from he]
    have hopening : "decode('".toList ≠ [] := by decide
    exact List.append_ne_nil_of_left_ne_nil hopening rest
  identifier h := by
    obtain ⟨-, -, rfl⟩ := Except.map_eq_ok_iff.1 h
    obtain ⟨p, rest, he⟩ := Name.exists_quotedPath_eq _ _ _
    rw [he]
    simp
  bracket := by simp
  assignment _ _ := by simp

theorem Family.begins_ne_nil (f : Family) (trust : TrustPolicy) :
    Begins f.grammar trust (· ≠ []) := by
  cases f with
  | mysql => exact MySQL.begins_ne_nil trust
  | postgres => exact Postgres.begins_ne_nil trust

/-- A value is written as nothing exactly if it is silent. -/
theorem escape_eq_nil_iff (f : Family) {s : Surroundings} {options : Options} {v : Value}
    {t : Text} (hv : v.holdsFragment s.trust = false)
    (ht : f.grammar.escape s options v = .ok t) : t = [] ↔ v.isSilent options := by
  constructor
  · intro hnil
    cases hs : v.isSilent options with
    | true => rfl
    | false => exact absurd hnil ((f.begins_ne_nil s.trust).of_escape hv hs ht)
  · intro hs
    rw [Grammar.escape_of_isSilent hs] at ht
    exact (Except.ok.inj ht).symm

end SqlWeave
