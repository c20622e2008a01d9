/-
SqlWeave/Proofs/Writing.lean

Induction over the text of a free-standing value.  A value is written as a literal or a name, or
as literals and names with commas, brackets and the signs of assignments between them; what is
true of all literals and names, and passes on over these, is true of the text of every value.

Main results: the induction over single literals and names (`HoldsOfAtoms.of_atom`) and over all
values (`HoldsOfTexts.of_escape`), for values without trusted fragments.
-/
import SqlWeave.Proofs.Number.Numeral
import SqlWeave.Proofs.Series
import SqlWeave.Proofs.Value.Fragments

namespace SqlWeave

open Text

/-- What holds of every literal and of every trusted identifier. -/
structure HoldsOfAtoms {σ : Type} (G : Grammar σ) (trust : TrustPolicy) (Q : Text → Prop) :
    Prop where
  null : Q "NULL".toList
  bool : ∀ b, Q (boolText b)
  number : ∀ {t : Text}, IsNumeral t → Q t
  string : ∀ t, Q (G.quoteString t)
  blob : ∀ data, Q (G.quoteBlob data)
  identifier : ∀ {i : Identifier} {t : Text},
    G.nameStyle.escape trust false (.identifier i) = .ok t → Q t

/-- What holds of every literal and name, and passes on to the texts that are made of them. -/
structure HoldsOfTexts {σ : Type} (G : Grammar σ) (trust : TrustPolicy) (Q : Text → Prop) : Prop
    extends HoldsOfAtoms G trust Q where
  nil : Q []
  comma : ∀ {a b : Text}, Q a → Q b → Q (a ++ (Text.comma ++ b))
  brackets : ∀ {a : Text}, Q a → Q ('(' :: (a ++ [')']))
  assignment : ∀ {key : Value} {a b : Text}, key.holdsFragment trust = false →
    G.nameStyle.escape trust false key = .ok a → Q b → Q (a ++ [' ', '=', ' '] ++ b)

variable {σ : Type} {G : Grammar σ} {s : Surroundings} {options : Options} {zone t : Text}
  {v : Value} {Q : Text → Prop}

theorem HoldsOfAtoms.of_atom (h : HoldsOfAtoms G s.trust Q) (hv : v.holdsFragment s.trust = false)
    (ht : G.atom s zone v = .ok t) : Q t := by
  have hstring {u : Text} (hu : Except.ok (ε := Failure) (G.quoteString u) = .ok t) : Q t :=
    Except.ok.inj hu ▸ h.string u
  cases v with
  | null => exact Except.ok.inj ht ▸ h.null
  | bool b => exact Except.ok.inj ht ▸ h.bool b
  | number n face => exact Except.ok.inj ht ▸ h.number (isNumeral_sqlText n)
  | moment m =>
    rw [Grammar.atom] at ht
    split at ht
    · exact hstring ht
    · exact Except.ok.inj ht ▸ h.null
  | blob form data => exact Except.ok.inj ht ▸ h.blob data
  | fragment f =>
    have hf : s.trust.trustsFragment f = false := hv
    rw [Grammar.atom, hf] at ht
    exact hstring ht
  | identifier i =>
    rw [Grammar.atom] at ht
    split at ht
    · exact h.identifier ht
    · exact hstring ht
  | text u face => exact hstring ht
  | _ => exact hstring ht

namespace HoldsOfTexts

theorem of_commaJoin (h : HoldsOfTexts G s.trust Q) {ts : List Text} (hts : ∀ t ∈ ts, Q t) :
    Q (commaJoin ts) := by
  by_cases hne : ts = []
  · rw [hne]
    exact h.nil
  · exact commaJoin_induction (fun _ _ => h.comma) hne hts

/-- The leaves of a series are written as atoms, however deep they lie. -/
theorem of_flat (h : HoldsOfTexts G s.trust Q) (hv : v.holdsFragment s.trust = false)
    (ht : Series.flat (G.atom s zone) v = .ok t) : Q t :=
  Series.flat_induction h.nil (fun _ _ => h.comma)
    (fun _ hx _ hu => h.of_atom (Value.holdsFragment_of_mem_leaves hv hx) hu) ht

theorem of_grouped (h : HoldsOfTexts G s.trust Q) (hv : v.holdsFragment s.trust = false)
    (ht : Series.grouped (G.atom s zone) v = .ok t) : Q t := by
  cases hs : v.isSeries with
  | false =>
    rw [Series.grouped_of_not_isSeries hs] at ht
    exact h.of_atom hv ht
  | true =>
    rw [Series.grouped_of_isSeries hs] at ht
    obtain ⟨u, hu, rfl⟩ := Except.map_eq_ok_iff.1 ht
    exact h.brackets (h.of_flat hv hu)

theorem of_item (h : HoldsOfTexts G s.trust Q) (hv : v.holdsFragment s.trust = false)
    (ht : G.item s zone v = .ok t) : Q t := by
  cases hs : v.isSeries with
  | false =>
    rw [G.item_of_not_isSeries hs] at ht
    exact h.of_atom hv ht
  | true =>
    obtain ⟨form, items, rfl⟩ := Value.exists_of_isSeries hs
    obtain ⟨ts, hts, rfl⟩ := Series.write_nested_eq_ok_iff.1 ht
    apply h.of_commaJoin
    intro u hu
    obtain ⟨w, hw, he⟩ := Series.exists_of_mem_groupeds hts hu
    exact h.of_grouped (Value.holdsFragment_of_mem_items hv hw) he

theorem of_assignments (h : HoldsOfTexts G s.trust Q) {pairs : List (Value × Value)}
    (hv : ∀ p ∈ pairs, p.1.holdsFragment s.trust = false ∧ p.2.holdsFragment s.trust = false)
    (ht : G.assignments s zone pairs = .ok t) : Q t := by
  obtain ⟨ts, hts, ht⟩ := Except.bind_eq_ok_iff.1 ht
  rw [← Except.ok.inj ht]
  apply h.of_commaJoin
  intro u hu
  obtain ⟨⟨key, w⟩, hp, he⟩ := Except.exists_of_mem_mapM hts hu
  obtain ⟨hkey, hw⟩ := hv _ (List.mem_filter.1 hp).1
  obtain ⟨name, hname, he⟩ := Except.bind_eq_ok_iff.1 he
  obtain ⟨item, hitem, he⟩ := Except.bind_eq_ok_iff.1 he
  rw [← Except.ok.inj he]
  exact h.assignment hkey hname (h.of_item hw hitem)

/-- What holds of the texts of all literals and names, and passes on over what stands between
them, holds of the text of every value. -/
theorem of_escape (h : HoldsOfTexts G s.trust Q) (hv : v.holdsFragment s.trust = false)
    (ht : G.escape s options v = .ok t) : Q t := by
  rw [Grammar.escape] at ht
  split at ht
  · rename_i pairs hpairs
    have hpairs : Grammar.pairs? v = some pairs := by
      split at hpairs
      · contradiction
      · exact hpairs
    exact h.of_assignments (fun p => Value.holdsFragment_of_mem_pairs hv hpairs) ht
  · exact h.of_item hv ht

end HoldsOfTexts

end SqlWeave
