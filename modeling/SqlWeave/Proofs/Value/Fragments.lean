/-
SqlWeave/Proofs/Value/Fragments.lean

Values without trusted fragments.  A trusted fragment goes into SQL text as it stands, so
whatever is said about the text of a value is said of values that hold none.

Main results: a leaf of a value without trusted fragments holds none
(`holdsFragment_of_mem_leaves`).
-/
import SqlWeave.Grammar
import SqlWeave.Proofs.Value.Leaves

namespace SqlWeave.Value

variable {trust : TrustPolicy}

mutual

/-- Whether a trusted fragment is in the value, to any depth of series, mappings, records and
objects. -/
def holdsFragment (trust : TrustPolicy) : Value → Bool
  | fragment f => trust.trustsFragment f
  | series _ items => anyHoldsFragment trust items
  | mapping _ entries => anyEntryHoldsFragment trust entries
  | record _ fields => anyFieldHoldsFragment trust fields
  | object _ _ attributes _ => anyFieldHoldsFragment trust attributes
  | _ => false

/-- Whether a trusted fragment is in any of the values. -/
def anyHoldsFragment (trust : TrustPolicy) : List Value → Bool
  | [] => false
  | v :: vs => holdsFragment trust v || anyHoldsFragment trust vs

/-- Whether a trusted fragment is in any of the keys and items. -/
def anyEntryHoldsFragment (trust : TrustPolicy) : List (Value × Value) → Bool
  | [] => false
  | (k, v) :: es => holdsFragment trust k || holdsFragment trust v || anyEntryHoldsFragment trust es

/-- Whether a trusted fragment is in any of the fields. -/
def anyFieldHoldsFragment (trust : TrustPolicy) : List (Text × Value) → Bool
  | [] => false
  | (_, v) :: fs => holdsFragment trust v || anyFieldHoldsFragment trust fs

end

theorem anyHoldsFragment_eq_any (vs : List Value) :
    anyHoldsFragment trust vs = vs.any (holdsFragment trust) := by
  induction vs with
  | nil => rfl
  | cons v vs ih => rw [anyHoldsFragment, ih, List.any_cons]

theorem anyEntryHoldsFragment_eq_any (es : List (Value × Value)) :
    anyEntryHoldsFragment trust es =
      es.any fun e => holdsFragment trust e.1 || holdsFragment trust e.2 := by
  induction es with
  | nil => rfl
  | cons e es ih => rw [anyEntryHoldsFragment, ih, List.any_cons]

theorem anyFieldHoldsFragment_eq_any (fs : List (Text × Value)) :
    anyFieldHoldsFragment trust fs = fs.any fun f => holdsFragment trust f.2 := by
  induction fs with
  | nil => rfl
  | cons f fs ih => rw [anyFieldHoldsFragment, ih, List.any_cons]

theorem holdsFragment_of_mem_items {form : SeriesForm} {items : List Value} {v : Value}
    (h : holdsFragment trust (series form items) = false) (hv : v ∈ items) :
    holdsFragment trust v = false := by
  rw [holdsFragment, anyHoldsFragment_eq_any] at h
  simpa using List.any_eq_false.1 h v hv

theorem holdsFragment_of_mem_entries {v : Value} {e : Value × Value}
    (h : holdsFragment trust v = false) (he : e ∈ v.entries) :
    holdsFragment trust e.1 = false ∧ holdsFragment trust e.2 = false := by
  cases v with
  | mapping form es =>
    rw [holdsFragment, anyEntryHoldsFragment_eq_any] at h
    simpa using List.any_eq_false.1 h e he
  | record kind fields =>
    rw [holdsFragment, anyFieldHoldsFragment_eq_any] at h
    obtain ⟨f, hf, rfl⟩ := List.mem_map.1 he
    exact ⟨rfl, by simpa using List.any_eq_false.1 h f hf⟩
  | _ => simp [entries] at he

theorem holdsFragment_of_mem_publicAttributes {v : Value} {a : Text × Value}
    (h : holdsFragment trust v = false) (ha : a ∈ v.publicAttributes) :
    holdsFragment trust a.2 = false := by
  cases v with
  | object shown callable attributes identity =>
    rw [holdsFragment, anyFieldHoldsFragment_eq_any] at h
    cases callable with
    | true => simp [publicAttributes] at ha
    | false =>
      have hmem : a ∈ attributes := (List.mem_filter.1 ha).1
      simpa using List.any_eq_false.1 h a hmem
  | _ => simp [publicAttributes] at ha

theorem holdsFragment_of_mem_pairs {v : Value} {pairs : List (Value × Value)}
    {p : Value × Value} (h : holdsFragment trust v = false) (hpairs : Grammar.pairs? v = some pairs)
    (hp : p ∈ pairs) : holdsFragment trust p.1 = false ∧ holdsFragment trust p.2 = false := by
  unfold Grammar.pairs? at hpairs
  split at hpairs
  · rw [← Option.some.inj hpairs] at hp
    exact holdsFragment_of_mem_entries h hp
  · rw [← Option.some.inj hpairs] at hp
    exact holdsFragment_of_mem_entries h hp
  · split at hpairs
    · contradiction
    · rw [← Option.some.inj hpairs] at hp
      obtain ⟨a, ha, rfl⟩ := List.mem_map.1 hp
      exact ⟨rfl, holdsFragment_of_mem_publicAttributes h ha⟩

theorem holdsFragment_of_mem_leaves {v x : Value} (h : holdsFragment trust v = false)
    (hx : x ∈ v.leaves) : holdsFragment trust x = false := by
  induction v using series_induction with
  | leaf v hv =>
    rw [leaves_of_not_isSeries hv, List.mem_singleton] at hx
    exact hx ▸ h
  | series form items ih =>
    rw [leaves_series, List.mem_flatMap] at hx
    obtain ⟨v, hv, hx⟩ := hx
    exact ih v hv (holdsFragment_of_mem_items h hv) hx

theorem holdsFragment_reshape {leaf : Value} (h : holdsFragment trust leaf = false) (v : Value) :
    holdsFragment trust (v.reshape leaf) = false := by
  induction v using series_induction with
  | leaf v hv => rw [reshape_of_not_isSeries hv, h]
  | series form items ih =>
    rw [reshape_series, holdsFragment, anyHoldsFragment_eq_any, List.any_eq_false]
    intro w hw
    obtain ⟨v, hv, rfl⟩ := List.mem_map.1 hw
    simp [ih v hv]

end SqlWeave.Value
