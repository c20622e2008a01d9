/-
SqlWeave/Proofs/Value/Leaves.lean

The leaves of a value.  A series is gone through to any depth; what is no series is a leaf,
whatever it holds.  The shape of a value is what is left of it when the leaves are forgotten.

Main results: an induction principle that follows the series (`Value.series_induction`), and
that it depends on the shape alone whether a value without leaves, or one that begins and ends
with a leaf, is at hand (`isFlush_shape`).
-/
import SqlWeave.Value.Kind

namespace SqlWeave.Value

/-! ### Induction -/

/-- Induction over the nesting of series. -/
@[elab_as_elim]
theorem series_induction {P : Value → Prop} (leaf : ∀ v, v.isSeries = false → P v)
    (series : ∀ form items, (∀ v ∈ items, P v) → P (.series form items)) (v : Value) : P v :=
  match v with
  | .series form items => series form items fun v _ => series_induction leaf series v
  | .null | .bool _ | .number .. | .complex .. | .text .. | .blob .. | .moment _ | .date _
  | .time _ | .duration _ | .mapping .. | .record .. | .member .. | .object .. | .fragment _
  | .identifier _ => leaf _ rfl
termination_by sizeOf v
decreasing_by
  rename_i h
  have := List.sizeOf_lt_of_mem h
  simp
  omega

/-! ### Leaves -/

mutual

/-- The leaves of a value, in order. -/
def leaves : Value → List Value
  | series _ items => leavesAll items
  | v => [v]

/-- The leaves of each of the values. -/
def leavesAll : List Value → List Value
  | [] => []
  | v :: vs => leaves v ++ leavesAll vs

end

theorem leaves_of_not_isSeries {v : Value} (h : v.isSeries = false) : v.leaves = [v] := by
  cases v <;> simp_all [leaves, isSeries]

theorem leavesAll_eq_flatMap (vs : List Value) : leavesAll vs = vs.flatMap leaves := by
  induction vs with
  | nil => rfl
  | cons v vs ih => rw [leavesAll, ih, List.flatMap_cons]

theorem leaves_series (form : SeriesForm) (items : List Value) :
    (series form items).leaves = items.flatMap leaves := by
  rw [leaves, leavesAll_eq_flatMap]

/-! ### The first and the last place -/

/-- Whether the first place of a value, gone through to any depth, is a leaf and not an
empty series. -/
def leads : Value → Bool
  | series _ [] => false
  | series _ (v :: _) => leads v
  | _ => true

mutual

/-- Whether the last place of a value, gone through to any depth, is a leaf and not an empty
series. -/
def trails : Value → Bool
  | series _ items => trailsLast items
  | _ => true

/-- Whether the last place of the last of the values is a leaf. -/
def trailsLast : List Value → Bool
  | [] => false
  | [v] => trails v
  | _ :: w :: vs => trailsLast (w :: vs)

end

theorem leads_of_leaves_eq_nil {v : Value} (h : v.leaves = []) : v.leads = false := by
  induction v using series_induction with
  | leaf v hv => simp [leaves_of_not_isSeries hv] at h
  | series form items ih =>
    cases items with
    | nil => rfl
    | cons v vs =>
      rw [leaves_series, List.flatMap_cons, List.append_eq_nil_iff] at h
      exact ih v (by simp) h.1

theorem trails_of_leaves_eq_nil {v : Value} (h : v.leaves = []) : v.trails = false := by
  induction v using series_induction with
  | leaf v hv => simp [leaves_of_not_isSeries hv] at h
  | series form items ih =>
    rw [trails]
    rw [leaves_series] at h
    -- Only the last item counts, so the induction goes down the items.
    induction items with
    | nil => rfl
    | cons v vs ihs =>
      rw [List.flatMap_cons, List.append_eq_nil_iff] at h
      cases vs with
      | nil => exact ih v (by simp) h.1
      | cons w vs => exact ihs (fun u hu => ih u (by simp [hu])) h.2

/-- Whether a value has no leaf at all, or begins and ends with one. -/
def isFlush (v : Value) : Bool := v.leaves.isEmpty || v.leads && v.trails

/-! ### Shapes -/

mutual

/-- The value with the same leaf in every place. -/
def reshape : Value → (leaf : Value) → Value
  | series _ items, leaf => series .list (reshapeAll items leaf)
  | _, leaf => leaf

/-- Each of the values, with the same leaf in every place. -/
def reshapeAll : List Value → (leaf : Value) → List Value
  | [], _ => []
  | v :: vs, leaf => reshape v leaf :: reshapeAll vs leaf

end

/-- The nesting of the series in a value. -/
def shape (v : Value) : Value := v.reshape .null

theorem reshapeAll_eq_map (leaf : Value) (vs : List Value) :
    reshapeAll vs leaf = vs.map (·.reshape leaf) := by
  induction vs with
  | nil => rfl
  | cons v vs ih => rw [reshapeAll, ih, List.map_cons]

theorem reshape_of_not_isSeries {leaf v : Value} (h : v.isSeries = false) :
    v.reshape leaf = leaf := by
  cases v <;> first | rfl | simp [isSeries] at h

theorem reshape_series (leaf : Value) (form : SeriesForm) (items : List Value) :
    (series form items).reshape leaf = .series .list (items.map (·.reshape leaf)) := by
  rw [reshape, reshapeAll_eq_map]

theorem reshape_reshape {a b : Value} (ha : a.isSeries = false) (v : Value) :
    (v.reshape a).reshape b = v.reshape b := by
  induction v using series_induction with
  | leaf v hv => rw [reshape_of_not_isSeries hv, reshape_of_not_isSeries hv,
      reshape_of_not_isSeries ha]
  | series form items ih =>
    rw [reshape_series, reshape_series, reshape_series, List.map_map]
    congr 1
    exact List.map_congr_left ih

theorem shape_reshape {leaf : Value} (h : leaf.isSeries = false) (v : Value) :
    (v.reshape leaf).shape = v.shape :=
  reshape_reshape h v

theorem leaves_reshape {leaf : Value} (h : leaf.isSeries = false) (v : Value) :
    (v.reshape leaf).leaves = v.leaves.map fun _ => leaf := by
  induction v using series_induction with
  | leaf v hv => rw [reshape_of_not_isSeries hv, leaves_of_not_isSeries h,
      leaves_of_not_isSeries hv, List.map_singleton]
  | series form items ih =>
    rw [reshape_series, leaves_series, leaves_series, List.flatMap_map, List.map_flatMap,
      List.flatMap_def, List.flatMap_def]
    exact congrArg _ (List.map_congr_left ih)

theorem leads_of_not_isSeries {v : Value} (h : v.isSeries = false) : v.leads = true := by
  cases v <;> first | rfl | simp [isSeries] at h

theorem trails_of_not_isSeries {v : Value} (h : v.isSeries = false) : v.trails = true := by
  cases v <;> first | rfl | simp [isSeries] at h

theorem leads_reshape {leaf : Value} (h : leaf.isSeries = false) (v : Value) :
    (v.reshape leaf).leads = v.leads := by
  induction v using series_induction with
  | leaf v hv => rw [reshape_of_not_isSeries hv, leads_of_not_isSeries h, leads_of_not_isSeries hv]
  | series form items ih =>
    cases items with
    | nil => rfl
    | cons v vs => exact ih v (by simp)

theorem trails_reshape {leaf : Value} (h : leaf.isSeries = false) (v : Value) :
    (v.reshape leaf).trails = v.trails := by
  induction v using series_induction with
  | leaf v hv =>
    rw [reshape_of_not_isSeries hv, trails_of_not_isSeries h, trails_of_not_isSeries hv]
  | series form items ih =>
    rw [reshape_series, trails, trails]
    induction items with
    | nil => rfl
    | cons v vs ihs =>
      cases vs with
      | nil => exact ih v (by simp)
      | cons w vs => exact ihs fun u hu => ih u (by simp [hu])

theorem isFlush_shape (v : Value) : v.shape.isFlush = v.isFlush := by
  have h : null.isSeries = false := rfl
  rw [isFlush, isFlush, shape, leads_reshape h, trails_reshape h, leaves_reshape h,
    List.isEmpty_map]

end SqlWeave.Value
