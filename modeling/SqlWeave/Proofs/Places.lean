/-
SqlWeave/Proofs/Places.lean

The places of a series that is written in line.  Every leaf stands in a place of its own, and so
does every empty series: its text is empty, but it is joined to its neighbours like any other.

The list of the leaves alone is the same text only where no empty series has a neighbour.
Elsewhere the two differ in length by a comma for each empty series, whatever the rule for a
single item writes.

Main results: what is written for a value in line is the list of its places
(`flat_eq_joinPlaces`), and it is the list of the leaves exactly if the value is dense
(`write_flattens_iff`).
-/
import Mathlib
import SqlWeave.MySQL.Grammar
import SqlWeave.Proofs.Series

namespace SqlWeave

open Text

/-! ### Places -/

namespace Value

mutual

/-- The places of a value, in order: its leaves, and `none` for each empty series in it. -/
def places : Value → List (Option Value)
  | series _ [] => [none]
  | series _ (v :: vs) => places v ++ placesAll vs
  | v => [some v]

/-- The places of each of the values. -/
def placesAll : List Value → List (Option Value)
  | [] => []
  | v :: vs => places v ++ placesAll vs

end

/-- Whether no empty series has a neighbour: there is none, or it is all that the value holds. -/
def isDense (v : Value) : Bool := v.places.all Option.isSome || v.places.length ≤ 1

theorem places_of_not_isSeries {v : Value} (h : v.isSeries = false) : v.places = [some v] := by
  cases v <;> simp_all [places, isSeries]

theorem placesAll_eq_flatMap (vs : List Value) : placesAll vs = vs.flatMap places := by
  induction vs with
  | nil => rfl
  | cons v vs ih => rw [placesAll, ih, List.flatMap_cons]

theorem places_series_cons (form : SeriesForm) (v : Value) (vs : List Value) :
    (series form (v :: vs)).places = v.places ++ vs.flatMap places := by
  rw [places, placesAll_eq_flatMap]

theorem places_ne_nil (v : Value) : v.places ≠ [] := by
  induction v using series_induction with
  | leaf v hv => simp [places_of_not_isSeries hv]
  | series form items ih =>
    cases items with
    | nil => simp [places]
    | cons v vs =>
      rw [places_series_cons]
      exact List.append_ne_nil_of_left_ne_nil (ih v (by simp)) _

/-- The places that are taken are the leaves. -/
theorem filterMap_places (v : Value) : v.places.filterMap id = v.leaves := by
  induction v using series_induction with
  | leaf v hv => simp [places_of_not_isSeries hv, leaves_of_not_isSeries hv]
  | series form items ih =>
    rw [leaves_series]
    cases items with
    | nil => simp [places]
    | cons v vs =>
      rw [places_series_cons, List.filterMap_append, ih v (by simp), List.flatMap_cons,
        List.filterMap_flatMap]
      simp only [List.flatMap_def]
      congr 2
      exact List.map_congr_left fun w hw => ih w (by simp [hw])

theorem isDense_iff {v : Value} :
    v.isDense ↔ v.places.all Option.isSome ∨ v.places.length ≤ 1 := by
  rw [isDense, Bool.or_eq_true, decide_eq_true_eq]

theorem isDense_of_not_isSeries {v : Value} (h : v.isSeries = false) : v.isDense := by
  simp [isDense, places_of_not_isSeries h]

end Value

/-! ### Lists with commas -/

namespace Text

/-- Each of the items with a comma in front. -/
def commaTail (items : List Text) : Text := items.flatMap (comma ++ ·)

theorem commaTail_cons (a : Text) (items : List Text) :
    commaTail (a :: items) = comma ++ (a ++ commaTail items) := by
  simp [commaTail]

theorem commaTail_append (a b : List Text) : commaTail (a ++ b) = commaTail a ++ commaTail b := by
  simp [commaTail]

theorem commaJoin_cons (a : Text) (items : List Text) :
    commaJoin (a :: items) = a ++ commaTail items := by
  induction items generalizing a with
  | nil => simp [commaTail]
  | cons b items ih => rw [commaJoin_cons_cons, ih, commaTail_cons]

theorem length_commaTail (items : List Text) :
    (commaTail items).length = items.flatten.length + 2 * items.length := by
  induction items with
  | nil => rfl
  | cons a items ih =>
    rw [commaTail_cons, List.length_append, List.length_append, ih]
    simp [comma]
    omega

theorem length_commaJoin {items : List Text} (h : items ≠ []) :
    (commaJoin items).length + 2 = items.flatten.length + 2 * items.length := by
  obtain ⟨a, items, rfl⟩ := List.exists_cons_of_ne_nil h
  rw [commaJoin_cons, List.length_append, length_commaTail]
  simp
  omega

section

variable {α : Type} {F G : α → Text} {as : List α}

theorem length_commaTail_map_le (h : ∀ a ∈ as, (G a).length ≤ (F a).length) :
    (commaTail (as.map G)).length ≤ (commaTail (as.map F)).length := by
  induction as with
  | nil => exact Nat.le_refl _
  | cons a as ih =>
    have ha := h a (by simp)
    have has := ih fun b hb => h b (by simp [hb])
    simp only [List.map_cons, commaTail_cons, List.length_append]
    omega

/-- Where no item is longer in the second list than in the first, the lists are the same only if
all their items are. -/
theorem forall_eq_of_commaTail_map_eq (h : ∀ a ∈ as, (G a).length ≤ (F a).length)
    (heq : commaTail (as.map F) = commaTail (as.map G)) : ∀ a ∈ as, F a = G a := by
  induction as with
  | nil => simp
  | cons a as ih =>
    have has : ∀ b ∈ as, (G b).length ≤ (F b).length := fun b hb => h b (by simp [hb])
    rw [List.map_cons, List.map_cons, commaTail_cons, commaTail_cons,
      List.append_cancel_left_eq] at heq
    -- No item of the first list can make up for what a later one is longer by.
    have hhead : (F a).length = (G a).length := by
      have ha := h a (by simp)
      have htail := length_commaTail_map_le has
      have hboth := congrArg List.length heq
      rw [List.length_append, List.length_append] at hboth
      omega
    obtain ⟨ha, htail⟩ := List.append_inj heq hhead
    simpa [ha] using ih has htail

theorem commaJoin_map_eq_iff (h : ∀ a ∈ as, (G a).length ≤ (F a).length) :
    commaJoin (as.map F) = commaJoin (as.map G) ↔ ∀ a ∈ as, F a = G a := by
  constructor
  · intro heq
    apply forall_eq_of_commaTail_map_eq h
    cases as with
    | nil => rfl
    | cons a as =>
      rw [List.map_cons, List.map_cons, commaJoin_cons, commaJoin_cons] at heq
      rw [List.map_cons, List.map_cons, commaTail_cons, commaTail_cons, heq]
  · intro heq
    rw [List.map_congr_left heq]

end

/-- The list of some places, where nothing stands in those that are not taken. -/
def joinPlaces (texts : List (Option Text)) : Text := commaJoin (texts.map (·.getD []))

/-- The same with a comma in front. -/
def placesTail (texts : List (Option Text)) : Text := commaTail (texts.map (·.getD []))

/-- The list of the places that are taken. -/
def joinTaken (texts : List (Option Text)) : Text := commaJoin (texts.filterMap id)

theorem flatten_getD (texts : List (Option Text)) :
    (texts.map (·.getD [])).flatten = (texts.filterMap id).flatten := by
  induction texts with
  | nil => rfl
  | cons t texts ih => cases t <;> simp [ih]

theorem length_joinPlaces {texts : List (Option Text)} (h : texts ≠ []) :
    (joinPlaces texts).length + 2 = (texts.filterMap id).flatten.length + 2 * texts.length := by
  have hne : texts.map (·.getD []) ≠ [] := by simpa using h
  have hlength := length_commaJoin hne
  rwa [flatten_getD, List.length_map] at hlength

/-- Each place that is not taken is one more comma. -/
theorem length_joinPlaces_add {texts : List (Option Text)} (h : texts.filterMap id ≠ []) :
    (joinPlaces texts).length + 2 * (texts.filterMap id).length =
      (joinTaken texts).length + 2 * texts.length := by
  have hne : texts ≠ [] := by
    rintro rfl
    exact h rfl
  have hplaces := length_joinPlaces hne
  have hjoin := length_commaJoin h
  rw [joinTaken]
  omega

theorem length_joinTaken_le (texts : List (Option Text)) :
    (joinTaken texts).length ≤ (joinPlaces texts).length := by
  by_cases htaken : texts.filterMap id = []
  · rw [joinTaken, htaken]
    exact Nat.zero_le _
  · have hadd := length_joinPlaces_add htaken
    have hle := List.length_filterMap_le id texts
    omega

theorem joinPlaces_of_all_isSome {texts : List (Option Text)} (h : texts.all Option.isSome) :
    joinPlaces texts = joinTaken texts := by
  have heq : texts.map (·.getD []) = texts.filterMap id := by
    induction texts with
    | nil => rfl
    | cons t texts ih =>
      rw [List.all_cons, Bool.and_eq_true] at h
      obtain ⟨u, rfl⟩ := Option.isSome_iff_exists.1 h.1
      simp [ih h.2]
  rw [joinPlaces, joinTaken, heq]

/-- The two lists are the same exactly if no place is empty or there is but one: an empty place
has a comma to each side. -/
theorem joinPlaces_eq_joinTaken_iff (texts : List (Option Text)) :
    joinPlaces texts = joinTaken texts ↔ texts.all Option.isSome ∨ texts.length ≤ 1 := by
  constructor
  · intro h
    by_cases hnil : texts = []
    · exact .inr (by simp [hnil])
    by_cases htaken : texts.filterMap id = []
    -- With no place taken both texts are empty, and two places would have a comma.
    · have hplaces := length_joinPlaces hnil
      rw [h, joinTaken, htaken, commaJoin_nil, List.flatten_nil, List.length_nil] at hplaces
      exact .inr (by omega)
    · have hadd := length_joinPlaces_add htaken
      rw [h] at hadd
      have hlength : (texts.filterMap id).length = texts.length := by omega
      exact .inl (List.all_eq_true.2 (List.filterMap_length_eq_length.1 hlength))
  · rintro (h | h)
    · exact joinPlaces_of_all_isSome h
    · match texts, h with
      | [], _ | [none], _ => rfl
      | [some t], _ => exact joinPlaces_of_all_isSome rfl

end Text

/-! ### Series in line -/

namespace Series

section

variable {m : Type → Type} [Monad m]

/-- The texts in the places of a value. -/
def placed (one : Value → m Text) (v : Value) : m (List (Option Text)) :=
  v.places.mapM (Option.mapM one)

/-- The list of the leaves of a value. -/
def inLine (one : Value → m Text) (v : Value) : m Text := commaJoin <$> v.leaves.mapM one

/-- The list of some values, where a series is a group in round brackets and `inner` is what
stands between these. -/
def rows (inner one : Value → m Text) (items : List Value) : m Text :=
  commaJoin <$> items.mapM fun v =>
    if v.isSeries then (fun t => '(' :: (t ++ [')'])) <$> inner v else one v

variable [LawfulMonad m] {one : Value → m Text}

theorem joinPlaces_mapM_append {ps : List (Option Value)} (h : ps ≠ [])
    (qs : List (Option Value)) :
    joinPlaces <$> (ps ++ qs).mapM (Option.mapM one) = do
      let t ← joinPlaces <$> ps.mapM (Option.mapM one)
      let u ← placesTail <$> qs.mapM (Option.mapM one)
      return t ++ u := by
  obtain ⟨p, ps, rfl⟩ := List.exists_cons_of_ne_nil h
  simp [joinPlaces, placesTail, commaJoin_cons, commaTail_append]

theorem placesTail_mapM_append {ps : List (Option Value)} (h : ps ≠ [])
    (qs : List (Option Value)) :
    placesTail <$> (ps ++ qs).mapM (Option.mapM one) = do
      let t ← joinPlaces <$> ps.mapM (Option.mapM one)
      let u ← placesTail <$> qs.mapM (Option.mapM one)
      return comma ++ (t ++ u) := by
  obtain ⟨p, ps, rfl⟩ := List.exists_cons_of_ne_nil h
  simp [joinPlaces, placesTail, commaJoin_cons, commaTail_cons, commaTail_append]

/-- Joining texts that are joined already is joining all their places, as no value is without a
place. -/
theorem commaTail_flats {vs : List Value}
    (h : ∀ v ∈ vs, flat one v = joinPlaces <$> placed one v) :
    commaTail <$> flats one vs =
      placesTail <$> (vs.flatMap Value.places).mapM (Option.mapM one) := by
  induction vs with
  | nil => simp [flats, commaTail, placesTail]
  | cons v vs ih =>
    have hvs := ih fun w hw => h w (by simp [hw])
    -- The comma in front of a value is the one in front of its first place.
    rw [List.flatMap_cons, placesTail_mapM_append v.places_ne_nil, ← hvs, flats, h v (by simp),
      placed]
    simp [commaTail_cons]

/-- What is written for a value in line is the list of its places. -/
theorem flat_eq_joinPlaces (one : Value → m Text) (v : Value) :
    flat one v = joinPlaces <$> placed one v := by
  induction v using Value.series_induction with
  | leaf v hv =>
    rw [flat_of_not_isSeries hv, placed, Value.places_of_not_isSeries hv]
    simp [joinPlaces, Option.mapM]
  | series form items ih =>
    cases items with
    | nil => simp [flat, flats, placed, Value.places, joinPlaces, Option.mapM]
    | cons v vs =>
      rw [placed, Value.places_series_cons, joinPlaces_mapM_append v.places_ne_nil,
        ← commaTail_flats fun w hw => ih w (by simp [hw]), flat, flats, ih v (by simp), placed]
      simp [commaJoin_cons]

/-- Written in line, the items are the items of a series. -/
theorem write_inLine (one : Value → m Text) (form : SeriesForm) (items : List Value) :
    write one false items = joinPlaces <$> placed one (.series form items) := by
  rw [← flat_eq_joinPlaces, flat, write]
  rfl

theorem groupeds_eq_mapM (one : Value → m Text) (items : List Value) :
    groupeds one items = items.mapM (grouped one) := by
  induction items with
  | nil => rfl
  | cons v vs ih => rw [groupeds, ih, List.mapM_cons]

theorem write_nested (one : Value → m Text) (items : List Value) :
    write one true items = rows (fun v => joinPlaces <$> placed one v) one items := by
  have hgrouped : grouped one = fun v => if v.isSeries then
      (fun t => '(' :: (t ++ [')'])) <$> joinPlaces <$> placed one v else one v := by
    funext v
    rw [grouped, flat_eq_joinPlaces]
    simp
  rw [write, if_pos rfl, groupeds_eq_mapM, hgrouped, rows, bind_pure_comp]

/-! ### Lists of leaves -/

theorem filterMap_mapM (ps : List (Option Value)) :
    (ps.filterMap id).mapM one = (List.filterMap id) <$> ps.mapM (Option.mapM one) := by
  induction ps with
  | nil => rw [List.mapM_nil, map_pure]; rfl
  | cons p ps ih =>
    cases p with
    | none =>
      rw [List.filterMap_cons_none rfl, ih, List.mapM_cons, Option.mapM, pure_bind, bind_pure_comp,
        Functor.map_map]
      rfl
    | some x =>
      have htaken : (some x :: ps).filterMap id = x :: ps.filterMap id := rfl
      rw [htaken, List.mapM_cons, ih, List.mapM_cons, Option.mapM]
      simp only [bind_pure_comp, map_bind, Functor.map_map, bind_map_left]
      rfl

theorem inLine_eq_joinTaken (one : Value → m Text) (v : Value) :
    inLine one v = joinTaken <$> placed one v := by
  rw [inLine, ← Value.filterMap_places, filterMap_mapM, placed, Functor.map_map]
  rfl

theorem mapM_of_all_isSome {ps : List (Option Value)} (h : ps.all Option.isSome) :
    ps.mapM (Option.mapM one) = List.map some <$> (ps.filterMap id).mapM one := by
  induction ps with
  | nil => simp
  | cons p ps ih =>
    rw [List.all_cons, Bool.and_eq_true] at h
    obtain ⟨x, rfl⟩ := Option.isSome_iff_exists.1 h.1
    simp [ih h.2, Option.mapM]

/-- In whatever way an item is written, the list of the places of a dense value is that of its
leaves. -/
theorem joinPlaces_of_isDense (one : Value → m Text) {v : Value} (h : v.isDense) :
    joinPlaces <$> placed one v = inLine one v := by
  rcases Value.isDense_iff.1 h with h | h
  · have hsome (ts : List Text) : joinPlaces (ts.map some) = commaJoin ts := by
      rw [joinPlaces, List.map_map]
      exact congrArg commaJoin (List.map_id ts)
    rw [placed, mapM_of_all_isSome h, inLine, ← Value.filterMap_places]
    simp only [Functor.map_map, hsome]
  · rw [inLine_eq_joinTaken, placed]
    match v.places, h with
    | [], _ => simp [joinPlaces, joinTaken]
    | [p], _ => cases p <;> simp [joinPlaces, joinTaken, Option.mapM]

theorem write_of_isDense (one : Value → m Text) {form : SeriesForm} {items : List Value}
    (h : (Value.series form items).isDense) :
    write one false items = inLine one (.series form items) := by
  rw [write_inLine one form, joinPlaces_of_isDense one h]

theorem write_nested_of_isDense (one : Value → m Text) {items : List Value}
    (h : ∀ v ∈ items, v.isDense) : write one true items = rows (inLine one) one items := by
  rw [write_nested, rows, rows]
  congr 1
  induction items with
  | nil => rfl
  | cons v vs ih =>
    rw [List.mapM_cons, List.mapM_cons, joinPlaces_of_isDense one (h v (by simp)),
      ih fun w hw => h w (by simp [hw])]

end

/-! ### Lists of different lengths -/

section

variable (one : Value → Id Text)

theorem run_placed (v : Value) :
    (placed one v).run = v.places.map (Option.map fun x => (one x).run) := by
  rw [placed, List.idRun_mapM]
  apply List.map_congr_left
  intro p _
  cases p <;> rfl

/-- The list of the places in Id comes to the list of the leaves only for a dense value. -/
theorem joinPlaces_eq_inLine_iff (v : Value) :
    joinPlaces <$> placed one v = inLine one v ↔ v.isDense := by
  have hsome : Option.isSome ∘ Option.map (fun x => (one x).run) = Option.isSome := by
    funext p
    cases p <;> rfl
  have hiff := joinPlaces_eq_joinTaken_iff (placed one v).run
  rw [run_placed, List.all_map, hsome, List.length_map, ← Value.isDense_iff,
    ← run_placed] at hiff
  rw [inLine_eq_joinTaken]
  exact hiff

theorem write_eq_inLine_iff (form : SeriesForm) (items : List Value) :
    write one false items = inLine one (.series form items) ↔
      (Value.series form items).isDense := by
  rw [write_inLine one form, joinPlaces_eq_inLine_iff]

theorem run_rows (inner : Value → Id Text) (items : List Value) :
    (rows inner one items).run = commaJoin (items.map fun v =>
      if v.isSeries then '(' :: ((inner v).run ++ [')']) else (one v).run) := by
  rw [rows, Id.run_map, List.idRun_mapM]
  congr 2

/-- A list with groups has no group that is not dense, or one of its groups is too long. -/
theorem write_eq_rows_iff (items : List Value) :
    write one true items = rows (inLine one) one items ↔ ∀ v ∈ items, v.isDense := by
  constructor
  · intro h v hv
    have hrun := congrArg Id.run h
    rw [write_nested, run_rows, run_rows, commaJoin_map_eq_iff] at hrun
    · cases hs : v.isSeries with
      | false => exact Value.isDense_of_not_isSeries hs
      | true =>
        have hgroup := hrun v hv
        simp only [hs, if_true, List.cons.injEq, true_and, List.append_cancel_right_eq] at hgroup
        exact (joinPlaces_eq_inLine_iff one v).1 hgroup
    -- Leaves are written alike in both lists, and a group can only lose commas.
    · intro w _
      have hle := length_joinTaken_le (placed one w).run
      rw [inLine_eq_joinTaken, Id.run_map, Id.run_map]
      split
      · simpa using hle
      · exact Nat.le_refl _
  · exact write_nested_of_isDense one

end

/-! ### Empty series in a list -/

/-- An item of a series is written in its place, and an empty series below it in a place of its
own, where nothing stands between two commas; with groups, the same holds of what is between the
brackets of each.  So the list is that of the leaves wherever the value, or each group of it, is
dense, whatever effects the writing of a leaf has.  Where it has none, the two lists are the same
in no other case. -/
theorem write_flattens_iff (form : SeriesForm) (items : List Value) :
    let v : Value := .series form items
    (∀ {m : Type → Type} [Monad m] [LawfulMonad m] (one : Value → m Text),
        write one false items = joinPlaces <$> placed one v ∧
          write one true items = rows (fun w => joinPlaces <$> placed one w) one items ∧
          (v.isDense → write one false items = inLine one v) ∧
          ((∀ w ∈ items, w.isDense) → write one true items = rows (inLine one) one items)) ∧
      ∀ one : Value → Id Text,
        (write one false items = inLine one v ↔ v.isDense) ∧
          (write one true items = rows (inLine one) one items ↔ ∀ w ∈ items, w.isDense) := by
  refine ⟨fun one => ⟨?_, ?_, ?_, ?_⟩, fun one => ⟨?_, ?_⟩⟩
  · exact write_inLine one form items
  · exact write_nested one items
  · exact write_of_isDense one
  · exact write_nested_of_isDense one
  · exact write_eq_inLine_iff one form items
  · exact write_eq_rows_iff one items

/-- Two dense series, one of them a chain with nothing in it, and a series with an empty one between
two leaves. -/
theorem write_flattens_iff_chain :
    let one : Value → Except Failure Text := fun v => .ok v.plain
    let chain : Value := .series .tuple [.series .list [.series .set []]]
    let dense : Value := .series .list [.ofInt 1, .series .list [.series .list [.ofInt 2]]]
    let gap : List Value := [.ofInt 1, .series .list [], .ofInt 2]
    dense.isDense ∧ write one false [.ofInt 1, .series .list [.series .list [.ofInt 2]]] =
        inLine one dense ∧
      (∀ v ∈ [chain, dense], v.isDense) ∧
      write one true [chain, dense] = rows (inLine one) one [chain, dense] ∧
      inLine one dense = .ok "1, 2".toList ∧
      rows (inLine one) one [chain, dense] = .ok "(), (1, 2)".toList ∧
      ¬(Value.series .list gap).isDense ∧
      write (fun v => (pure v.plain : Id Text)) false gap ≠
        inLine (fun v => pure v.plain) (.series .list gap) := by
  intro one chain dense gap
  have hdense : dense.isDense := by decide
  have hgroups : ∀ v ∈ [chain, dense], v.isDense := by simp; decide
  have hgap : ¬(Value.series .list gap).isDense := by decide
  have hline := ((write_flattens_iff .list _).1 one).2.2.1 hdense
  have hrows := ((write_flattens_iff .list [chain, dense]).1 one).2.2.2 hgroups
  have hother := ((write_flattens_iff .list gap).2 fun v => pure v.plain).1
  exact ⟨hdense, hline, hgroups, hrows, by cbv, by cbv, hgap, fun h => hgap (hother.1 h)⟩

/-- An empty series in front of a number: in line, in a group, and in a list of identifiers. -/
theorem write_shows_empty_items :
    let one : Value → Id Text := fun v => pure ('<' :: (v.plain ++ ['>']))
    let items : List Value := [.series .list [], .ofInt 1]
    let v : Value := .series .list items
    write one false items ≠ inLine one v ∧
      (write one false items).run = ", <1>".toList ∧ (inLine one v).run = "<1>".toList ∧
      write one true [v] ≠ rows (inLine one) one [v] ∧
      (write one true [v]).run = "(, <1>)".toList ∧
      (rows (inLine one) one [v]).run = "(<1>)".toList ∧
      MySQL.nameStyle.escape defaultMinter.policy false
        (.series .list [.series .list [], .ofText ['a']]) = .ok ", `a`".toList := by
  intro one items v
  have hdense : ¬v.isDense := by decide
  refine ⟨?_, by cbv, by cbv, ?_, by cbv, by cbv, by cbv⟩
  · intro h
    exact hdense ((write_eq_inLine_iff one .list items).1 h)
  · intro h
    exact hdense ((write_eq_rows_iff one [v]).1 h v (by simp))

end Series

end SqlWeave
