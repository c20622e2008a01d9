/-
SqlWeave/Proofs/Series.lean

What the writing of a series comes to, for rules that may fail.  A series is written if all
of its items are, and its text is theirs with commas between.

Main results: a series without a failing leaf is written (`exists_flat_eq_ok`,
`exists_groupeds_eq_ok`), and what holds of the text of every leaf and passes on over commas
holds of the text of the series (`flat_induction`).
-/
import SqlWeave.Failure
import SqlWeave.Series
import SqlWeave.Proofs.Value.Leaves

namespace SqlWeave

open Text

/-! ### Joined texts -/

namespace Text

theorem intercalate_cons_of_ne_nil (separator a : Text) {items : List Text} (h : items ≠ []) :
    separator.intercalate (a :: items) = a ++ (separator ++ separator.intercalate items) := by
  obtain ⟨b, items, rfl⟩ := List.exists_cons_of_ne_nil h
  simp [List.intercalate, List.intersperse]

@[simp] theorem commaJoin_nil : commaJoin [] = [] := rfl

@[simp] theorem commaJoin_singleton (a : Text) : commaJoin [a] = a := by
  simp [commaJoin, List.intercalate]

theorem commaJoin_cons_cons (a b : Text) (items : List Text) :
    commaJoin (a :: b :: items) = a ++ (comma ++ commaJoin (b :: items)) :=
  intercalate_cons_of_ne_nil comma a (List.cons_ne_nil b items)

/-- What holds of each of some texts and goes over to two texts with a comma between holds of
all the texts with commas between. -/
theorem commaJoin_induction {Q : Text → Prop} (hjoin : ∀ a b, Q a → Q b → Q (a ++ (comma ++ b)))
    {items : List Text} (hne : items ≠ []) (h : ∀ t ∈ items, Q t) : Q (commaJoin items) := by
  induction items with
  | nil => contradiction
  | cons a items ih =>
    cases items with
    | nil => simpa using h a (by simp)
    | cons b items =>
      rw [commaJoin_cons_cons]
      exact hjoin _ _ (h a (by simp)) (ih (by simp) fun t ht => h t (by simp [ht]))

end Text

/-! ### Results in sequence -/

theorem Except.bind_eq_ok_iff {α β : Type} {x : Except Failure α} {f : α → Except Failure β}
    {b : β} : x >>= f = .ok b ↔ ∃ a, x = .ok a ∧ f a = .ok b := by
  cases x <;> simp [bind, Except.bind]

theorem Except.map_eq_ok_iff {α β : Type} {x : Except Failure α} {f : α → β} {b : β} :
    x.map f = .ok b ↔ ∃ a, x = .ok a ∧ f a = b := by
  cases x <;> simp [Except.map]

theorem Except.bind_eq_error_iff {α β : Type} {x : Except Failure α} {f : α → Except Failure β}
    {e : Failure} : x >>= f = .error e ↔ x = .error e ∨ ∃ a, x = .ok a ∧ f a = .error e := by
  cases x <;> simp [bind, Except.bind]

theorem Except.map_eq_error_iff {α β : Type} {x : Except Failure α} {f : α → β} {e : Failure} :
    x.map f = .error e ↔ x = .error e := by
  cases x <;> simp [Except.map]

theorem Except.exists_of_mem_mapM {α β : Type} {f : α → Except Failure β} {as : List α}
    {bs : List β} {b : β} (h : as.mapM f = .ok bs) (hb : b ∈ bs) : ∃ a ∈ as, f a = .ok b := by
  induction as generalizing bs with
  | nil =>
    obtain rfl : [] = bs := Except.ok.inj h
    contradiction
  | cons a as ih =>
    rw [List.mapM_cons] at h
    obtain ⟨b', hb', h⟩ := Except.bind_eq_ok_iff.1 h
    obtain ⟨bs', hbs', h⟩ := Except.bind_eq_ok_iff.1 h
    obtain rfl : b' :: bs' = bs := Except.ok.inj h
    rcases List.mem_cons.1 hb with rfl | hb
    · exact ⟨a, by simp, hb'⟩
    · obtain ⟨a', ha', he⟩ := ih hbs' hb
      exact ⟨a', by simp [ha'], he⟩

namespace Series

variable {one : Value → Except Failure Text} {t : Text} {ts : List Text}

/-! ### Series in line -/

theorem flat_series_eq_ok_iff {form : SeriesForm} {items : List Value} :
    flat one (.series form items) = .ok t ↔ ∃ ts, flats one items = .ok ts ∧ commaJoin ts = t := by
  rw [flat, Except.bind_eq_ok_iff]
  simp [pure, Except.pure]

theorem flats_nil_eq_ok_iff : flats one [] = .ok ts ↔ ts = [] := by
  simp [flats, pure, Except.pure, eq_comm]

theorem flats_cons_eq_ok_iff {v : Value} {vs : List Value} :
    flats one (v :: vs) = .ok ts ↔
      ∃ u us, flat one v = .ok u ∧ flats one vs = .ok us ∧ u :: us = ts := by
  rw [flats, Except.bind_eq_ok_iff]
  constructor
  · rintro ⟨u, hu, h⟩
    obtain ⟨us, hus, h⟩ := Except.bind_eq_ok_iff.1 h
    exact ⟨u, us, hu, hus, Except.ok.inj h⟩
  · rintro ⟨u, us, hu, hus, rfl⟩
    exact ⟨u, hu, Except.bind_eq_ok_iff.2 ⟨us, hus, rfl⟩⟩

/-- A value is written if all of its leaves are. -/
theorem exists_flat_eq_ok {v : Value} (h : ∀ x ∈ v.leaves, ∃ t, one x = .ok t) :
    ∃ t, flat one v = .ok t := by
  induction v using Value.series_induction with
  | leaf v hv =>
    rw [flat_of_not_isSeries hv]
    exact h v (by simp [Value.leaves_of_not_isSeries hv])
  | series form items ih =>
    have hall : ∃ ts, flats one items = .ok ts := by
      rw [Value.leaves_series] at h
      induction items with
      | nil => exact ⟨[], rfl⟩
      | cons v vs ihs =>
        obtain ⟨u, hu⟩ := ih v (by simp) fun x hx => h x (by simp [hx])
        obtain ⟨us, hus⟩ := ihs (fun w hw => ih w (by simp [hw])) fun x hx =>
          h x (by rw [List.flatMap_cons]; exact List.mem_append_right _ hx)
        exact ⟨u :: us, flats_cons_eq_ok_iff.2 ⟨u, us, hu, hus, rfl⟩⟩
    obtain ⟨ts, hts⟩ := hall
    exact ⟨commaJoin ts, flat_series_eq_ok_iff.2 ⟨ts, hts, rfl⟩⟩

theorem flat_series_eq_error_iff {form : SeriesForm} {items : List Value} {e : Failure} :
    flat one (.series form items) = .error e ↔ flats one items = .error e := by
  rw [flat, Except.bind_eq_error_iff]
  simp [pure, Except.pure]

theorem flats_cons_eq_error_iff {v : Value} {vs : List Value} {e : Failure} :
    flats one (v :: vs) = .error e ↔
      flat one v = .error e ∨ ∃ u, flat one v = .ok u ∧ flats one vs = .error e := by
  rw [flats, Except.bind_eq_error_iff]
  refine or_congr_right (exists_congr fun u => and_congr_right fun _ => ?_)
  rw [Except.bind_eq_error_iff]
  simp [pure, Except.pure]

/-- If a value is refused, it is for one of its leaves. -/
theorem exists_of_flat_eq_error {v : Value} {e : Failure} (h : flat one v = .error e) :
    ∃ x ∈ v.leaves, one x = .error e := by
  induction v using Value.series_induction with
  | leaf v hv =>
    rw [flat_of_not_isSeries hv] at h
    exact ⟨v, by simp [Value.leaves_of_not_isSeries hv], h⟩
  | series form items ih =>
    rw [flat_series_eq_error_iff] at h
    rw [Value.leaves_series]
    induction items with
    | nil => contradiction
    | cons v vs ihs =>
      rw [List.flatMap_cons]
      rcases flats_cons_eq_error_iff.1 h with hv | ⟨u, -, hvs⟩
      · obtain ⟨x, hx, he⟩ := ih v (by simp) hv
        exact ⟨x, List.mem_append_left _ hx, he⟩
      · obtain ⟨x, hx, he⟩ := ihs (fun w hw => ih w (by simp [hw])) hvs
        exact ⟨x, List.mem_append_right _ hx, he⟩

theorem exists_of_mem_flats {vs : List Value} (h : flats one vs = .ok ts) (ht : t ∈ ts) :
    ∃ v ∈ vs, flat one v = .ok t := by
  induction vs generalizing ts with
  | nil =>
    obtain rfl := flats_nil_eq_ok_iff.1 h
    simp at ht
  | cons v vs ih =>
    obtain ⟨u, us, hu, hus, rfl⟩ := flats_cons_eq_ok_iff.1 h
    rcases List.mem_cons.1 ht with rfl | ht
    · exact ⟨v, by simp, hu⟩
    · obtain ⟨w, hw, he⟩ := ih hus ht
      exact ⟨w, by simp [hw], he⟩

/-- What holds of the empty text and of the text of every leaf, and goes over to two texts with
a comma between, holds of the text of a value. -/
theorem flat_induction {Q : Text → Prop} (hnil : Q [])
    (hjoin : ∀ a b, Q a → Q b → Q (a ++ (comma ++ b))) {v : Value}
    (hone : ∀ x ∈ v.leaves, ∀ t, one x = .ok t → Q t) (h : flat one v = .ok t) : Q t := by
  induction v using Value.series_induction generalizing t with
  | leaf v hv =>
    rw [flat_of_not_isSeries hv] at h
    exact hone v (by simp [Value.leaves_of_not_isSeries hv]) t h
  | series form items ih =>
    obtain ⟨ts, hts, rfl⟩ := flat_series_eq_ok_iff.1 h
    by_cases hne : ts = []
    · rw [hne]
      exact hnil
    · apply commaJoin_induction hjoin hne
      intro u hu
      obtain ⟨w, hw, he⟩ := exists_of_mem_flats hts hu
      refine ih w hw (fun x hx => hone x ?_) he
      rw [Value.leaves_series]
      exact List.mem_flatMap.2 ⟨w, hw, hx⟩

/-! ### Series that nest -/

theorem groupeds_nil_eq_ok_iff : groupeds one [] = .ok ts ↔ ts = [] := by
  simp [groupeds, pure, Except.pure, eq_comm]

theorem groupeds_cons_eq_ok_iff {v : Value} {vs : List Value} :
    groupeds one (v :: vs) = .ok ts ↔
      ∃ u us, grouped one v = .ok u ∧ groupeds one vs = .ok us ∧ u :: us = ts := by
  rw [groupeds, Except.bind_eq_ok_iff]
  constructor
  · rintro ⟨u, hu, h⟩
    obtain ⟨us, hus, h⟩ := Except.bind_eq_ok_iff.1 h
    exact ⟨u, us, hu, hus, Except.ok.inj h⟩
  · rintro ⟨u, us, hu, hus, rfl⟩
    exact ⟨u, hu, Except.bind_eq_ok_iff.2 ⟨us, hus, rfl⟩⟩

theorem grouped_of_not_isSeries {v : Value} (h : v.isSeries = false) :
    grouped one v = one v := by
  simp [grouped, h]

theorem grouped_of_isSeries {v : Value} (h : v.isSeries) :
    grouped one v = (flat one v).map fun u => '(' :: (u ++ [')']) := by
  rw [grouped, if_pos h]
  cases flat one v <;> rfl

theorem exists_of_mem_groupeds {vs : List Value} (h : groupeds one vs = .ok ts) (ht : t ∈ ts) :
    ∃ v ∈ vs, grouped one v = .ok t := by
  induction vs generalizing ts with
  | nil =>
    obtain rfl := groupeds_nil_eq_ok_iff.1 h
    simp at ht
  | cons v vs ih =>
    obtain ⟨u, us, hu, hus, rfl⟩ := groupeds_cons_eq_ok_iff.1 h
    rcases List.mem_cons.1 ht with rfl | ht
    · exact ⟨v, by simp, hu⟩
    · obtain ⟨w, hw, he⟩ := ih hus ht
      exact ⟨w, by simp [hw], he⟩

theorem write_nested_eq_ok_iff {vs : List Value} :
    write one true vs = .ok t ↔ ∃ ts, groupeds one vs = .ok ts ∧ commaJoin ts = t := by
  rw [write, if_pos rfl, Except.bind_eq_ok_iff]
  simp [pure, Except.pure]

theorem groupeds_ne_nil {vs : List Value} (h : groupeds one vs = .ok ts) (hne : vs ≠ []) :
    ts ≠ [] := by
  obtain ⟨v, vs, rfl⟩ := List.exists_cons_of_ne_nil hne
  obtain ⟨u, us, -, -, rfl⟩ := groupeds_cons_eq_ok_iff.1 h
  simp

theorem exists_groupeds_eq_ok {vs : List Value}
    (h : ∀ v ∈ vs, ∀ x ∈ v.leaves, ∃ t, one x = .ok t) : ∃ ts, groupeds one vs = .ok ts := by
  induction vs with
  | nil => exact ⟨[], rfl⟩
  | cons v vs ih =>
    obtain ⟨us, hus⟩ := ih fun w hw => h w (by simp [hw])
    obtain ⟨u, hu⟩ : ∃ u, grouped one v = .ok u := by
      obtain ⟨u, hu⟩ := exists_flat_eq_ok (h v (by simp))
      cases hv : v.isSeries with
      | false =>
        rw [flat_of_not_isSeries hv] at hu
        exact ⟨u, by rw [grouped_of_not_isSeries hv, hu]⟩
      | true => exact ⟨_, by rw [grouped_of_isSeries hv, hu]; rfl⟩
    exact ⟨u :: us, groupeds_cons_eq_ok_iff.2 ⟨u, us, hu, hus, rfl⟩⟩

end Series

end SqlWeave
