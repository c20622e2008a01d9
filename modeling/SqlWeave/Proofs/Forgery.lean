/-
SqlWeave/Proofs/Forgery.lean

Forged fragments and identifiers.  One that the policy does not trust is of no kind of its own, so
every rule of writing falls back on its plain description: its content.  A text of that content
takes another branch of each rule, and comes to the same text or the same failure in all of them.

Two values are compared: a value, and the same value with plain texts in the place of its
forgeries.  A rule for single values that does not tell the two apart (`SeesContent`) is carried
through series of any depth; what remains is that each rule of the dialects is of this kind.

Main results: forgeries and plain texts are written alike, free-standing, as identifiers and
inside open constructs (`written_as_content`).
-/
import SqlWeave.Proofs.NamesReadBack

namespace SqlWeave

open Text

namespace Value

/-! ### Texts in the place of forgeries -/

mutual

/-- The value with a text in the place of each fragment and identifier that is not trusted.
Series of the forms that `enters` picks are gone through, to any depth. -/
def disarmed (trust : TrustPolicy) (enters : SeriesForm → Bool) : Value → Value
  | series form items =>
    if enters form then series form (disarmedAll trust enters items) else series form items
  | fragment f => if trust.trustsFragment f then fragment f else ofText f.content
  | identifier i => if trust.trustsIdentifier i then identifier i else ofText i.content
  | v => v

/-- Each of the values with texts in the place of forgeries. -/
def disarmedAll (trust : TrustPolicy) (enters : SeriesForm → Bool) : List Value → List Value
  | [] => []
  | v :: vs => disarmed trust enters v :: disarmedAll trust enters vs

end

variable {trust : TrustPolicy} {enters : SeriesForm → Bool} {v : Value}

theorem disarmedAll_eq_map (vs : List Value) :
    disarmedAll trust enters vs = vs.map (disarmed trust enters) := by
  induction vs with
  | nil => rfl
  | cons v vs ih => rw [disarmedAll, ih, List.map_cons]

theorem disarmed_series (form : SeriesForm) (items : List Value) :
    disarmed trust enters (series form items) =
      series form (if enters form then items.map (disarmed trust enters) else items) := by
  rw [disarmed, disarmedAll_eq_map]
  split <;> rfl

/-- What becomes of a value: it stays, or keeps the form of its series, or was a forgery. -/
theorem disarmed_cases (v : Value) :
    v.disarmed trust enters = v ∨
      (∃ form items changed, v = series form items ∧
        v.disarmed trust enters = series form changed) ∨
      (∃ f, trust.trustsFragment f = false ∧ v = fragment f ∧
        v.disarmed trust enters = ofText f.content) ∨
      ∃ i, trust.trustsIdentifier i = false ∧ v = identifier i ∧
        v.disarmed trust enters = ofText i.content := by
  cases v with
  | series form items => exact .inr (.inl ⟨form, items, _, rfl, disarmed_series form items⟩)
  | fragment f =>
    cases hf : trust.trustsFragment f with
    | true => exact .inl (by rw [disarmed, if_pos hf])
    | false => exact .inr (.inr (.inl ⟨f, hf, rfl, by rw [disarmed, hf]; rfl⟩))
  | identifier i =>
    cases hi : trust.trustsIdentifier i with
    | true => exact .inl (by rw [disarmed, if_pos hi])
    | false => exact .inr (.inr (.inr ⟨i, hi, rfl, by rw [disarmed, hi]; rfl⟩))
  | _ => exact .inl rfl

theorem isSeries_disarmed (v : Value) : (v.disarmed trust enters).isSeries = v.isSeries := by
  obtain h | ⟨_, _, _, rfl, h⟩ | ⟨_, _, rfl, h⟩ | ⟨_, _, rfl, h⟩ := v.disarmed_cases <;>
    rw [h] <;> rfl

theorem disarmed_ne_blob (hv : ∀ form data, v ≠ blob form data) (form : BlobForm)
    (data : List UInt8) : v.disarmed trust enters ≠ blob form data := by
  obtain h | ⟨_, _, _, -, h⟩ | ⟨_, _, -, h⟩ | ⟨_, _, -, h⟩ := v.disarmed_cases <;> rw [h]
  · exact hv form data
  all_goals nofun

/-- A forgery can be taken apart no more than a text can. -/
theorem pairs?_disarmed (v : Value) :
    Grammar.pairs? (v.disarmed trust enters) = Grammar.pairs? v := by
  obtain h | ⟨_, _, _, rfl, h⟩ | ⟨_, _, rfl, h⟩ | ⟨_, _, rfl, h⟩ := v.disarmed_cases <;>
    rw [h] <;> rfl

end Value

/-! ### Rules that see the content alone -/

/-- A rule that makes the same of a forgery and of a text with its content. -/
structure SeesContent {β : Type} (trust : TrustPolicy) (one : Value → β) : Prop where
  fragment : ∀ {f : Fragment}, trust.trustsFragment f = false →
    one (.fragment f) = one (.ofText f.content)
  identifier : ∀ {i : Identifier}, trust.trustsIdentifier i = false →
    one (.identifier i) = one (.ofText i.content)

namespace SeesContent

variable {trust : TrustPolicy} {enters : SeriesForm → Bool} {m : Type → Type} [Monad m]
  {one : Value → m Text}

theorem disarmed_leaf {β : Type} {one : Value → β} (h : SeesContent trust one) {v : Value}
    (hv : v.isSeries = false) : one (v.disarmed trust enters) = one v := by
  obtain hsame | ⟨_, _, _, rfl, -⟩ | ⟨f, hf, rfl, htext⟩ | ⟨i, hi, rfl, htext⟩ := v.disarmed_cases
  · rw [hsame]
  · contradiction
  · rw [htext, h.fragment hf]
  · rw [htext, h.identifier hi]

/-- The rule goes through a list of values item by item. -/
theorem flats_map {items : List Value} {change : Value → Value}
    (h : ∀ v ∈ items, Series.flat one (change v) = Series.flat one v) :
    Series.flats one (items.map change) = Series.flats one items := by
  induction items with
  | nil => rfl
  | cons v vs ih =>
    rw [List.map_cons, Series.flats, Series.flats, h v (by simp), ih fun w hw => h w (by simp [hw])]

theorem flat_disarmed (h : SeesContent trust one) (v : Value) :
    Series.flat one (v.disarmed trust enters) = Series.flat one v := by
  induction v using Value.series_induction with
  | leaf v hv =>
    rw [Series.flat_of_not_isSeries hv, Series.flat_of_not_isSeries (by rwa [v.isSeries_disarmed]),
      h.disarmed_leaf hv]
  | series form items ih =>
    rw [Value.disarmed_series, Series.flat, Series.flat]
    split
    · rw [flats_map ih]
    · rfl

theorem grouped_disarmed (h : SeesContent trust one) (v : Value) :
    Series.grouped one (v.disarmed trust enters) = Series.grouped one v := by
  rw [Series.grouped, Series.grouped, v.isSeries_disarmed, h.flat_disarmed]
  cases hv : v.isSeries with
  | true => rfl
  | false => exact h.disarmed_leaf hv

theorem groupeds_disarmed (h : SeesContent trust one) (items : List Value) :
    Series.groupeds one (items.map (Value.disarmed trust enters)) = Series.groupeds one items := by
  induction items with
  | nil => rfl
  | cons v vs ih => rw [List.map_cons, Series.groupeds, Series.groupeds, h.grouped_disarmed, ih]

end SeesContent

/-! ### The rules of the dialects -/

variable {σ : Type} {enters : SeriesForm → Bool}

theorem Grammar.seesContent_atom (G : Grammar σ) (s : Surroundings) (zone : Text) :
    SeesContent s.trust (G.atom s zone) where
  fragment hf := by simp [Grammar.atom, hf, Value.ofText]
  identifier hi := by simp [Grammar.atom, hi, Value.ofText]

theorem NameStyle.seesContent_escapeOne (style : NameStyle) (trust : TrustPolicy)
    (forbidQualified : Bool) : SeesContent trust (style.escapeOne trust forbidQualified) where
  fragment hf := by simp [NameStyle.escapeOne, hf, Value.ofText, Value.plain, Face.plain]
  identifier hi := by simp [NameStyle.escapeOne, hi, Value.ofText, Value.plain, Face.plain]

theorem seesContent_spliceOne (s : Surroundings) (zone : Text) :
    SeesContent s.trust fun v => (pure (spliceOne s zone v) : Id Text) where
  fragment _ := rfl
  identifier _ := rfl

theorem Grammar.item_disarmed (G : Grammar σ) (s : Surroundings) (zone : Text) (v : Value) :
    G.item s zone (v.disarmed s.trust enters) = G.item s zone v := by
  have h := G.seesContent_atom s zone
  cases hv : v.isSeries with
  | false =>
    rw [G.item_of_not_isSeries hv, G.item_of_not_isSeries (by rwa [v.isSeries_disarmed]),
      h.disarmed_leaf hv]
  | true =>
    obtain ⟨form, items, rfl⟩ := Value.exists_of_isSeries hv
    rw [Value.disarmed_series]
    show Series.write _ true _ = Series.write _ true _
    rw [Series.write, Series.write, if_pos rfl, if_pos rfl]
    split
    · rw [h.groupeds_disarmed]
    · rfl

theorem Grammar.escape_disarmed (G : Grammar σ) (s : Surroundings) (options : Options)
    (v : Value) : G.escape s options (v.disarmed s.trust enters) = G.escape s options v := by
  rw [Grammar.escape, Grammar.escape, v.pairs?_disarmed, G.item_disarmed]

theorem NameStyle.escape_disarmed (style : NameStyle) (trust : TrustPolicy)
    (forbidQualified : Bool) (v : Value) :
    style.escape trust forbidQualified (v.disarmed trust enters) =
      style.escape trust forbidQualified v :=
  (style.seesContent_escapeOne trust forbidQualified).flat_disarmed v

theorem spliceText_disarmed (s : Surroundings) (options : Options) (v : Value) :
    spliceText s options (v.disarmed s.trust enters) = spliceText s options v := by
  show Series.flat (m := Id) _ _ = Series.flat (m := Id) _ _
  exact (seesContent_spliceOne s options.timeZone).flat_disarmed v

theorem MySQL.splice_disarmed (s : Surroundings) (options : Options) (delimiter : Text)
    (v : Value) :
    MySQL.splice s options delimiter (v.disarmed s.trust enters) =
      MySQL.splice s options delimiter v := by
  rw [MySQL.splice, MySQL.splice, NameStyle.escape_disarmed, spliceText_disarmed]

namespace Postgres

/-- A refusal shows the text of a forgery as it shows that of a text. -/
theorem shownAs_disarmed (s : Surroundings) (options : Options) (v : Value) :
    shownAs (v.disarmed s.trust enters) (spliceText s options v) =
      shownAs v (spliceText s options v) := by
  obtain h | ⟨_, _, _, rfl, h⟩ | ⟨_, _, rfl, h⟩ | ⟨_, _, rfl, h⟩ := v.disarmed_cases <;>
    rw [h] <;> rfl

theorem spliceString_disarmed (s : Surroundings) (options : Options) (place : Place)
    (delimiter : Text) (v : Value) :
    spliceString place delimiter (v.disarmed s.trust enters) (spliceText s options v) =
      spliceString place delimiter v (spliceText s options v) := by
  cases place with
  | dollar => rw [spliceString, spliceString, shownAs_disarmed]
  | _ => rfl

/-- What is no byte string is spliced as its text, outside identifiers. -/
theorem splice_of_ne_blob {s : Surroundings} {options : Options} {delimiter : Text} {place : Place}
    {v : Value} (hp : Place.ofDelimiter? delimiter = some place)
    (hname : ∀ unicode, place ≠ .name unicode) (hv : ∀ form data, v ≠ .blob form data) :
    splice s options delimiter v =
      spliceString place delimiter v (spliceText s options v) := by
  cases place with
  | name unicode => exact absurd rfl (hname unicode)
  | bits | hex =>
    rw [splice, hp]
    cases v with
    | blob form data => exact absurd rfl (hv form data)
    | _ => rfl
  | plain | escape | continuation | unicode | dollar =>
    exact splice_eq_spliceString hp hname (by simp) (by simp)

theorem splice_disarmed (s : Surroundings) (options : Options) (delimiter : Text) (v : Value) :
    splice s options delimiter (v.disarmed s.trust enters) = splice s options delimiter v := by
  cases hp : Place.ofDelimiter? delimiter with
  | none => rw [splice, splice, hp]
  | some place =>
    by_cases hname : ∃ unicode, place = .name unicode
    · obtain ⟨unicode, rfl⟩ := hname
      rw [splice, splice, hp]
      show ((nameStyle unicode).escape _ _ _).map _ = ((nameStyle unicode).escape _ _ _).map _
      rw [NameStyle.escape_disarmed]
    rw [not_exists] at hname
    by_cases hblob : ∃ form data, v = .blob form data
    · obtain ⟨form, data, rfl⟩ := hblob
      rfl
    · simp only [not_exists] at hblob
      rw [splice_of_ne_blob hp hname (Value.disarmed_ne_blob hblob), spliceText_disarmed,
        spliceString_disarmed, splice_of_ne_blob hp hname hblob]

end Postgres

/-- A fragment or identifier that is not trusted has only the power of its text: with plain texts
in the place of all forgeries, at the root of a value and within its series, the same is written
or the same failure comes up, wherever the value stands. -/
theorem written_as_content (f : Family) (unicode : Bool) (s : Surroundings) (options : Options)
    (enters : SeriesForm → Bool) (v : Value) :
    f.grammar.escape s options (v.disarmed s.trust enters) = f.grammar.escape s options v ∧
      (∀ forbidQualified,
        (f.nameStyle unicode).escape s.trust forbidQualified (v.disarmed s.trust enters) =
          (f.nameStyle unicode).escape s.trust forbidQualified v) ∧
      ∀ delimiter, f.grammar.splice s options delimiter (v.disarmed s.trust enters) =
        f.grammar.splice s options delimiter v := by
  refine ⟨f.grammar.escape_disarmed s options v, fun forbidQualified => ?_, fun delimiter => ?_⟩
  · exact (f.nameStyle unicode).escape_disarmed s.trust forbidQualified v
  · cases f with
    | mysql => exact MySQL.splice_disarmed s options delimiter v
    | postgres => exact Postgres.splice_disarmed s options delimiter v

/-- A fragment that no minter made is quoted within a list, and a comma in it separates nothing. -/
example :
    MySQL.grammar.escape ⟨defaultMinter.policy, .zero⟩ .default
        (.series .list [.fragment ⟨"1, 2".toList, none⟩, .ofText "3".toList]) =
      .ok "'1, 2', '3'".toList := by
  cbv

end SqlWeave
