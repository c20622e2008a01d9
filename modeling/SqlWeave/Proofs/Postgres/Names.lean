/-
SqlWeave/Proofs/Postgres/Names.lean

Values in open identifiers of Postgres.  A value is written as complete identifiers, with dots
between the pieces of a name and commas between the items of a series; then the first opener
and the last quote are taken off, because the open identifier has them already.  That is right
when an identifier comes first and last.  An empty series leaves only a comma in its place:
where one stands first or last, the quotes at that end are not taken off.

Main results: the text of a value is a list of identifiers (`listed_of_flat`), and it stays
inside the open identifier for every value of a shape exactly if that shape has no leaf at all
or begins and ends with one (`splice_name_iff_isFlush`).
-/
import SqlWeave.Proofs.Postgres.Literal
import SqlWeave.Proofs.Postgres.Reading
import SqlWeave.Proofs.Series
import SqlWeave.Proofs.Value.Fragments

namespace SqlWeave.Postgres

open Text

/-! ### Texts inside identifiers -/

/-- The identifier that new names are written as. -/
def nameQuote (unicode : Bool) : Quote := if unicode then .unicodeName false else .name

theorem nameOpener_eq (unicode : Bool) : nameOpener unicode = (nameQuote unicode).opener := by
  cases unicode <;> rfl

theorem place_nameQuote (unicode : Bool) : (nameQuote unicode).place = .name unicode := by
  cases unicode <;> rfl

/-- A text that an open identifier takes in: the identifier is open after it, or another one
of the same kind, and a double quote that follows closes that one. -/
def StaysInName (q : Quote) (text : Text) : Prop :=
  (∃ q', q'.folded = q.folded ∧
    lexer.transition (some (.quoted q)) text = .ok (some (.quoted q'))) ∧
  ∀ rest, rest.head? ≠ some quotation →
    lexer.transition (some (.quoted q)) (text ++ quotation :: rest) = lexer.transition none rest

/-- A text that the identifiers of one kind take in. -/
def IsNameBody (unicode : Bool) (text : Text) : Prop :=
  ∀ q : Quote, q.place = .name unicode → StaysInName q text

theorem folded_eq_of_place_eq {q q' : Quote} {unicode : Bool} (h : q.place = .name unicode)
    (h' : q'.place = .name unicode) : q.folded = q'.folded := by
  cases q <;> cases q' <;> simp_all [Quote.place, Quote.folded]

theorem mark_of_place {q : Quote} {unicode : Bool} (h : q.place = .name unicode) :
    q.mark = quotation ∧ q.escapes = unicode ∧ q.after = none := by
  cases q <;> simp_all [Quote.place, Quote.mark, Quote.isName, Quote.escapes, Quote.after,
    Quote.folded]

theorem transition_name_of_closed {q : Quote} {unicode : Bool} {text rest : Text}
    (hq : q.place = .name unicode) (h : readBody quotation unicode text = .closed rest) :
    lexer.transition (some (.quoted q)) text = lexer.transition none rest := by
  obtain ⟨hmark, hescapes, hafter⟩ := mark_of_place hq
  rw [← hmark, ← hescapes] at h
  rw [transition_quoted_of_closed h, hafter]

theorem isNameBody_of_inside {unicode : Bool} {text : Text}
    (h : readBody quotation unicode text = .inside) : IsNameBody unicode text := by
  intro q hq
  obtain ⟨hmark, hescapes, -⟩ := mark_of_place hq
  refine ⟨⟨q, rfl, ?_⟩, ?_⟩
  · apply transition_quoted_of_inside
    rw [hmark, hescapes, h]
  · intro rest hrest
    apply transition_name_of_closed hq
    rw [readBody_append_of_inside h, readBody_of_head?_ne hrest]

/-- The characters between identifiers: dots, commas and blanks. -/
def IsSpacing (text : Text) : Prop := ∀ c ∈ text, c = '.' ∨ c = ',' ∨ c = ' '

theorem isSpacing_nil : IsSpacing [] := by simp [IsSpacing]

theorem isSpacing_dot : IsSpacing ['.'] := by simp [IsSpacing]

theorem isSpacing_comma : IsSpacing comma := by simp [IsSpacing, comma]

theorem IsSpacing.append {a b : Text} (ha : IsSpacing a) (hb : IsSpacing b) :
    IsSpacing (a ++ b) := by
  intro c hc
  rcases List.mem_append.1 hc with hc | hc
  · exact ha c hc
  · exact hb c hc

theorem transition_none_spacing_append {a : Text} (ha : IsSpacing a) (t : Text) :
    lexer.transition none (a ++ t) = lexer.transition none t := by
  apply transition_none_idle_append
  intro c hc
  rcases ha c hc with rfl | rfl | rfl <;> decide

theorem readBody_spacing {unicode : Bool} {a : Text} (ha : IsSpacing a) :
    readBody quotation unicode a = .inside := by
  apply readBody_of_forall
  intro c hc
  rcases ha c hc with rfl | rfl | rfl <;> decide +revert

theorem IsSpacing.head?_ne {a : Text} (ha : IsSpacing a) : a.head? ≠ some quotation := by
  intro h
  exact absurd (ha quotation (List.mem_of_head? h)) (by decide)

/-- Two bodies with a closing quote, a spacing and an opener between them make a body. -/
theorem IsNameBody.append {unicode : Bool} {a b gap : Text} (ha : IsNameBody unicode a)
    (hb : IsNameBody unicode b) (hgap : IsSpacing gap) (hne : gap ≠ []) :
    IsNameBody unicode (a ++ quotation :: (gap ++ (nameOpener unicode ++ b))) := by
  have hhead (t : Text) : (gap ++ t).head? ≠ some quotation := by
    obtain ⟨c, gap, rfl⟩ := List.exists_cons_of_ne_nil hne
    exact hgap.head?_ne
  have hopened (t : Text) : lexer.transition none (gap ++ (nameOpener unicode ++ t)) =
      lexer.transition (some (.quoted (nameQuote unicode))) t := by
    rw [transition_none_spacing_append hgap, nameOpener_eq]
    exact transition_none_of_opened (opened?_opener (s := .quoted (nameQuote unicode)) trivial t)
  intro q hq
  obtain ⟨⟨q', hfolded, hstays⟩, hcloses⟩ := hb (nameQuote unicode) (place_nameQuote unicode)
  refine ⟨⟨q', ?_, ?_⟩, ?_⟩
  · rw [hfolded]
    exact folded_eq_of_place_eq (place_nameQuote unicode) hq
  · rw [(ha q hq).2 _ (hhead _), hopened, hstays]
  · intro rest hrest
    rw [List.append_assoc, List.cons_append, List.append_assoc, List.append_assoc,
      (ha q hq).2 _ (hhead _), hopened, hcloses rest hrest]

/-! ### Lists of identifiers -/

/-- A list of identifiers of one kind, of which the first begins with `start`.  The flags tell
whether an identifier comes first, and last. -/
inductive Listed (unicode : Bool) (start : Text) (leads trails : Bool) : Text → Prop
  | intro {before body after : Text} (hbefore : IsSpacing before) (hafter : IsSpacing after)
      (hbody : IsNameBody unicode body) (hstart : start <+: body)
      (hleads : leads = before.isEmpty) (htrails : trails = after.isEmpty) :
      Listed unicode start leads trails
        (before ++ (nameOpener unicode ++ (body ++ quotation :: after)))

namespace Listed

variable {unicode leads trails leads' trails' : Bool} {start a b gap : Text}

theorem of_body (hbody : IsNameBody unicode a) (hstart : start <+: a) :
    Listed unicode start true true (nameOpener unicode ++ (a ++ [quotation])) :=
  .intro isSpacing_nil isSpacing_nil hbody hstart rfl rfl

theorem append (ha : Listed unicode start leads trails a)
    (hb : Listed unicode start leads' trails' b) (hgap : IsSpacing gap) (hne : gap ≠ []) :
    Listed unicode start leads trails' (a ++ (gap ++ b)) := by
  obtain ⟨hbefore, hafter, hbody, hstart, hleads, -⟩ := ha
  rename_i before body after
  obtain ⟨hbefore', hafter', hbody', -, -, htrails⟩ := hb
  rename_i before' body' after'
  have hgap' : IsSpacing (after ++ (gap ++ before')) := hafter.append (hgap.append hbefore')
  have hboth := hbody.append hbody' hgap' (by simp [hne])
  have hstart' := hstart.trans (List.prefix_append body
    (quotation :: (after ++ (gap ++ before') ++ (nameOpener unicode ++ body'))))
  have := Listed.intro hbefore hafter' hboth hstart' hleads htrails
  simpa using this

theorem before (ha : Listed unicode start leads trails a) (hgap : IsSpacing gap) (hne : gap ≠ []) :
    Listed unicode start false trails (gap ++ a) := by
  obtain ⟨hbefore, hafter, hbody, hstart, -, htrails⟩ := ha
  rename_i before body after
  have hempty : (gap ++ before).isEmpty = false := by simp [List.isEmpty_eq_false_iff, hne]
  have := Listed.intro (hgap.append hbefore) hafter hbody hstart hempty.symm htrails
  simpa using this

theorem after (ha : Listed unicode start leads trails a) (hgap : IsSpacing gap) (hne : gap ≠ []) :
    Listed unicode start leads false (a ++ gap) := by
  obtain ⟨hbefore, hafter, hbody, hstart, hleads, -⟩ := ha
  rename_i before body after
  have hempty : (after ++ gap).isEmpty = false := by simp [List.isEmpty_eq_false_iff, hne]
  have := Listed.intro hbefore (hafter.append hgap) hbody hstart hleads hempty.symm
  simpa using this

end Listed

/-! ### The text of a value as a list of identifiers -/

theorem listed_of_intercalate {unicode : Bool} {write : Text → Text}
    (hwrite : ∀ p, IsNameBody unicode (write p)) {parts : List Text} (hne : parts ≠ []) :
    Listed unicode [] true true
      (['.'].intercalate (parts.map fun p => nameOpener unicode ++ write p ++ [quotation])) := by
  induction parts with
  | nil => contradiction
  | cons p parts ih =>
    have hp : Listed unicode [] true true (nameOpener unicode ++ write p ++ [quotation]) := by
      rw [List.append_assoc]
      exact Listed.of_body (hwrite p) List.nil_prefix
    cases parts with
    | nil => simpa [List.intercalate] using hp
    | cons p' parts =>
      rw [List.map_cons, intercalate_cons_of_ne_nil _ _ (by simp)]
      exact hp.append (ih (by simp)) isSpacing_dot (by simp)

theorem listed_of_quoteName {unicode splits : Bool} {name t : Text}
    (h : quoteName unicode splits name = .ok t) : Listed unicode [] true true t := by
  have hparts : (if splits then Name.pieces name else [name]) ≠ [] := by
    split
    · exact Name.pieces_ne_nil name
    · simp
  cases unicode with
  | true =>
    obtain rfl := Except.ok.inj h
    exact listed_of_intercalate
      (fun p => isNameBody_of_inside (readBody_unicodeBody (.inr rfl) p)) hparts
  | false =>
    cases hw : withoutNul [quotation] name with
    | error e => simp [quoteName, hw, Except.map] at h
    | ok u =>
      obtain ⟨-, rfl⟩ := withoutNul_eq_ok_iff.1 hw
      obtain rfl : _ = t := by simpa [quoteName, hw, Except.map] using h
      exact listed_of_intercalate
        (fun p => isNameBody_of_inside (readBody_doubled (by simp))) hparts

/-- A leaf without a trusted fragment is written as a name. -/
theorem exists_escapeOne_eq {trust : TrustPolicy} {v : Value} (style : NameStyle)
    (forbidQualified : Bool) (hv : v.holdsFragment trust = false) :
    ∃ splits name, style.escapeOne trust forbidQualified v = style.quote splits name := by
  cases v with
  | fragment f =>
    have hf : trust.trustsFragment f = false := hv
    refine ⟨!forbidQualified, f.content, ?_⟩
    simp only [NameStyle.escapeOne, hf]
    rfl
  | _ => exact ⟨_, _, rfl⟩

/-- The text of a value is a list of identifiers, if there are leaves at all. -/
theorem listed_of_flat {unicode : Bool} {start : Text} {one : Value → Except Failure Text}
    {v : Value} {t : Text} (hone : ∀ x ∈ v.leaves, ∀ t, one x = .ok t →
      Listed unicode start true true t) (h : Series.flat one v = .ok t) :
    (v.leaves = [] → IsSpacing t) ∧ (v.leaves ≠ [] → Listed unicode start v.leads v.trails t) := by
  -- One induction is over the nesting, the other one over the items of a single series.
  induction v using Value.series_induction generalizing t with
  | leaf v hv =>
    rw [Series.flat_of_not_isSeries hv] at h
    rw [Value.leaves_of_not_isSeries hv] at hone ⊢
    rw [Value.leads_of_not_isSeries hv, Value.trails_of_not_isSeries hv]
    exact ⟨by simp, fun _ => hone v (by simp) t h⟩
  | series form items ih =>
    obtain ⟨ts, hts, rfl⟩ := Series.flat_series_eq_ok_iff.1 h
    clear h
    rw [Value.leaves_series] at hone ⊢
    induction items generalizing ts with
    | nil =>
      obtain rfl := Series.flats_nil_eq_ok_iff.1 hts
      exact ⟨fun _ => isSpacing_nil, by simp⟩
    | cons v vs ihs =>
      obtain ⟨u, us, hu, hus, rfl⟩ := Series.flats_cons_eq_ok_iff.1 hts
      obtain ⟨hspacing, hlisted⟩ := ih v (by simp) (fun x hx => hone x (by simp [hx])) hu
      have hrest := ihs (fun w hw => ih w (by simp [hw]))
        (fun x hx => hone x (by rw [List.flatMap_cons]; exact List.mem_append_right _ hx)) us hus
      cases vs with
      | nil =>
        obtain rfl := Series.flats_nil_eq_ok_iff.1 hus
        rw [List.flatMap_singleton, commaJoin_singleton]
        exact ⟨hspacing, hlisted⟩
      | cons w vs =>
        obtain ⟨b, us, -, -, rfl⟩ := Series.flats_cons_eq_ok_iff.1 hus
        obtain ⟨hspacing', hlisted'⟩ := hrest
        rw [commaJoin_cons_cons, List.flatMap_cons]
        -- The first and the last place are those of `v` and of the rest.
        by_cases hv : v.leaves = []
        · by_cases hvs : (w :: vs).flatMap Value.leaves = []
          · refine ⟨fun _ => ?_, fun hne => absurd (by rw [hv, hvs]; rfl) hne⟩
            exact (hspacing hv).append (isSpacing_comma.append (hspacing' hvs))
          · refine ⟨fun he => absurd (List.append_eq_nil_iff.1 he).2 hvs, fun _ => ?_⟩
            have hleads : (Value.series form (v :: w :: vs)).leads = false :=
              Value.leads_of_leaves_eq_nil (v := v) hv
            rw [hleads, ← List.append_assoc]
            exact (hlisted' hvs).before ((hspacing hv).append isSpacing_comma) (by simp [comma])
        · refine ⟨fun he => absurd (List.append_eq_nil_iff.1 he).1 hv, fun _ => ?_⟩
          by_cases hvs : (w :: vs).flatMap Value.leaves = []
          · have htrails : (Value.series form (v :: w :: vs)).trails = false :=
              Value.trails_of_leaves_eq_nil (v := .series form (w :: vs))
                (by rw [Value.leaves_series, hvs])
            rw [htrails]
            exact (hlisted hv).after (isSpacing_comma.append (hspacing' hvs)) (by simp [comma])
          · exact (hlisted hv).append (hlisted' hvs) isSpacing_comma (by simp [comma])

/-! ### The outer quotes -/

theorem Quote.opened?_cons_eq_none {c : Char} (hc : isOpenerChar c = false) (t : Text) :
    Quote.opened? (c :: t) = none := by
  rw [Option.eq_none_iff_forall_ne_some]
  rintro ⟨q, rest⟩ h
  have hnone := Postgres.opened?_cons_eq_none hc t
  rw [Quote.opened?_eq_some_iff.1 h] at hnone
  have hsome := Postgres.opened?_opener (s := .quoted q) trivial rest
  exact absurd (hnone.symm.trans hsome) (by simp)

theorem IsSpacing.getLast?_ne {a : Text} (ha : IsSpacing a) : a.getLast? ≠ some quotation := by
  intro h
  exact absurd (ha quotation (List.mem_of_getLast? h)) (by decide)

/-- What is left of the last quote and the spacing after it. -/
def keptEnd (after : Text) : Text := if after = [] then [] else quotation :: after

theorem dropLast_keptEnd {after : Text} (hafter : IsSpacing after) (t : Text) :
    (if (t ++ quotation :: after).getLast? = some quotation
      then (t ++ quotation :: after).dropLast else t ++ quotation :: after) =
      t ++ keptEnd after := by
  by_cases h : after = []
  · simp [h, keptEnd]
  · have hlast : (t ++ quotation :: after).getLast? ≠ some quotation := by
      rw [List.getLast?_append, List.getLast?_cons_of_ne_nil h]
      cases hl : after.getLast? with
      | none => exact absurd (List.getLast?_eq_none_iff.1 hl) h
      | some c =>
        rw [Option.some_or, ← hl]
        exact hafter.getLast?_ne
    rw [if_neg hlast, keptEnd, if_neg h]

theorem unquoted_of_leading {unicode : Bool} {body after : Text} (hafter : IsSpacing after) :
    unquoted (nameOpener unicode ++ (body ++ quotation :: after)) = body ++ keptEnd after := by
  rw [unquoted, nameOpener_eq, Quote.opened?_opener]
  have hname : (nameQuote unicode).isName := by cases unicode <;> rfl
  simp only [hname, if_true]
  exact dropLast_keptEnd hafter body

theorem unquoted_of_spacing_append {before : Text} (hbefore : IsSpacing before) (hne : before ≠ [])
    (t : Text) :
    unquoted (before ++ t) =
      if (before ++ t).getLast? = some quotation then (before ++ t).dropLast else before ++ t := by
  obtain ⟨c, before, rfl⟩ := List.exists_cons_of_ne_nil hne
  have hc : isOpenerChar c = false := by
    rcases hbefore c (by simp) with rfl | rfl | rfl <;> decide
  rw [unquoted, List.cons_append, Quote.opened?_cons_eq_none hc]

theorem unquoted_of_spacing {t : Text} (ht : IsSpacing t) : unquoted t = t := by
  cases t with
  | nil => rfl
  | cons c t =>
    have h := unquoted_of_spacing_append ht (List.cons_ne_nil c t) []
    rw [List.append_nil, if_neg ht.getLast?_ne] at h
    exact h

theorem unquoted_of_not_leading {unicode : Bool} {before body after : Text}
    (hbefore : IsSpacing before) (hne : before ≠ []) (hafter : IsSpacing after) :
    unquoted (before ++ (nameOpener unicode ++ (body ++ quotation :: after))) =
      before ++ (nameOpener unicode ++ (body ++ keptEnd after)) := by
  rw [unquoted_of_spacing_append hbefore hne]
  have h := dropLast_keptEnd hafter (before ++ (nameOpener unicode ++ body))
  simpa only [List.append_assoc] using h

/-! ### Splicing -/

variable {surroundings : Surroundings} {options : Options}

theorem splice_name {q : Quote} {unicode : Bool} (hq : q.place = .name unicode) (v : Value) :
    splice surroundings options q.opener v =
      ((nameStyle unicode).escape surroundings.trust options.forbidQualified v).map unquoted := by
  rw [splice, Place.ofDelimiter?_opener, hq]

theorem exists_place_eq {q : Quote} (hq : q.isName) : ∃ unicode, q.place = .name unicode := by
  cases q with
  | name => exact ⟨false, rfl⟩
  | unicodeName upper => exact ⟨true, rfl⟩
  | string | escape upper | bits upper | hex upper | unicode upper => contradiction

theorem listed_of_escape {trust : TrustPolicy} {unicode forbidQualified : Bool} {v : Value}
    {t : Text} (hv : v.holdsFragment trust = false)
    (h : (nameStyle unicode).escape trust forbidQualified v = .ok t) :
    (v.leaves = [] → IsSpacing t) ∧ (v.leaves ≠ [] → Listed unicode [] v.leads v.trails t) := by
  apply listed_of_flat _ h
  intro x hx t ht
  obtain ⟨splits, name, he⟩ := exists_escapeOne_eq (nameStyle unicode) forbidQualified
    (Value.holdsFragment_of_mem_leaves hv hx)
  exact listed_of_quoteName (he ▸ ht)

/-- A value that begins and ends with a leaf, or has none, stays in the identifier. -/
theorem staysInName_of_isFlush {q : Quote} {v : Value} {b : Text} (hq : q.isName)
    (hv : v.holdsFragment surroundings.trust = false) (hflush : v.isFlush)
    (h : splice surroundings options q.opener v = .ok b) : StaysInName q b := by
  obtain ⟨unicode, hplace⟩ := exists_place_eq hq
  rw [splice_name hplace] at h
  cases he : (nameStyle unicode).escape surroundings.trust options.forbidQualified v with
  | error e => simp [he, Except.map] at h
  | ok t =>
    obtain rfl : unquoted t = b := by simpa [he, Except.map] using h
    obtain ⟨hspacing, hlisted⟩ := listed_of_escape hv he
    simp only [Value.isFlush, Bool.or_eq_true, List.isEmpty_iff, Bool.and_eq_true] at hflush
    by_cases hleaves : v.leaves = []
    · rw [unquoted_of_spacing (hspacing hleaves)]
      exact isNameBody_of_inside (readBody_spacing (hspacing hleaves)) q hplace
    · obtain ⟨hleads, htrails⟩ := hflush.resolve_left hleaves
      obtain ⟨hbefore, hafter, hbody, -, hbefore', hafter'⟩ := hlisted hleaves
      rw [hleads, eq_comm, List.isEmpty_iff] at hbefore'
      rw [htrails, eq_comm, List.isEmpty_iff] at hafter'
      rw [hbefore', List.nil_append, unquoted_of_leading hafter, hafter', keptEnd, if_pos rfl,
        List.append_nil]
      exact hbody q hplace

/-! ### Values that leave the identifier -/

/-- A name that would open a comment at top level. -/
def dashes : Value := .ofText ['-', '-']

theorem escapeOne_dashes (trust : TrustPolicy) (forbidQualified : Bool) :
    (nameStyle false).escapeOne trust forbidQualified dashes =
      .ok (nameOpener false ++ (['-', '-'] ++ [quotation])) := by
  cases forbidQualified <;> rfl

theorem transition_lineComment_ne {text : Text} (h : ∀ c ∈ text, isLineBreak c = false)
    (q : Quote) : lexer.transition (some .lineComment) text ≠ .ok (some (.quoted q)) := by
  by_cases hne : text = []
  · simp [hne]
  · have hnone : afterLine? text = none := by
      have hdrop : text.dropWhile (fun c => !isLineBreak c) = [] := by
        rw [← List.append_nil text, List.dropWhile_append_of_pos (by simpa using h)]
        rfl
      rw [afterLine?, hdrop]
    rw [transition_lineComment_of_none hne hnone]
    simp

/-- Where a spacing comes before the first identifier, its quote closes the open one, and the
name comes to stand at top level. -/
theorem not_staysInName_of_not_leading {before rest : Text} (hbefore : IsSpacing before)
    (hrest : ∀ c ∈ rest, isLineBreak c = false) :
    ¬StaysInName .name (before ++ (nameOpener false ++ ('-' :: '-' :: rest))) := by
  rintro ⟨⟨q', -, h⟩, -⟩
  have hclosed : readBody quotation false (before ++ quotation :: '-' :: '-' :: rest) =
      .closed ('-' :: '-' :: rest) := by
    rw [readBody_append_of_inside (readBody_spacing hbefore)]
    exact readBody_of_head?_ne (by simp; decide)
  have hcomment : opened? ('-' :: '-' :: rest) = some (.lineComment, rest) := rfl
  rw [show nameOpener false = [quotation] from rfl, List.singleton_append,
    transition_name_of_closed (q := .name) rfl hclosed, transition_none_of_opened hcomment] at h
  exact transition_lineComment_ne hrest q' h

/-- Where a spacing comes after the last identifier, its quote closes the open one. -/
theorem not_staysInName_of_not_trailing {body after : Text} (hbody : IsNameBody false body)
    (hafter : IsSpacing after) : ¬StaysInName .name (body ++ quotation :: after) := by
  rintro ⟨⟨q', -, h⟩, -⟩
  have hnone : lexer.transition none after = .ok none := by
    have := transition_none_spacing_append hafter []
    rwa [List.append_nil, Lexer.transition_nil] at this
  rw [(hbody .name rfl).2 after hafter.head?_ne, hnone] at h
  simp at h

/-- The text of a value that holds dashes in every place. -/
theorem exists_escape_reshape (trust : TrustPolicy) (forbidQualified : Bool) (v : Value) :
    ∃ t, (nameStyle false).escape trust forbidQualified (v.reshape dashes) = .ok t ∧
      (∀ c ∈ t, isLineBreak c = false) ∧
      (v.leaves ≠ [] → Listed false ['-', '-'] v.leads v.trails t) := by
  have hleaf : dashes.isSeries = false := rfl
  have hone : ∀ x ∈ (v.reshape dashes).leaves, (nameStyle false).escapeOne trust forbidQualified x =
      .ok (nameOpener false ++ (['-', '-'] ++ [quotation])) := by
    intro x hx
    rw [Value.leaves_reshape hleaf, List.mem_map] at hx
    obtain ⟨-, -, rfl⟩ := hx
    exact escapeOne_dashes trust forbidQualified
  have hplain {t : Text} (ht : t.any isLineBreak = false) : ∀ c ∈ t, isLineBreak c = false := by
    simpa using ht
  obtain ⟨t, ht⟩ := Series.exists_flat_eq_ok fun x hx => ⟨_, hone x hx⟩
  refine ⟨t, ht, ?_, ?_⟩
  · refine Series.flat_induction (Q := fun t => ∀ c ∈ t, isLineBreak c = false) (by simp) ?_ ?_ ht
    · intro a b ha hb c hc
      simp only [List.mem_append] at hc
      rcases hc with hc | hc | hc
      · exact ha c hc
      · exact hplain (t := comma) rfl c hc
      · exact hb c hc
    · intro x hx u hu
      rw [hone x hx, Except.ok.injEq] at hu
      rw [← hu]
      exact hplain rfl
  · intro hleaves
    have hdashes : ∀ x ∈ (v.reshape dashes).leaves, ∀ u,
        (nameStyle false).escapeOne trust forbidQualified x = .ok u →
        Listed false ['-', '-'] true true u := by
      intro x hx u hu
      rw [hone x hx, Except.ok.injEq] at hu
      rw [← hu]
      exact Listed.of_body (isNameBody_of_inside rfl) List.prefix_rfl
    have hlisted := (listed_of_flat hdashes ht).2
    rw [Value.leads_reshape hleaf, Value.trails_reshape hleaf] at hlisted
    apply hlisted
    simpa [Value.leaves_reshape hleaf] using hleaves

/-- The values of a shape stay in the open identifier, all of them, exactly if the shape has no
leaf or begins and ends with one. -/
theorem splice_name_iff_isFlush (v : Value) :
    (∀ (w : Value) (surroundings : Surroundings) (options : Options) (q : Quote) (b : Text),
      w.shape = v.shape → w.holdsFragment surroundings.trust = false → q.isName →
      splice surroundings options q.opener w = .ok b → StaysInName q b) ↔ v.isFlush := by
  constructor
  · intro h
    cases hflush : v.isFlush with
    | true => rfl
    | false =>
      exfalso
      obtain ⟨hleaves, hends⟩ : v.leaves ≠ [] ∧ ¬(v.leads ∧ v.trails) := by
        simpa [Value.isFlush] using hflush
      -- With dashes in every place, a quote that is not taken off gives the dashes away.
      let surroundings : Surroundings := ⟨defaultMinter.policy, .zero⟩
      obtain ⟨t, ht, hbreak, hlisted⟩ := exists_escape_reshape surroundings.trust
        Options.default.forbidQualified v
      have hstays : StaysInName .name (unquoted t) := by
        apply h (v.reshape dashes) surroundings .default .name
        · exact Value.shape_reshape rfl v
        · exact Value.holdsFragment_reshape rfl v
        · rfl
        · have hplace : Quote.name.place = .name false := rfl
          rw [splice_name hplace, ht]
          rfl
      obtain ⟨hbefore, hafter, hbody, ⟨more, rfl⟩, hleads, htrails⟩ := hlisted hleaves
      rename_i before after
      by_cases hne : before = []
      · have hne' : after ≠ [] := by
          rintro rfl
          exact hends ⟨by simp [hleads, hne], by simp [htrails]⟩
        rw [hne, List.nil_append, unquoted_of_leading hafter, keptEnd, if_neg hne'] at hstays
        exact not_staysInName_of_not_trailing hbody hafter hstays
      · rw [unquoted_of_not_leading hbefore hne hafter, List.append_assoc] at hstays
        refine not_staysInName_of_not_leading hbefore ?_ hstays
        intro c hc
        apply hbreak
        have hend : c ∈ keptEnd after → c ∈ quotation :: after := by
          unfold keptEnd
          split <;> simp
        have hc : c ∈ more ∨ c ∈ keptEnd after := List.mem_append.1 hc
        simp only [List.mem_append]
        exact .inr (.inr (hc.imp .inr hend))
  · intro hflush w surroundings options q b hshape hw hq h
    refine staysInName_of_isFlush hq hw ?_ h
    rw [← Value.isFlush_shape, hshape, Value.isFlush_shape, hflush]

/-- Behind an empty series, the quote of the first name closes the open identifier. -/
theorem not_staysInName_after_empty_series :
    let v : Value := .series .list [.series .list [], .ofText ['a']]
    let b : Text := [',', ' ', quotation, 'a']
    v.holdsFragment defaultMinter.policy = false ∧
      splice ⟨defaultMinter.policy, .zero⟩ .default Quote.name.opener v = .ok b ∧
      lexer.transition (some (.quoted .name)) b = .ok none ∧ ¬StaysInName .name b := by
  intro v b
  have hb : lexer.transition (some (.quoted .name)) b = .ok none := by
    have hclosed : readBody quotation false b = .closed ['a'] := rfl
    have hword : opened? ['a'] = none := rfl
    rw [transition_name_of_closed (q := .name) rfl hclosed, transition_none_of_word hword rfl,
      List.dropWhile_nil, Lexer.transition_nil]
  refine ⟨rfl, rfl, hb, ?_⟩
  rintro ⟨⟨q', -, h⟩, -⟩
  simp [hb] at h

end SqlWeave.Postgres
