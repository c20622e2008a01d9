/-
SqlWeave/Proofs/MySQL/Standing.lean

Values that stand free in MySQL.  The text of a literal value begins and ends at top level, and
neither its first nor its last character can make a token with a neighbour, quotes apart.  The
commas and brackets between the items of a series keep these from each other.

Main results: a literal value, and a series of them that is not empty, is always written, and
as a solid text (`exists_escape_eq_ok`).
-/
import SqlWeave.Proofs.MySQL.Cut
import SqlWeave.Proofs.MySQL.Literal
import SqlWeave.Proofs.Number.Numeral
import SqlWeave.Proofs.Series

namespace SqlWeave

open Text

/-- Whether a value is a single literal, or no literal at all but the word for none. -/
def Value.isLiteral : Value → Bool
  | .null | .bool _ | .number .. | .text .. | .moment _ | .blob .. => true
  | _ => false

namespace MySQL

/-! ### Texts between tokens -/

/-- A text that begins and ends at top level. -/
def Standing (t : Text) : Prop := lexer.transition none t = .ok none

theorem Standing.append {a b : Text} (ha : Standing a) (hb : Standing b) (hab : Apart a b) :
    Standing (a ++ b) := by
  have h := transition_append ha fun _ => hab
  rw [show lexer.transition none b = .ok none from hb] at h
  exact h.eq_ok

/-- The characters that a search for quotes and comments passes by, whatever follows. -/
def isPlain (c : Char) : Bool :=
  !isBlank c && c != '#' && c != '/' && (Quote.ofChar? c).isNone

theorem seek_of_isPlain {t : Text} (h : ∀ c ∈ t, isPlain c) : seek .code t = .nothing := by
  induction t with
  | nil => simp [seek]
  | cons c t ih =>
    have hc := h c (by simp)
    simp only [isPlain, Bool.and_eq_true, bne_iff_ne, Option.isNone_iff_eq_none] at hc
    obtain ⟨⟨⟨-, hhash⟩, hslash⟩, hquote⟩ := hc
    have ht : ∀ d ∈ t, isPlain d := fun d hd => h d (by simp [hd])
    -- Dashes open a comment only before a blank, and there is none.
    have hdash : ¬(c = '-' ∧ opensDashes t) := by
      rintro ⟨-, hopens⟩
      unfold opensDashes at hopens
      split at hopens
      · rename_i d rest
        have hd := ht d (by simp)
        simp [isPlain, hopens] at hd
      · contradiction
    rw [seek_other hdash hhash hslash hquote]
    exact ih ht

theorem standing_of_isPlain {t : Text} (h : ∀ c ∈ t, isPlain c) : Standing t :=
  transition_none_of_nothing (seek_of_isPlain h)

/-- The characters that no token begins or ends with, blanks among them. -/
def isNeutral (c : Char) : Bool := c = ',' || c = ' ' || c = '(' || c = ')'

theorem Standing.cons {c : Char} {t : Text} (hc : isNeutral c) (h : Standing t) :
    Standing (c :: t) := by
  have hseek : seek .code (c :: t) = seek .code t := by
    simp only [isNeutral, Bool.or_eq_true, decide_eq_true_eq] at hc
    rcases hc with ((rfl | rfl) | rfl) | rfl
    all_goals exact seek_other (by simp) (by simp) (by simp) rfl
  have halike : Found.Alike (seek .code (c :: t)) (seek .code t) := by
    rw [hseek]
    exact Found.Alike.refl _
  have hagree := transition_none_of_alike halike
  rw [show lexer.transition none t = .ok none from h] at hagree
  exact hagree.eq_ok

/-- A comma or bracket keeps what comes before it from what follows. -/
theorem apart_cons {c : Char} (a b : Text) (hc : isNeutral c) (hblank : c ≠ ' ') :
    Apart a (c :: b) := by
  simp only [isNeutral, Bool.or_eq_true, decide_eq_true_eq] at hc
  rcases hc with ((rfl | rfl) | rfl) | rfl
  · exact ⟨fun _ => ⟨by simp; decide, rfl⟩, by simp, fun d hd _ => by rintro ⟨⟩; contradiction⟩
  · contradiction
  · exact ⟨fun _ => ⟨by simp; decide, rfl⟩, by simp, fun d hd _ => by rintro ⟨⟩; contradiction⟩
  · exact ⟨fun _ => ⟨by simp; decide, rfl⟩, by simp, fun d hd _ => by rintro ⟨⟩; contradiction⟩

theorem standing_nil : Standing [] := Lexer.transition_nil _ _

theorem Standing.comma {a b : Text} (ha : Standing a) (hb : Standing b) :
    Standing (a ++ (Text.comma ++ b)) :=
  ha.append ((hb.cons rfl).cons rfl) (apart_cons a _ rfl (by decide))

theorem Standing.brackets {a : Text} (ha : Standing a) : Standing ('(' :: (a ++ [')'])) :=
  (ha.append (standing_nil.cons rfl) (apart_cons a _ rfl (by decide))).cons rfl

/-! ### Solid texts -/

/-- A text that can stand next to any other, if quotes do not meet. -/
structure Solid (t : Text) : Prop where
  standing : Standing t
  ne_nil : t ≠ []
  head : ∀ c, t.head? = some c → isBlank c = false ∧ c ≠ '*'
  dashes : opensDashes t = false
  last : ∀ c, t.getLast? = some c → c ≠ '-' ∧ c ≠ '/'

namespace Solid

variable {a b : Text}

theorem comma (ha : Solid a) (hb : Solid b) : Solid (a ++ (Text.comma ++ b)) where
  standing := ha.standing.comma hb.standing
  ne_nil := by simp [ha.ne_nil]
  head c hc := by
    obtain ⟨d, a', rfl⟩ := List.exists_cons_of_ne_nil ha.ne_nil
    exact ha.head c hc
  dashes := by
    rw [Bool.eq_false_iff]
    intro h
    rcases eq_nil_or_eq_dash_of_opensDashes_append h ha.dashes with rfl | rfl
    · exact ha.ne_nil rfl
    · exact (ha.last '-' rfl).1 rfl
  last c hc := by
    obtain ⟨d, hd⟩ : ∃ d, b.getLast? = some d := by
      cases hl : b.getLast? with
      | none => exact absurd (List.getLast?_eq_none_iff.1 hl) hb.ne_nil
      | some d => exact ⟨d, rfl⟩
    rw [List.getLast?_append, List.getLast?_append, hd, Option.some_or, Option.some_or] at hc
    exact hb.last c (hd.trans hc)

theorem brackets (ha : Standing a) : Solid ('(' :: (a ++ [')'])) where
  standing := ha.brackets
  ne_nil := by simp
  head c hc := by
    obtain rfl : '(' = c := by simpa using hc
    decide
  dashes := rfl
  last c hc := by
    obtain rfl : ')' = c := by simpa [List.getLast?_cons, List.getLast?_append] using hc
    decide

theorem of_isPlain {t : Text} (h : ∀ c ∈ t, isPlain c) (hne : t ≠ []) (hstar : '*' ∉ t)
    (hlast : t.getLast? ≠ some '-') : Solid t where
  standing := standing_of_isPlain h
  ne_nil := hne
  head c hc := by
    have hmem := List.mem_of_head? hc
    have hplain := h c hmem
    simp only [isPlain, Bool.and_eq_true, Bool.not_eq_true'] at hplain
    refine ⟨hplain.1.1.1, ?_⟩
    rintro rfl
    exact hstar hmem
  dashes := by
    rw [Bool.eq_false_iff]
    intro hopens
    unfold opensDashes at hopens
    split at hopens
    · rename_i d rest
      have hd := h d (by simp)
      simp [isPlain, hopens] at hd
    · contradiction
  last c hc := by
    refine ⟨?_, ?_⟩
    · rintro rfl
      exact hlast hc
    · rintro rfl
      exact absurd (h '/' (List.mem_of_getLast? hc)) (by decide)

end Solid

/-! ### Literals -/

theorem isPlain_of_isNumeralChar {c : Char} (h : isNumeralChar c) : isPlain c ∧ c ≠ '*' := by
  simp only [isNumeralChar, Bool.or_eq_true, decide_eq_true_eq] at h
  rcases h with h | rfl
  · have hne (mark : Char) (hm : mark.isAlphanum = false) : c ≠ mark := ne_of_isAlphanum h hm
    have hquote : Quote.ofChar? c = none := by
      simp [Quote.ofChar?, hne apostrophe (by decide), hne quotation (by decide),
        hne Text.backtick (by decide)]
    refine ⟨?_, hne '*' (by decide)⟩
    simp [isPlain, isBlank, hquote, hne '\t' (by decide), hne '\r' (by decide),
      hne '\n' (by decide), hne ' ' (by decide), hne '#' (by decide), hne '/' (by decide)]
  · decide

theorem solid_of_isNumeral {t : Text} (h : IsNumeral t) : Solid t := by
  have hchars : ∀ c ∈ t, isPlain c ∧ c ≠ '*' := by
    intro c hc
    rcases h.mem hc with hc | rfl | rfl
    · exact isPlain_of_isNumeralChar hc
    · decide
    · decide
  refine Solid.of_isPlain (fun c hc => (hchars c hc).1) h.ne_nil ?_ ?_
  · intro hstar
    exact (hchars '*' hstar).2 rfl
  · intro hlast
    exact absurd (h.getLast? hlast) (by decide)

theorem standing_between {body : Text} (h : readBody apostrophe true body = .inside) :
    Standing (between apostrophe body) := by
  have hopened : seek .code (between apostrophe body) = .opened .single (body ++ [apostrophe]) :=
    seek_quote rfl
  have hclosed : readBody apostrophe true (body ++ [apostrophe]) = .closed [] := by
    rw [readBody_append_of_inside h]
    rfl
  rw [Standing, transition_none_of_opened hopened,
    transition_quoted_of_closed (q := .single) hclosed, Lexer.transition_nil]

theorem getLast?_between (body : Text) : (between apostrophe body).getLast? = some apostrophe := by
  simp [between, List.getLast?_cons, List.getLast?_append]

theorem solid_quoteString (t : Text) : Solid (quoteString t) where
  standing := standing_between (readBody_escapeBody (q := .single) (by decide) t)
  ne_nil := by simp [quoteString, between]
  head c hc := by
    obtain rfl : apostrophe = c := by simpa [quoteString, between] using hc
    decide
  dashes := rfl
  last c hc := by
    rw [quoteString, getLast?_between, Option.some.injEq] at hc
    rw [← hc]
    decide

theorem solid_quoteBlob (data : List UInt8) : Solid (quoteBlob data) where
  standing := by
    have hbody : readBody apostrophe true (hexBytes data) = .inside := by
      apply readBody_of_forall
      intro c hc
      have hne (mark : Char) (hm : mark.isAlphanum = false) : c ≠ mark :=
        ne_of_isAlphanum (isAlphanum_of_mem_hexBytes hc) hm
      exact ⟨hne apostrophe (by decide), fun he => hne backslash (by decide) he.2⟩
    -- To this lexer the letter in front is a word by itself.
    have hx : Standing ['X'] := standing_of_isPlain (List.all_eq_true.1 rfl)
    have hapart : Apart ['X'] (between apostrophe (hexBytes data)) := by
      refine ⟨by simp, by simp, ?_⟩
      intro c hc hlast
      obtain rfl : 'X' = c := by simpa using hlast
      contradiction
    exact hx.append (standing_between hbody) hapart
  ne_nil := by simp [quoteBlob]
  head c hc := by
    obtain rfl : 'X' = c := by simpa [quoteBlob] using hc
    decide
  dashes := rfl
  last c hc := by
    rw [quoteBlob, List.getLast?_cons_of_ne_nil (by simp [between]), getLast?_between,
      Option.some.injEq] at hc
    rw [← hc]
    decide

theorem solid_word {t : Text} (h : t = "NULL".toList ∨ t = "true".toList ∨ t = "false".toList) :
    Solid t := by
  rcases h with rfl | rfl | rfl <;>
    exact Solid.of_isPlain (List.all_eq_true.1 (by decide)) (by decide) (by decide) (by decide)

/-- A single literal is always written, and as a solid text. -/
theorem exists_atom_eq_ok (surroundings : Surroundings) (zone : Text) {v : Value}
    (hv : v.isLiteral) :
    ∃ t, grammar.atom surroundings zone v = .ok t ∧ Solid t := by
  cases v with
  | null => exact ⟨_, rfl, solid_word (.inl rfl)⟩
  | bool b =>
    cases b with
    | true => exact ⟨_, rfl, solid_word (.inr (.inl rfl))⟩
    | false => exact ⟨_, rfl, solid_word (.inr (.inr rfl))⟩
  | number n face => exact ⟨_, rfl, solid_of_isNumeral (isNumeral_sqlText n)⟩
  | text t face => exact ⟨_, rfl, solid_quoteString t⟩
  | moment m =>
    rw [Grammar.atom]
    cases m.text? surroundings.host zone with
    | some t => exact ⟨_, rfl, solid_quoteString t⟩
    | none => exact ⟨_, rfl, solid_word (.inl rfl)⟩
  | blob form data => exact ⟨_, rfl, solid_quoteBlob data⟩
  | _ => contradiction

/-! ### Lists of literals -/

variable {surroundings : Surroundings} {zone t : Text}

/-- Values that can be written between tokens without touching their neighbours: single
literals, and series of them to any depth, of which the outermost is not empty. -/
def IsListed (v : Value) : Prop :=
  (∀ x ∈ v.leaves, x.isLiteral) ∧ ∀ form, v ≠ .series form []

theorem standing_of_flat {v : Value} (hv : ∀ x ∈ v.leaves, x.isLiteral)
    (h : Series.flat (grammar.atom surroundings zone) v = .ok t) : Standing t := by
  refine Series.flat_induction standing_nil (fun a b => Standing.comma) ?_ h
  intro x hx t ht
  obtain ⟨u, hu, hsolid⟩ := exists_atom_eq_ok surroundings zone (hv x hx)
  rw [hu, Except.ok.injEq] at ht
  exact ht ▸ hsolid.standing

theorem solid_of_grouped {v : Value} (hv : ∀ x ∈ v.leaves, x.isLiteral)
    (h : Series.grouped (grammar.atom surroundings zone) v = .ok t) : Solid t := by
  cases hs : v.isSeries with
  | false =>
    rw [Series.grouped_of_not_isSeries hs] at h
    rw [Value.leaves_of_not_isSeries hs] at hv
    obtain ⟨u, hu, hsolid⟩ := exists_atom_eq_ok surroundings zone (hv v (by simp))
    rw [hu, Except.ok.injEq] at h
    exact h ▸ hsolid
  | true =>
    rw [Series.grouped_of_isSeries hs] at h
    cases hf : Series.flat (grammar.atom surroundings zone) v with
    | error e => simp [hf, Except.map] at h
    | ok u =>
      obtain rfl : '(' :: (u ++ [')']) = t := by simpa [hf, Except.map] using h
      exact Solid.brackets (standing_of_flat hv hf)

theorem escape_of_isListed {options : Options} {v : Value} (hv : IsListed v) :
    grammar.escape surroundings options v = grammar.item surroundings options.timeZone v := by
  have hpairs : Grammar.pairs? v = none := by
    cases v with
    | series form items => rfl
    | null | bool b | number n face | text t face | blob form data | moment m => rfl
    | _ => exact absurd (hv.1 _ (List.mem_singleton_self _)) (by simp [Value.isLiteral])
  rw [Grammar.escape, hpairs, ite_self]

/-- Listed values are always written, and as a solid text. -/
theorem exists_escape_eq_ok (surroundings : Surroundings) (options : Options) {v : Value}
    (hv : IsListed v) :
    ∃ t, grammar.escape surroundings options v = .ok t ∧ Solid t := by
  rw [escape_of_isListed hv]
  obtain ⟨hleaves, hne⟩ := hv
  cases hs : v.isSeries with
  | false =>
    rw [Value.leaves_of_not_isSeries hs] at hleaves
    obtain ⟨t, ht, hsolid⟩ := exists_atom_eq_ok surroundings options.timeZone
      (hleaves v (by simp))
    exact ⟨t, (grammar.item_of_not_isSeries hs).trans ht, hsolid⟩
  | true =>
    cases v with
    | series form items =>
      rw [Value.leaves_series] at hleaves
      have hitems : ∀ v ∈ items, ∀ x ∈ v.leaves, x.isLiteral := fun v hv x hx =>
        hleaves x (List.mem_flatMap.2 ⟨v, hv, hx⟩)
      -- Inner series may be empty: their brackets remain.  The outermost one may not.
      obtain ⟨ts, hts⟩ := Series.exists_groupeds_eq_ok fun v hv x hx =>
          (exists_atom_eq_ok surroundings options.timeZone (hitems v hv x hx)).imp fun _ h => h.1
      refine ⟨commaJoin ts, Series.write_nested_eq_ok_iff.2 ⟨ts, hts, rfl⟩, ?_⟩
      have hts_ne : ts ≠ [] := Series.groupeds_ne_nil hts fun h => hne form (by rw [h])
      refine commaJoin_induction (fun a b => Solid.comma) hts_ne ?_
      intro t ht
      obtain ⟨v, hv, he⟩ := Series.exists_of_mem_groupeds hts ht
      exact solid_of_grouped (hitems v hv) he
    | _ => contradiction

end MySQL

end SqlWeave
