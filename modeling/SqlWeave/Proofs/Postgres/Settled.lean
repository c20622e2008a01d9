/-
SqlWeave/Proofs/Postgres/Settled.lean

Values that are read to top level behind any text.  What stands before the text of a value may
change how its reading begins: a letter makes its first quote a different one, and a word takes
in the word that it begins with.  Either way the text is read to top level, and a string can be
taken up behind it only if it ends with an apostrophe, where the dialect looks for one.

Main results: all this holds of the text of every value without trusted fragments
(`settled_escape`).
-/
import SqlWeave.Proofs.Postgres.Conventions
import SqlWeave.Proofs.Postgres.SelfContained

namespace SqlWeave.Postgres

open Text

variable {a b sep t u : Text} {c : Char} {s : Option State} {P Q : Prop}

/-! ### Where a reading begins -/

/-- A name that has begun ends at the same place when its backslashes count. -/
def EndsAlike (u : Text) : Prop :=
  ∀ rest, readBody quotation false u = .closed rest → readBody quotation true u = .closed rest

theorem EndsAlike.of_append (hc : isSeparator c) (h : EndsAlike (u ++ c :: b)) : EndsAlike u := by
  intro rest hrest
  have hquote : (c :: b).head? ≠ some quotation :=
    fun hhead => isSeparator_ne_quote hc (.inr rfl) (Option.some.inj hhead)
  have hclosed := h _ (readBody_append_of_closed hrest fun _ => hquote)
  obtain ⟨-, -, -, hne⟩ := exists_of_readBody_closed hrest
  obtain ⟨body, htext, hbody, -⟩ := exists_of_readBody_closed hclosed
  rw [← List.append_assoc] at htext
  obtain rfl : u = body ++ rest := List.append_cancel_right htext
  exact readBody_append_of_closed hbody fun _ => hne

/-- How the reading of a text may begin: at top level, in its first quote, which a letter before
it may have changed, or behind the end of a word. -/
inductive Start (t : Text) : Option State → Text → Prop
  | top {s : Option State} (hs : AtTop s) : Start t s t
  | quote {q : Quote} {u : Text} (hq : q.isName → EndsAlike u) (ht : t = q.mark :: u) :
      Start t (some (.quoted q)) u
  | word : Start t none (t.dropWhile isWordPart)

theorem Start.proper (h : Start t s u) : Proper s := by
  cases h with
  | top hs => exact hs.proper
  | quote hq ht => trivial
  | word => trivial

/-- A text that goes on behind a separator begins as its first part does. -/
theorem Start.of_append (hc : isSeparator c) (h : Start (a ++ c :: b) s u) :
    ∃ u', Start a s u' ∧ u = u' ++ c :: b := by
  cases h with
  | top hs => exact ⟨a, .top hs, rfl⟩
  | @quote q u hq ht =>
    cases a with
    | nil =>
      obtain rfl : c = q.mark := (List.cons.inj ht).1
      exact absurd rfl (isSeparator_ne_quote hc q.mark_eq)
    | cons d a =>
      obtain ⟨rfl, rfl⟩ := List.cons.inj ht
      exact ⟨a, .quote (fun hname => (hq hname).of_append hc) rfl, rfl⟩
  | word =>
    have hdrop : (c :: b).dropWhile isWordPart = c :: b :=
      List.dropWhile_cons_of_neg (by simp [isWordPart_of_isSeparator hc])
    refine ⟨a.dropWhile isWordPart, .word, ?_⟩
    rw [List.dropWhile_append, hdrop]
    split
    · rename_i h
      rw [List.isEmpty_iff.1 h, List.nil_append]
    · rfl

/-! ### Readings that end at top level -/

/-- The reading of a text ends at top level, where a string with escapes can be taken up only if
`P` holds. -/
def EndsAtTop (s : Option State) (u : Text) (P : Prop) : Prop :=
  ∃ r, AtTop r ∧ lexer.transition s u = .ok r ∧ (r = some .continuation → P)

theorem endsAtTop_of_none (h : lexer.transition s u = .ok none) : EndsAtTop s u P :=
  ⟨none, .inl rfl, h, nofun⟩

/-- However its reading begins, the text is read to top level, and a string with escapes can be
taken up behind it only where `P` holds. -/
def Settles (t : Text) (P : Prop) : Prop := ∀ s u, Start t s u → EndsAtTop s u P

theorem Settles.mono (h : Settles t P) (hPQ : P → Q) : Settles t Q := by
  intro s u hstart
  obtain ⟨r, hr, hread, hP⟩ := h s u hstart
  exact ⟨r, hr, hread, fun he => hPQ (hP he)⟩

/-- Separators that give up a string with escapes before them. -/
structure GivesUp (sep : Text) : Prop where
  ne_nil : sep ≠ []
  separators : ∀ c ∈ sep, isSeparator c
  reads : ∀ {r : Option State}, AtTop r → ∀ b,
    lexer.transition r (sep ++ b) = lexer.transition none b

theorem givesUp_of_first (hsep : ∀ d ∈ c :: sep, isSeparator d) (hblank : isBlank c = false) :
    GivesUp (c :: sep) where
  ne_nil := List.cons_ne_nil c sep
  separators := hsep
  reads := by
    have hnone (b : Text) : lexer.transition none (c :: sep ++ b) = lexer.transition none b :=
      transition_none_idle_append (fun d hd => isIdle_of_isSeparator (hsep d hd)) b
    rintro r (rfl | rfl) b
    · exact hnone b
    · rw [List.cons_append, transition_continuation_separator (hsep c List.mem_cons_self) hblank,
        ← List.cons_append, hnone]

theorem GivesUp.blank_cons (h : GivesUp sep) : GivesUp (' ' :: sep) where
  ne_nil := List.cons_ne_nil ' ' sep
  separators := by
    rintro c (_ | ⟨_, hc⟩)
    · decide
    · exact h.separators c hc
  reads := by
    rintro r (rfl | rfl) b
    · rw [List.cons_append, transition_none_of_idle (by decide), h.reads (.inl rfl)]
    · rw [List.cons_append, transition_continuation_blank (by decide), h.reads (.inr rfl)]

theorem givesUp_comma : GivesUp Text.comma :=
  givesUp_of_first (List.all_eq_true.1 (by decide)) (by decide)

theorem givesUp_opening : GivesUp ['('] :=
  givesUp_of_first (List.all_eq_true.1 (by decide)) (by decide)

theorem givesUp_closing : GivesUp [')'] :=
  givesUp_of_first (List.all_eq_true.1 (by decide)) (by decide)

theorem givesUp_sign : GivesUp [' ', '=', ' '] :=
  GivesUp.blank_cons (givesUp_of_first (List.all_eq_true.1 (by decide)) (by decide))

/-- Behind separators that give up what came before, only the second text counts. -/
theorem Settles.append (ha : Settles a P) (hsep : GivesUp sep) (hb : Settles b Q) :
    Settles (a ++ (sep ++ b)) (b ≠ [] ∧ Q) := by
  obtain ⟨c, sep, rfl⟩ := List.exists_cons_of_ne_nil hsep.ne_nil
  have hc := hsep.separators c List.mem_cons_self
  intro s u hstart
  obtain ⟨u', hstart', rfl⟩ := Start.of_append hc hstart
  obtain ⟨r, hr, hread, -⟩ := ha s u' hstart'
  obtain ⟨r', hr', hread', hQ⟩ := hb none b (.top (.inl rfl))
  rw [← hsep.reads hr b] at hread'
  refine ⟨r', hr', ?_, ?_⟩
  · exact transition_append_eq_ok hstart'.proper hread hread' (.of_not_fuses (not_fuses_cons u' _ hc))
  · rintro rfl
    refine ⟨?_, hQ rfl⟩
    rintro rfl
    rw [hsep.reads hr, Lexer.transition_nil] at hread'
    cases hread'

/-- A blank behind a text changes nothing. -/
theorem Settles.append_blank (h : Settles t P) : Settles (t ++ [' ']) P := by
  intro s u hstart
  obtain ⟨u', hstart', rfl⟩ := Start.of_append (c := ' ') (by decide) hstart
  obtain ⟨r, hr, hread, hP⟩ := h s u' hstart'
  have hblank : lexer.transition r [' '] = .ok r := by
    rcases hr with rfl | rfl
    · rw [transition_none_of_idle (by decide), Lexer.transition_nil]
    · rw [transition_continuation_blank (by decide), Lexer.transition_nil]
  have hjoins := Joins.of_not_fuses (q := r) (not_fuses_cons u' [] (c := ' ') (by decide))
  exact ⟨r, hr, transition_append_eq_ok hstart'.proper hread hblank hjoins, hP⟩

theorem Settles.blank_cons (h : Settles t P) : Settles (' ' :: t) P := by
  have htop {s : Option State} (hs : AtTop s) :
      ∃ r, AtTop r ∧ lexer.transition s (' ' :: t) = .ok r ∧ (r = some .continuation → P) := by
    rcases hs with rfl | rfl
    · rw [transition_none_of_idle (by decide)]
      exact h none t (.top (.inl rfl))
    · rw [transition_continuation_blank (by decide)]
      exact h _ t (.top (.inr rfl))
  intro s u hstart
  cases hstart with
  | top hs => exact htop hs
  | quote hq ht =>
    have hhead := (List.cons.inj ht).1
    exact absurd hhead (isSeparator_ne_quote (by decide) (Quote.mark_eq _))
  | word => exact htop (.inl rfl)

/-! ### Texts that can be taken up at their end -/

/-- A text that is read to top level however its reading begins, and behind which a string can be
taken up only if the text ends with an apostrophe. -/
def Settled (t : Text) : Prop := Settles t (t = [] ∨ t.getLast? = some apostrophe)

theorem settled_nil : Settled [] := by
  intro s u hstart
  cases hstart with
  | top hs => exact ⟨s, hs, Lexer.transition_nil _ _, fun _ => .inl rfl⟩
  | quote hq ht => cases ht
  | word => exact endsAtTop_of_none (Lexer.transition_nil _ _)

theorem Settled.append (ha : Settles a P) (hsep : GivesUp sep) (hb : Settled b) :
    Settled (a ++ (sep ++ b)) := by
  apply (ha.append hsep hb).mono
  rintro ⟨hne, hlast⟩
  have hlast := hlast.resolve_left hne
  right
  rw [List.getLast?_append, List.getLast?_append, hlast]
  rfl

theorem Settled.brackets (ha : Settles a P) : Settled ('(' :: (a ++ [')'])) := by
  have hinner : Settled (a ++ ([')'] ++ [])) := .append ha givesUp_closing settled_nil
  exact .append settled_nil givesUp_opening hinner

/-- A text that nothing opens in, and that begins with no blank. -/
theorem settled_of_calm (h : Calm t) (hhead : ∀ c, t.head? = some c → isBlank c = false) :
    Settled t := by
  by_cases hne : t = []
  · subst hne
    exact settled_nil
  intro s u hstart
  cases hstart with
  | top hs => exact endsAtTop_of_none (transition_of_calm h hne hhead hs)
  | @quote q u hq ht =>
    -- A quote opens something, with or without a letter before it.
    exfalso
    have hopened := h t List.suffix_rfl
    rcases q.mark_eq with hmark | hmark
    · have := opened?_opener (s := .quoted .string) trivial u
      rw [ht, hmark] at hopened
      exact absurd (hopened.symm.trans this) (by simp)
    · have := opened?_opener (s := .quoted .name) trivial u
      rw [ht, hmark] at hopened
      exact absurd (hopened.symm.trans this) (by simp)
  | word =>
    have hcalm := h.of_suffix (List.dropWhile_suffix isWordPart)
    exact endsAtTop_of_none (transition_none_of_calm hcalm)

/-! ### Strings, bytes and names -/

theorem mark_eq_apostrophe_of_between {q : Quote} {body : Text}
    (h : between apostrophe body = q.mark :: u) : q.mark = apostrophe ∧ u = body ++ [apostrophe] := by
  obtain ⟨hmark, hu⟩ := List.cons.inj h
  exact ⟨hmark.symm, hu.symm⟩

/-- A string without escapes is read to its end by the rules of every string. -/
theorem settled_between {body : Text} (h : ∀ escapes, readBody apostrophe escapes body = .inside) :
    Settled (between apostrophe body) := by
  have hlast : (between apostrophe body).getLast? = some apostrophe := by
    simp [between, List.getLast?_cons, List.getLast?_append]
  intro s u hstart
  cases hstart with
  | top hs =>
    obtain ⟨r, hr, hread⟩ := standing_between (h false) (h true) s hs
    exact ⟨r, hr, hread, fun _ => .inr hlast⟩
  | @quote q u hq ht =>
    obtain ⟨hmark, rfl⟩ := mark_eq_apostrophe_of_between ht
    exact ⟨q.after, q.atTop_after, transition_none_between hmark (h q.escapes), fun _ => .inr hlast⟩
  | word => exact endsAtTop_of_none (transition_none_string (h false))

/-- A string with escapes loses its letter to a word before it, and its body is right then, too. -/
theorem settled_escapeString {body : Text}
    (h : ∀ escapes, readBody apostrophe escapes body = .inside) :
    Settled ('E' :: between apostrophe body) := by
  have hlast : ('E' :: between apostrophe body).getLast? = some apostrophe := by
    simp [between, List.getLast?_cons, List.getLast?_append]
  intro s u hstart
  cases hstart with
  | top hs =>
    obtain ⟨r, hr, hread⟩ := standing_escapeString (h true) s hs
    exact ⟨r, hr, hread, fun _ => .inr hlast⟩
  | @quote q u hq ht =>
    have hmark := (List.cons.inj ht).1
    rcases q.mark_eq with hq | hq
    · rw [hq] at hmark
      exact absurd hmark (by decide)
    · rw [hq] at hmark
      exact absurd hmark (by decide)
  | word => exact endsAtTop_of_none (transition_none_string (h false))

theorem settled_quoteString (t : Text) : Settled (quoteString t) := by
  rw [quoteString]
  cases hneeds : needsEscapes t with
  | true => exact settled_escapeString fun escapes => readBody_escapeBody_either escapes t
  | false => exact settled_between (readBody_doubled_either hneeds)

theorem settled_of_isTagChar (h : ∀ c ∈ t, isTagChar c) : Settled t :=
  settled_of_calm (calm_of_isTagChar h) (isBlank_head?_of_isTagChar h)

theorem settled_quoteBlob (data : List UInt8) : Settled (quoteBlob data) := by
  have hhex {t : Text} (ht : ∀ c ∈ t, c.isAlphanum) : Settled (between apostrophe t) :=
    settled_between fun escapes => readBody_of_isAlphanum (by decide) ht
  have hdecode : Settled "decode".toList := settled_of_isTagChar (List.all_eq_true.1 (by decide))
  have hdata := hhex (t := hexBytes data) fun c => isAlphanum_of_mem_hexBytes
  have hform := hhex (t := "hex".toList) (List.all_eq_true.1 (by decide))
  rw [quoteBlob_eq]
  apply Settled.append hdecode givesUp_opening
  exact .append hdata givesUp_comma (.append hform givesUp_closing settled_nil)

/-- Spacing keeps nothing from being given up by the name behind it. -/
theorem transition_continuation_spacing {before : Text} (h : IsSpacing before) (t : Text) :
    lexer.transition (some .continuation) (before ++ quotation :: t) =
      lexer.transition none (before ++ quotation :: t) := by
  induction before with
  | nil =>
    exact transition_continuation_of_other (by decide) (by decide)
      (commentOpened?_cons_eq_none (by decide) (by decide) _)
  | cons c before ih =>
    have hc := isSeparator_of_mem_spacing h List.mem_cons_self
    rw [List.cons_append]
    cases hblank : isBlank c with
    | true =>
      rw [transition_continuation_blank hblank, transition_none_of_idle (isIdle_of_isSeparator hc)]
      exact ih fun d hd => h d (by simp [hd])
    | false => exact transition_continuation_separator hc hblank _

/-- A name that ends at the same place is read in the same way with and without a letter. -/
theorem transition_name_eq {q : Quote} (hq : q.isName) (hu : EndsAlike u)
    (h : lexer.transition (some (.quoted .name)) u = .ok none) :
    lexer.transition (some (.quoted q)) u = .ok none := by
  have hmark : q.mark = quotation := if_pos hq
  have hafter : q.after = Quote.name.after := by cases q <;> first | rfl | contradiction
  cases he : readBody Quote.name.mark Quote.name.escapes u with
  | inside =>
    rw [transition_quoted_of_inside he] at h
    cases h
  | closed rest =>
    have hbody : readBody q.mark q.escapes u = .closed rest := by
      rw [hmark]
      cases q.escapes with
      | true => exact hu rest he
      | false => exact he
    rw [transition_quoted_of_closed he] at h
    rw [transition_quoted_of_closed hbody, hafter, h]
  | halfEscape =>
    rw [transition_quoted_of_halfEscape he] at h
    cases h

theorem Listed.settles {start : Text} {leads trails : Bool} (h : Listed false start leads trails t)
    (hread : lexer.transition none t = .ok none) : Settles t False := by
  obtain ⟨hbefore, -, -, -, -, -⟩ := h
  rename_i before body after
  rw [show nameOpener false = [quotation] from rfl, List.singleton_append] at hread ⊢
  intro s u hstart
  cases hstart with
  | top hs =>
    apply endsAtTop_of_none
    rcases hs with rfl | rfl
    · exact hread
    · rw [transition_continuation_spacing hbefore, hread]
  | @quote q u hq ht =>
    cases before with
    | cons c before =>
      have hc := isSeparator_of_mem_spacing hbefore List.mem_cons_self
      exact absurd (List.cons.inj ht).1 (isSeparator_ne_quote hc q.mark_eq)
    | nil =>
      obtain ⟨hmark, rfl⟩ := List.cons.inj ht
      have hname : q.isName := by
        rw [Quote.mark] at hmark
        split at hmark
        · assumption
        · cases hmark
      have hopened := opened?_opener (s := .quoted .name) trivial (body ++ quotation :: after)
      rw [List.nil_append, show quotation :: (body ++ quotation :: after) =
        State.opener (.quoted .name) ++ (body ++ quotation :: after) from rfl,
        transition_none_of_opened hopened] at hread
      exact endsAtTop_of_none (transition_name_eq hname (hq hname) hread)
  | word =>
    apply endsAtTop_of_none
    have hdrop : (before ++ quotation :: (body ++ quotation :: after)).dropWhile isWordPart =
        before ++ quotation :: (body ++ quotation :: after) := by
      cases before with
      | nil => rfl
      | cons c before =>
        have hc := isSeparator_of_mem_spacing hbefore List.mem_cons_self
        exact List.dropWhile_cons_of_neg (by simp [isWordPart_of_isSeparator hc])
    rw [hdrop, hread]

theorem settles_of_spacing (h : IsSpacing t) : Settles t True := by
  have hread := standing_of_isSpacing h
  intro s u hstart
  cases hstart with
  | top hs =>
    obtain ⟨r, hr, hread⟩ := hread s hs
    exact ⟨r, hr, hread, fun _ => trivial⟩
  | @quote q u hq ht =>
    have hc := isSeparator_of_mem_spacing h (ht ▸ List.mem_cons_self)
    exact absurd rfl (isSeparator_ne_quote hc q.mark_eq)
  | word =>
    have hdrop : t.dropWhile isWordPart = t := dropWhile_of_head? fun c hc =>
      isWordPart_of_isSeparator (isSeparator_of_mem_spacing h (List.mem_of_head? hc))
    obtain ⟨r, hr, hread⟩ := hread none (.inl rfl)
    exact ⟨r, hr, by rw [hdrop, hread], fun _ => trivial⟩

/-! ### Values -/

section Values

variable {trust : TrustPolicy} {surroundings : Surroundings} {options : Options}
  {forbidQualified : Bool} {v : Value}

theorem settles_of_escapeName (hv : v.holdsFragment trust = false)
    (h : (nameStyle false).escape trust forbidQualified v = .ok t) :
    Settles t (v.leaves = []) := by
  obtain ⟨hspacing, hlisted⟩ := listed_of_escape hv h
  by_cases hleaves : v.leaves = []
  · exact (settles_of_spacing (hspacing hleaves)).mono fun _ => hleaves
  · have hread := transition_none_of_escapeName hv h
    exact ((hlisted hleaves).settles hread).mono False.elim

theorem settled_texts (trust : TrustPolicy) : HoldsOfTexts grammar trust Settled where
  null := settled_of_isTagChar (List.all_eq_true.1 (by decide))
  bool b := by cases b <;> exact settled_of_isTagChar (List.all_eq_true.1 (by decide))
  number h := settled_of_calm (calm_of_isNumeral h) (isBlank_head?_of_isNumeral h)
  string := settled_quoteString
  blob := settled_quoteBlob
  identifier h := by
    apply (settles_of_escapeName rfl h).mono
    simp [Value.leaves]
  nil := settled_nil
  comma ha hb := .append ha givesUp_comma hb
  brackets ha := .brackets ha
  assignment hkey hname hitem := by
    rw [List.append_assoc]
    exact .append (settles_of_escapeName hkey hname) givesUp_sign hitem

/-- However its reading begins, the text of a value without trusted fragments is read to top
level, and a string can be taken up behind it only if it ends with an apostrophe. -/
theorem settled_escape (hv : v.holdsFragment surroundings.trust = false)
    (h : grammar.escape surroundings options v = .ok t) : Settled t :=
  (settled_texts surroundings.trust).of_escape hv h

end Values

end SqlWeave.Postgres
