/-
SqlWeave/Proofs/Postgres/Seams.lean

The two seams of a gap between tokens.  Few openers are cut in two by the text of a value: of
those that end in it, it brings the second dash of a comment or a quote, and none begins in it
and ends behind it.  So not much can run into a filling or over it.

Main results: the text of a value without trusted fragments cuts no opener but those
(`sealed_escape`); behind a text that runs into it in neither of two ways, a filling is read to
top level (`transition_before`), and the next chunk is read from there unless a dollar tag or a
word runs over the filling (`joins_after`).
-/
import SqlWeave.Proofs.Postgres.Settled

namespace SqlWeave.Postgres

open Text

variable {a b sep t : Text} {c : Char} {P : Prop}

/-! ### Openers at the two ends -/

/-- The characters that the first part of an opener can end with. -/
def isCutEnd (c : Char) : Bool := isTagChar c || c = '-' || c = '/' || c = '&' || c = '$'

theorem CutOpener.exists_getLast? {s : State} {x z : Text} (h : CutOpener s x z) :
    ∃ c, x.getLast? = some c ∧ isCutEnd c := by
  have htag {c : Char} (hc : isTagChar c) : isCutEnd c := by simp [isCutEnd, hc]
  cases h with
  | dashes => exact ⟨'-', rfl, rfl⟩
  | slash => exact ⟨'/', rfl, rfl⟩
  | letter hc hq => exact ⟨_, rfl, htag (isTagChar_of_isQuoteLetter hc)⟩
  | beforeAmpersand hc => exact ⟨_, rfl, htag (isTagChar_of_isQuoteLetter hc)⟩
  | behindAmpersand hc => exact ⟨'&', rfl, rfl⟩
  | @dollar tag name more hname hmore =>
    obtain ⟨c, hc⟩ := Option.ne_none_iff_exists'.1
      (mt List.getLast?_eq_none_iff.1 (List.cons_ne_nil '$' name))
    refine ⟨c, hc, ?_⟩
    rcases List.mem_cons.1 (List.mem_of_getLast? hc) with rfl | hmem
    · rfl
    · exact htag (hname c hmem)

theorem CutOpener.not_mem {s : State} {x z : Text} (h : CutOpener s x z) (hc : isSeparator c) :
    c ∉ x := by
  have hopener := (isSeparator_iff.1 hc).1
  have htag {d : Char} (hd : isTagChar d) : isOpenerChar d := by simp [isOpenerChar, hd]
  have hall : ∀ d ∈ x, isOpenerChar d := by
    cases h with
    | dashes => simp; decide
    | slash => simp; decide
    | letter hc hq => simpa using htag (isTagChar_of_isQuoteLetter hc)
    | beforeAmpersand hc => simpa using htag (isTagChar_of_isQuoteLetter hc)
    | behindAmpersand hc =>
      have hd := htag (isTagChar_of_isQuoteLetter hc)
      simp [hd]
      decide
    | dollar hname hmore =>
      rintro d (_ | ⟨_, hd⟩)
      · rfl
      · exact htag (hname d hd)
  intro hmem
  rw [hall c hmem] at hopener
  cases hopener

/-- A text that cuts few openers in two: those that end in it are the opener of a comment with
its second dash and those of quotes; none begins in it and ends behind it. -/
structure Sealed (t : Text) : Prop where
  front : ∀ c, (t.dropWhile isTagChar).head? = some c → c ≠ '$' ∧ c ≠ '*' ∧ c ≠ '&'
  back : ∀ {s : State} {y x z : Text}, CutOpener s x z → t = y ++ x → ¬Fresh y x

theorem sealed_nil : Sealed [] where
  front := nofun
  back hcut htext := by
    obtain ⟨-, rfl⟩ := List.append_eq_nil_iff.1 htext.symm
    obtain ⟨c, hc, -⟩ := hcut.exists_getLast?
    cases hc

/-- Behind another text, a cut opener that ends in this one holds all of it. -/
theorem Sealed.exists_of_cut (h : Sealed b) {s : State} {y x z : Text} (hcut : CutOpener s x z)
    (htext : a ++ b = y ++ x) (hfresh : Fresh y x) : ∃ u, u ≠ [] ∧ a = y ++ u ∧ x = u ++ b := by
  rcases List.append_eq_append_iff.1 htext with ⟨u, rfl, hb⟩ | ⟨u, ha, hx⟩
  · exact absurd hfresh.of_append (h.back hcut hb)
  · refine ⟨u, ?_, ha, hx⟩
    rintro rfl
    rw [List.append_nil] at ha
    rw [List.nil_append] at hx
    subst ha hx
    have hfresh : Fresh (a ++ []) x := by rwa [List.append_nil]
    exact h.back hcut (List.nil_append _).symm hfresh.of_append

theorem ne_of_isSeparator (hc : isSeparator c) : c ≠ '$' ∧ c ≠ '*' ∧ c ≠ '&' := by
  refine ⟨?_, ?_, ?_⟩
  all_goals
    rintro rfl
    revert hc
    decide

/-- Separators between two texts keep openers from running through. -/
theorem Sealed.append (ha : Sealed a) (hne : sep ≠ []) (hsep : ∀ c ∈ sep, isSeparator c)
    (hb : Sealed b) : Sealed (a ++ (sep ++ b)) where
  front c hc := by
    obtain ⟨d, sep, rfl⟩ := List.exists_cons_of_ne_nil hne
    have hd := hsep d List.mem_cons_self
    have hdrop : (d :: sep ++ b).dropWhile isTagChar = d :: (sep ++ b) :=
      List.dropWhile_cons_of_neg (by simp [isTagChar_of_isSeparator hd])
    rw [List.dropWhile_append, hdrop] at hc
    split at hc
    · obtain rfl : d = c := Option.some.inj hc
      exact ne_of_isSeparator hd
    · rename_i hrest
      obtain ⟨e, rest, he⟩ := List.exists_cons_of_ne_nil (mt List.isEmpty_iff.2 hrest)
      rw [he] at hc
      exact ha.front c (by rw [he]; exact hc)
  back {s y x z} hcut htext hfresh := by
    rw [← List.append_assoc] at htext
    obtain ⟨u, hu, ha, rfl⟩ := hb.exists_of_cut hcut htext hfresh
    -- The opener would hold the last of the separators.
    obtain ⟨c, hc⟩ := Option.ne_none_iff_exists'.1 (mt List.getLast?_eq_none_iff.1 hu)
    obtain ⟨d, hd⟩ := Option.ne_none_iff_exists'.1 (mt List.getLast?_eq_none_iff.1 hne)
    obtain rfl : d = c := by
      have hlast := congrArg List.getLast? ha
      rw [List.getLast?_append, List.getLast?_append, hc, hd] at hlast
      exact Option.some.inj hlast
    have hmem := List.mem_append_left b (List.mem_of_getLast? hc)
    exact hcut.not_mem (hsep d (List.mem_of_getLast? hd)) hmem

theorem Sealed.givenUp (ha : Sealed a) (hsep : GivesUp sep) (hb : Sealed b) :
    Sealed (a ++ (sep ++ b)) :=
  ha.append hsep.ne_nil hsep.separators hb

theorem Sealed.brackets (ha : Sealed a) : Sealed ('(' :: (a ++ [')'])) := by
  have hinner : Sealed (a ++ ([')'] ++ [])) := ha.givenUp givesUp_closing sealed_nil
  exact sealed_nil.givenUp givesUp_opening hinner

theorem not_fresh_of_getLast? (hlast : ∀ c, t.getLast? = some c → isCutEnd c = false)
    {s : State} {y x z : Text} (hcut : CutOpener s x z) (htext : t = y ++ x) : ¬Fresh y x := by
  obtain ⟨c, hc, hend⟩ := hcut.exists_getLast?
  rw [hlast c (by rw [htext, List.getLast?_append, hc]; rfl)] at hend
  cases hend

theorem isWordPart_of_isQuoteLetter (h : isQuoteLetter c) : isWordPart c := by
  rcases eq_of_isQuoteLetter h with rfl | rfl | rfl | rfl | rfl | rfl | rfl | rfl <;> decide

/-- A word whose last letter may stand before a quote: it belongs to the word. -/
theorem sealed_of_isTagChar (h : ∀ c ∈ t, isTagChar c) (hword : endsInsideWord t.dropLast) :
    Sealed t where
  front c hc := by
    rw [List.dropWhile_eq_nil_iff.2 (by simpa using h)] at hc
    cases hc
  back {s y x z} hcut htext hfresh := by
    have hno {c : Char} (hc : c ∈ x) (hnot : isTagChar c = false) : False := by
      rw [h c (htext ▸ List.mem_append_right y hc)] at hnot
      cases hnot
    have hletter {c : Char} (hc : isQuoteLetter c) (hx : x = [c]) : False := by
      subst hx
      rw [htext, List.dropLast_concat] at hword
      have := hfresh hword c rfl
      rw [isWordPart_of_isQuoteLetter hc] at this
      cases this
    cases hcut with
    | dashes => exact hno List.mem_cons_self (by decide)
    | slash => exact hno List.mem_cons_self (by decide)
    | letter hc hq => exact hletter hc rfl
    | beforeAmpersand hc => exact hletter hc rfl
    | behindAmpersand hc => exact hno (c := '&') (by simp) (by decide)
    | dollar hname hmore => exact hno List.mem_cons_self (by decide)

theorem sealed_of_isNumeral (h : IsNumeral t) : Sealed t where
  front c hc := by
    have hmem := h.mem ((List.dropWhile_subset _) (List.mem_of_head? hc))
    refine ⟨?_, ?_, ?_⟩
    all_goals
      rintro rfl
      revert hmem
      decide
  back {s y x z} hcut htext := by
    -- No letter in front of a quote ends a number.
    have hend {c : Char} (hc : x.getLast? = some c) (hnot : isNumeralEnd c = false) : False := by
      rw [h.getLast? (by rw [htext, List.getLast?_append, hc]; rfl)] at hnot
      cases hnot
    have hletter {c : Char} (hc : isQuoteLetter c) : isNumeralEnd c = false := by
      rcases eq_of_isQuoteLetter hc with rfl | rfl | rfl | rfl | rfl | rfl | rfl | rfl <;> decide
    intro _
    cases hcut with
    | dashes => exact hend rfl (by decide)
    | slash => exact hend rfl (by decide)
    | letter hc hq => exact hend rfl (hletter hc)
    | beforeAmpersand hc => exact hend rfl (hletter hc)
    | behindAmpersand hc => exact hend (c := '&') rfl (by decide)
    | dollar hname hmore =>
      have hmem := h.mem (c := '$') (by simp [htext])
      revert hmem
      decide

/-- Strings, with and without a letter in front of them. -/
theorem sealed_of_apostrophes (hhead : (t.dropWhile isTagChar).head? = some apostrophe)
    (hlast : t.getLast? = some apostrophe) : Sealed t where
  front c hc := by
    obtain rfl : apostrophe = c := Option.some.inj (hhead.symm.trans hc)
    decide
  back := not_fresh_of_getLast? fun c hc => by
    obtain rfl : apostrophe = c := Option.some.inj (hlast.symm.trans hc)
    decide

theorem sealed_between (body : Text) : Sealed (between apostrophe body) := by
  apply sealed_of_apostrophes rfl
  simp [between, List.getLast?_cons, List.getLast?_append]

theorem sealed_escapeString (body : Text) : Sealed ('E' :: between apostrophe body) := by
  apply sealed_of_apostrophes rfl
  simp [between, List.getLast?_cons, List.getLast?_append]

theorem sealed_quoteString (t : Text) : Sealed (quoteString t) := by
  unfold quoteString
  split
  · exact sealed_escapeString _
  · exact sealed_between _

theorem sealed_quoteBlob (data : List UInt8) : Sealed (quoteBlob data) := by
  have hdecode : Sealed "decode".toList :=
    sealed_of_isTagChar (List.all_eq_true.1 (by decide)) (by decide)
  have hform := (sealed_between "hex".toList).givenUp givesUp_closing sealed_nil
  rw [quoteBlob_eq]
  apply hdecode.givenUp givesUp_opening
  exact (sealed_between _).givenUp givesUp_comma hform

/-- Names in their spacing end and begin with a quotation mark or a separator. -/
theorem sealed_of_ends (hhead : ∀ c, t.head? = some c → c = quotation ∨ isSeparator c)
    (hlast : ∀ c, t.getLast? = some c → c = quotation ∨ isSeparator c) : Sealed t where
  front c hc := by
    have hdrop : t.dropWhile isTagChar = t := by
      apply dropWhile_of_head?
      intro d hd
      rcases hhead d hd with rfl | hd
      · decide
      · exact isTagChar_of_isSeparator hd
    rw [hdrop] at hc
    rcases hhead c hc with rfl | hc
    · decide
    · exact ne_of_isSeparator hc
  back := not_fresh_of_getLast? fun c hc => by
    rcases hlast c hc with rfl | hc
    · decide
    · have hopener := (isSeparator_iff.1 hc).1
      simp only [isOpenerChar, Bool.or_eq_false_iff] at hopener
      simp [isCutEnd, hopener]

section Values

variable {trust : TrustPolicy} {surroundings : Surroundings} {options : Options}
  {forbidQualified : Bool} {v : Value}

theorem sealed_of_escapeName (hv : v.holdsFragment trust = false)
    (h : (nameStyle false).escape trust forbidQualified v = .ok t) : Sealed t := by
  obtain ⟨hspacing, hlisted⟩ := listed_of_escape hv h
  have hsep {a : Text} (ha : IsSpacing a) {c : Char} (hc : c ∈ a) : c = quotation ∨ isSeparator c :=
    .inr (isSeparator_of_mem_spacing ha hc)
  by_cases hleaves : v.leaves = []
  · have hall := hspacing hleaves
    exact sealed_of_ends (fun c hc => hsep hall (List.mem_of_head? hc))
      fun c hc => hsep hall (List.mem_of_getLast? hc)
  · obtain ⟨hbefore, hafter, -, -, -, -⟩ := hlisted hleaves
    refine sealed_of_ends (fun c hc => ?_) fun c hc => ?_
    · rename_i before body after
      cases before with
      | nil => exact .inl (Option.some.inj hc).symm
      | cons d before =>
        obtain rfl : d = c := Option.some.inj hc
        exact hsep hbefore List.mem_cons_self
    · rename_i before body after
      rw [← List.append_assoc, ← List.append_assoc, List.getLast?_append, List.getLast?_cons] at hc
      cases hl : after.getLast? with
      | none => exact .inl (by simpa [hl] using hc.symm)
      | some d =>
        obtain rfl : d = c := by simpa [hl] using hc
        exact hsep hafter (List.mem_of_getLast? hl)

theorem sealed_texts (trust : TrustPolicy) : HoldsOfTexts grammar trust Sealed where
  null := sealed_of_isTagChar (List.all_eq_true.1 (by decide)) (by decide)
  bool b := by cases b <;> exact sealed_of_isTagChar (List.all_eq_true.1 (by decide)) (by decide)
  number := sealed_of_isNumeral
  string := sealed_quoteString
  blob := sealed_quoteBlob
  identifier h := sealed_of_escapeName rfl h
  nil := sealed_nil
  comma ha hb := ha.givenUp givesUp_comma hb
  brackets ha := ha.brackets
  assignment hkey hname hitem := by
    rw [List.append_assoc]
    exact (sealed_of_escapeName hkey hname).givenUp givesUp_sign hitem

/-- Of the openers that are cut in two at the ends of the text of a value without trusted
fragments, those that end in it are that of a comment and those of quotes. -/
theorem sealed_escape (hv : v.holdsFragment surroundings.trust = false)
    (h : grammar.escape surroundings options v = .ok t) : Sealed t :=
  (sealed_texts surroundings.trust).of_escape hv h

end Values

/-! ### The two seams of a gap -/

/-- What may run from the text before a gap into its filling and change how it is read. -/
inductive RunsInto (front f : Text) : Prop
  /-- Two dashes open a comment. -/
  | dashes (ha : front.getLast? = some '-') (hb : f.head? = some '-')
  /-- A name gets a letter in front of it, and ends elsewhere, since its backslashes count now. -/
  | letter {y u rest : Text} {upper : Bool} (ha : front = y ++ [Quote.letter 'u' upper, '&'])
      (hfresh : Fresh y [Quote.letter 'u' upper, '&']) (hb : f = quotation :: u)
      (hends : readBody quotation false u = .closed rest)
      (hescape : readBody quotation true u ≠ .closed rest)

/-- What may run out of a filling, or over it, into the next chunk. -/
inductive RunsOver (front f chunk : Text) : Prop
  /-- The filling is a part of a dollar tag. -/
  | tag {y name more rest : Text} (ha : front = y ++ '$' :: name) (hb : chunk = more ++ '$' :: rest)
      (htag : isTag ('$' :: (name ++ f ++ more ++ ['$']))) (hfresh : Fresh y ('$' :: name))
  /-- A word goes on in the chunk, and something opens inside of it there. -/
  | word (ha : endsInWord (front ++ f)) (hb : opensInWord chunk)

variable {front f chunk : Text} {q r : Option State}

/-- What a cut opener asks of a filling that ends it. -/
theorem CutOpener.runsInto_or_start {k : State} {y x z rest : Text} (h : CutOpener k x z)
    (hopener : k.opener = x ++ z) (hfresh : Fresh y x) (hf : Sealed (z ++ rest)) :
    RunsInto (y ++ x) (z ++ rest) ∨ Start (z ++ rest) (some k) rest := by
  cases h with
  | dashes => exact .inl (.dashes (by simp) rfl)
  | slash => exact absurd rfl (hf.front '*' rfl).2.1
  | letter hc hq =>
    refine .inr (.quote (fun hname => ?_) rfl)
    rw [hq] at hname
    cases hname
  | beforeAmpersand hc => exact absurd rfl (hf.front '&' rfl).2.2
  | @behindAmpersand k c hc =>
    by_cases halike : k.isName → EndsAlike rest
    · exact .inr (.quote halike rfl)
    · obtain ⟨hname, halike⟩ := Classical.not_imp.1 halike
      obtain ⟨after, halike⟩ := Classical.not_forall.1 halike
      obtain ⟨hends, hescape⟩ := Classical.not_imp.1 halike
      left
      cases k with
      | unicodeName upper =>
        obtain rfl : Quote.letter 'u' upper = c := (List.cons.inj hopener).1
        exact .letter rfl hfresh rfl hends hescape
      | name => cases hopener
      | _ => cases hname
  | dollar hname hmore =>
    rename_i more
    refine absurd rfl (hf.front '$' ?_).1
    rw [List.append_assoc, List.dropWhile_append_of_pos (by simpa using hmore)]
    rfl

/-- A filling that is read to top level however its reading begins is so behind any text that
runs into it in no other way. -/
theorem transition_before (hfront : lexer.transition none front = .ok q) (hq : AtTop q)
    (hquotes : ¬QuotesMeet front f) (hf : Sealed f) (hreads : Settles f P)
    (hruns : ¬RunsInto front f) :
    ∃ r, AtTop r ∧ lexer.transition none (front ++ f) = .ok r ∧ (r = some .continuation → P) := by
  have habuts : Abuts q front f := by
    refine ⟨fun _ hmeet => ?_, fun _ => hquotes⟩
    rcases hmeet with ⟨ha, hb⟩ | ⟨-, hb⟩
    · exact hruns (.dashes ha hb)
    · obtain ⟨rest, rfl⟩ := List.head?_eq_some_iff.1 hb
      exact (hf.front '*' rfl).2.1 rfl
  obtain ⟨s, u, hresumes, hagree⟩ := resumed_append (s := none) trivial hfront habuts
  have hstart : Start f s u := by
    cases hresumes with
    | apart => exact .top hq
    | opener hq hs ha hb hx hz hopener hfresh =>
      subst ha hb
      have hcut := cutOpener_of_eq hs hopener hx hz
      exact (hcut.runsInto_or_start hopener hfresh hf).resolve_left hruns
    | word hq ha hb => exact .word
  obtain ⟨r, hr, hread, hP⟩ := hreads s u hstart
  rw [hread] at hagree
  exact ⟨r, hr, hagree.eq_ok, hP⟩

/-- An opener that begins before a filling and ends behind it is a dollar tag. -/
theorem CutOpener.runsOver {k : State} {y x z rest : Text} (h : CutOpener k (x ++ f) z)
    (hopener : k.opener = x ++ f ++ z) (hs : k.IsOpened) (hx : x ≠ []) (hne : f ≠ [])
    (hfresh : Fresh y (x ++ f)) (hf : Sealed f) : RunsOver (y ++ x) f (z ++ rest) := by
  obtain ⟨c, x, rfl⟩ := List.exists_cons_of_ne_nil hx
  obtain ⟨d, f, rfl⟩ := List.exists_cons_of_ne_nil hne
  generalize he : c :: x ++ d :: f = w at h
  have hlen : 2 ≤ w.length := by
    rw [← he]
    simp
    omega
  cases h with
  | dashes | slash | letter | beforeAmpersand => simp at hlen
  | behindAmpersand hc =>
    obtain ⟨-, he⟩ := List.cons.inj he
    cases x with
    | nil =>
      obtain ⟨rfl, rfl⟩ := List.cons.inj he
      exact absurd rfl (hf.front '&' rfl).2.2
    | cons c x =>
      have := congrArg List.length he
      simp at this
  | dollar hname hmore =>
    rename_i tag name more
    obtain ⟨rfl, he⟩ := List.cons.inj he
    have hchunk : more ++ ['$'] ++ rest = more ++ '$' :: rest := by simp
    refine .tag rfl hchunk ?_ ?_
    · have htag : isTag tag := hs
      have htext : tag = '$' :: x ++ d :: f ++ (more ++ ['$']) := hopener
      rw [htext] at htag
      simpa using htag
    · intro hinside c hc
      exact hfresh hinside c (by simpa using hc)

/-- Nothing runs on from a filling into the next chunk but a dollar tag around it and a word. -/
theorem joins_after (hne : f ≠ []) (hf : Sealed f) (hquotes : ¬QuotesMeet (front ++ f) chunk)
    (hruns : ¬RunsOver front f chunk) (r : Option State) : Joins r (front ++ f) chunk := by
  refine ⟨fun _ hfuses => ?_, fun _ => hquotes⟩
  cases hfuses with
  | quotes h => exact hquotes h
  | word ha hb => exact hruns (.word ha hb)
  | opener hs ha hb hx hz hopener hfresh =>
    have hcut := cutOpener_of_eq hs hopener hx hz
    obtain ⟨u, hu, rfl, rfl⟩ := hf.exists_of_cut hcut ha hfresh
    subst hb
    exact hruns (hcut.runsOver hopener hs hu hne hfresh hf)

end SqlWeave.Postgres
