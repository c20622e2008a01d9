/-
SqlWeave/Proofs/Postgres/Statement.lean

Whole statements of Postgres.  The analysis reads the literal chunks and never sees a value; the
finished text is read as one.  A value in an open quote stays inside of it.  A value between
tokens is read to top level, behind any text that leaves nothing open; blanks keep its quotes
from those around it, and the check behind it keeps a string from being taken up across the end
of a line.

What is left are the tokens that are made of the end of one text and the beginning of the next,
where neither the blanks nor the check look (`Breach`): a comment of two dashes, a letter in
front of a name, a dollar tag or a word around a value, whatever meets across a value that is
written as nothing, and a string that is taken up on the line it was closed on.

Main results: where no gap is a breach, the finished statement is read to its end, and up to each
gap it leaves open what the chunks alone leave open there (`weave_shows`).  Each kind of breach
makes a statement that is not read to its end (`analysis_misses_seams`).
-/
import Mathlib
import SqlWeave.Proofs.Postgres.Gap
import SqlWeave.Proofs.Postgres.Seams
import SqlWeave.Proofs.Splice
import SqlWeave.Proofs.Template.Run
import SqlWeave.Proofs.Template.Seam

namespace SqlWeave.Postgres

open Text Template

variable {surroundings : Surroundings} {options : Options}

/-! ### What is open, but for the case of a letter -/

/-- Whether a reading of the finished text leaves open what the chunks alone leave open: the
same construct without regard to the case of a letter, or, where they leave nothing open, a
string with escapes that has just been closed. -/
def Shows (k q : Option State) : Prop :=
  q.map State.folded = k.map State.folded ∨ k = none ∧ q = some .continuation

theorem Shows.refl (k : Option State) : Shows k k := .inl rfl

theorem Shows.atTop {q : Option State} (h : Shows none q) : AtTop q := by
  rcases h with h | ⟨-, h⟩
  · exact .inl (Option.map_eq_none_iff.1 h)
  · exact .inr h

theorem Shows.exists_eq {s : State} {q : Option State} (h : Shows (some s) q) :
    ∃ s', q = some s' ∧ s'.folded = s.folded := by
  rcases h with h | ⟨h, -⟩
  · obtain ⟨s', rfl, hs⟩ := Option.map_eq_some_iff.1 h
    exact ⟨s', rfl, hs⟩
  · contradiction

theorem Shows.exists_quote_eq {k : Quote} {q : Option State} (h : Shows (some (.quoted k)) q) :
    ∃ k', q = some (.quoted k') ∧ k'.folded = k.folded := by
  obtain ⟨s', rfl, hs⟩ := h.exists_eq
  cases s' with
  | quoted k' => exact ⟨k', rfl, State.quoted.inj hs⟩
  | _ => contradiction

theorem Shows.eq_some {s : State} {q : Option State} (hs : ∀ k, s ≠ .quoted k)
    (h : Shows (some s) q) : q = some s := by
  obtain ⟨s', rfl, heq⟩ := h.exists_eq
  -- Only the openers of quotes have a letter whose case can differ.
  have hfolded : s.folded = s := by
    cases s with
    | quoted k => exact (hs k rfl).elim
    | _ => rfl
  rw [hfolded] at heq
  cases s' with
  | quoted k => exact (hs k.folded heq.symm).elim
  | _ => exact congrArg some heq

/-- The case of a letter in front of a quote does not change how the quote is read. -/
theorem transition_quoted_folded {q q' : Quote} (h : q'.folded = q.folded) {t : Text}
    {k : Option State} (hread : lexer.transition (some (.quoted q)) t = .ok k) :
    ∃ r, lexer.transition (some (.quoted q')) t = .ok r ∧ Shows k r := by
  have hmark : q'.mark = q.mark := by rw [← q'.mark_folded, h, q.mark_folded]
  have hescapes : q'.escapes = q.escapes := by rw [← q'.escapes_folded, h, q.escapes_folded]
  have hafter : q'.after = q.after := by rw [Quote.after, h, Quote.after]
  cases hbody : readBody q.mark q.escapes t with
  | inside =>
    rw [transition_quoted_of_inside hbody] at hread
    rw [← hmark, ← hescapes] at hbody
    refine ⟨_, transition_quoted_of_inside hbody, ?_⟩
    rw [← Except.ok.inj hread]
    exact .inl (congrArg (fun q => some (State.quoted q)) h)
  | closed rest =>
    rw [transition_quoted_of_closed hbody] at hread
    rw [← hmark, ← hescapes] at hbody
    refine ⟨k, ?_, Shows.refl k⟩
    rw [transition_quoted_of_closed hbody, hafter, hread]
  | halfEscape =>
    rw [transition_quoted_of_halfEscape hbody] at hread
    contradiction

/-! ### Breaches -/

/-- How the filling `f` of a gap can change how the text around it is read.  `front` is the
finished text up to the gap, `v` the value, and `chunk` comes next; the last argument is what the
chunks alone leave open at the gap. -/
inductive Breach (front : Text) (v : Value) (f chunk : Text) : Option State → Prop
  /-- The text before runs into the filling. -/
  | runsInto (h : RunsInto front f) : Breach front v f chunk none
  /-- The text before, or the filling, runs over into the chunk. -/
  | runsOver (h : RunsOver front f chunk) : Breach front v f chunk none
  /-- The filling is empty, and nothing keeps the texts around it from each other. -/
  | empty (hf : f = []) (h : Fuses front chunk) : Breach front v f chunk none
  /-- A string with escapes has been closed and is taken up, behind an empty filling or without
  a gap that breaks the line. -/
  | takesUp (hends : lexer.transition none (front ++ f) = .ok (some .continuation))
      (h : TakesUp chunk) (hgap : f = [] ∨ ¬Continues chunk) : Breach front v f chunk none
  /-- A series in an identifier does not begin and end with a leaf. -/
  | name {q : Quote} (hq : q.isName) (hv : v.isFlush = false) :
      Breach front v f chunk (some (.quoted q))

/-- A gap between separators is no breach, unless a string with escapes is taken up behind it. -/
theorem not_breach_of_separators {front f chunk : Text} {c d : Char} (v : Value)
    (hc : isSeparator c) (hd : isSeparator d) (hchunk : ¬TakesUp (d :: chunk)) :
    ¬Breach (front ++ [c]) v f (d :: chunk) none := by
  intro h
  cases h with
  | runsInto h =>
    cases h with
    | dashes ha hb =>
      obtain rfl : c = '-' := by simpa using ha
      exact absurd hc (by decide)
    | letter ha hfresh hb hends hescape =>
      have hlast := congrArg List.getLast? ha
      obtain rfl : c = '&' := by simpa using hlast
      exact absurd hc (by decide)
  | runsOver h =>
    cases h with
    | @tag y name more rest ha hb htag hfresh =>
      obtain ⟨inner, hinner, -, he⟩ := isTag_iff.1 htag
      -- The separator would be a part of the tag, or the dollar that closes it.
      cases more with
      | nil =>
        obtain rfl : d = '$' := (List.cons.inj hb).1
        exact absurd hd (by decide)
      | cons e more =>
        obtain rfl : d = e := (List.cons.inj hb).1
        have he : name ++ f ++ d :: more ++ ['$'] = inner ++ ['$'] := (List.cons.inj he).2
        obtain rfl := (List.append_left_inj _).1 he
        exact absurd (hinner d (by simp)) (by simp [isTagChar_of_isSeparator hd])
    | word ha hb => simp [opensInWord, isWordPart_of_isSeparator hd] at hb
  | empty hf h => exact not_fuses_cons _ chunk hd h
  | takesUp hends h hgap => exact hchunk h

theorem not_breach_of_quoted {q : Quote} {v : Value} (hv : q.isName → v.isFlush)
    (front f chunk : Text) : ¬Breach front v f chunk (some (.quoted q)) := by
  intro h
  cases h with
  | name hq hflush =>
    rw [hv hq] at hflush
    cases hflush

variable {front before f t chunk : Text} {k k' q q' r : Option State} {v : Value} {flag : Bool}
  {P : Prop}

/-- A reading goes over a gap if it goes over both seams of it. -/
theorem transition_gap (hfront : lexer.transition none front = .ok q)
    (hbefore : Joins q front f) (hgap : lexer.transition q f = .ok r)
    (hafter : Joins r (front ++ f) chunk) (hchunk : lexer.transition r chunk = .ok q') :
    lexer.transition none (front ++ f ++ chunk) = .ok q' := by
  have hfilled := transition_append_eq_ok (s := none) trivial hfront hgap hbefore
  exact transition_append_eq_ok (s := none) trivial hfilled hchunk hafter

/-! ### Gaps in open constructs -/

theorem splice_of_fill {s : State} (hs : s ≠ .continuation)
    (h : fill grammar surroundings options before ⟨some s, v, chunk⟩ flag = .ok f) :
    splice surroundings options s.opener v = .ok f := by
  obtain ⟨t, ht, h⟩ := Except.bind_eq_ok_iff.1 h
  have hapart : Slot.standsApart grammar.lexer ⟨some s, v, chunk⟩ = false := by
    simp [Slot.standsApart, grammar, lexer, hs]
  rw [hapart] at h
  obtain rfl : t = f := Except.ok.inj h
  exact ht

theorem splice_name_folded {q q' : Quote} (hq : q.isName) (h : q'.folded = q.folded) :
    splice surroundings options q'.opener v = splice surroundings options q.opener v := by
  obtain ⟨unicode, hplace⟩ := exists_place_eq hq
  -- The opener of a name counts only for the kind of name that is written.
  have hplace' : q'.place = .name unicode := by rw [← q'.place_folded, h, q.place_folded, hplace]
  rw [splice_name hplace, splice_name hplace']

/-- A value in open quotes stays inside of them. -/
theorem exists_transition_quoted {c c' : Quote} (h : c'.folded = c.folded)
    (hv : v.holdsFragment surroundings.trust = false) (hname : c.isName → v.isFlush)
    (hf : splice surroundings options c.opener v = .ok f) :
    ∃ d : Quote, d.folded = c.folded ∧
      lexer.transition (some (.quoted c')) f = .ok (some (.quoted d)) := by
  cases hc : c.isName with
  | true =>
    have hc' : c'.isName := by rw [← c'.isName_folded, h, c.isName_folded, hc]
    rw [← splice_name_folded hc h] at hf
    obtain ⟨⟨d, hd, hread⟩, -⟩ := staysInName_of_isFlush hc' hv (hname hc) hf
    exact ⟨d, hd.trans h, hread⟩
  | false =>
    have hbody := readBody_splice hc hf
    have hread := transition_quoted_of_inside hbody
    obtain ⟨r, hr, hshows⟩ := transition_quoted_folded h hread
    obtain ⟨d, rfl, hd⟩ := hshows.exists_quote_eq
    exact ⟨d, hd, hr⟩

theorem shows_of_quoted {c : Quote} (hshows : Shows (some (.quoted c)) q)
    (hfront : lexer.transition none front = .ok q)
    (hv : v.holdsFragment surroundings.trust = false) (hname : c.isName → v.isFlush)
    (hf : splice surroundings options c.opener v = .ok f)
    (hchunk : lexer.transition (some (.quoted c)) chunk = .ok k') :
    ∃ q', lexer.transition none (front ++ f ++ chunk) = .ok q' ∧ Shows k' q' := by
  obtain ⟨c', rfl, hc'⟩ := hshows.exists_quote_eq
  obtain ⟨d, hd, hgap⟩ := exists_transition_quoted hc' hv hname hf
  obtain ⟨q', hq', hshows'⟩ := transition_quoted_folded hd hchunk
  refine ⟨q', ?_, hshows'⟩
  have hinside (c : Quote) : ¬AtTop (some (.quoted c)) := by simp [AtTop]
  apply transition_gap hfront _ hgap _ hq'
  · exact .of_not_atTop (hinside c') _ _
  · exact .of_not_atTop (hinside d) _ _

theorem shows_of_dollar {tag : Text} (hshows : Shows (some (.dollar tag)) q)
    (hfront : lexer.transition none front = .ok q)
    (hf : splice surroundings options tag v = .ok f)
    (hchunk : lexer.transition (some (.dollar tag)) chunk = .ok k') :
    ∃ q', lexer.transition none (front ++ f ++ chunk) = .ok q' ∧ Shows k' q' := by
  obtain rfl := hshows.eq_some (by simp)
  have htag : isTag tag := proper_of_transition (s := none) trivial hfront
  have hgap := transition_dollar_of_fitsBetween (fitsBetween_splice htag hf)
  refine ⟨k', ?_, Shows.refl k'⟩
  have hinside : ¬AtTop (some (.dollar tag)) := by simp [AtTop]
  apply transition_gap hfront _ hgap _ hchunk
  · exact .of_not_atTop hinside _ _
  · exact .of_not_atTop hinside _ _

/-- No value can be written into a comment. -/
theorem splice_ne_ok_of_inComment {s : State} (hs : inComment (some s)) :
    splice surroundings options s.opener v ≠ .ok f := by
  rw [splice_of_inComment hs]
  simp

theorem inComment_of_usable (h : Usable grammar surroundings options k) : inComment k = false := by
  rw [Bool.eq_false_iff]
  intro hk
  cases k with
  | none => contradiction
  | some s =>
    have hs : s ≠ .continuation := by
      rintro rfl
      contradiction
    -- A statement may not end in a comment, and no value is written into one.
    rcases h with h | ⟨before, v, after, flag, f, h⟩
    · simp [Lexer.finish, grammar, lexer, hs] at h
    · exact splice_ne_ok_of_inComment hk (splice_of_fill hs h)

/-! ### Gaps outside of constructs -/

theorem exists_setOff_of_fill (hk : AtTop k)
    (h : fill grammar surroundings options before ⟨k, v, chunk⟩ flag = .ok f) :
    ∃ t, render grammar surroundings options ⟨k, v, chunk⟩ flag = .ok t ∧
      f = setOff before t chunk := by
  obtain ⟨t, ht, h⟩ := Except.bind_eq_ok_iff.1 h
  have hapart : Slot.standsApart grammar.lexer ⟨k, v, chunk⟩ = true := by
    rcases hk with rfl | rfl <;> rfl
  rw [hapart] at h
  exact ⟨t, ht, (Except.ok.inj h).symm⟩

/-- A filling does not begin with the quote that the text before it ends with. -/
theorem not_quotesMeet_setOff (front t chunk : Text) :
    ¬QuotesMeet front (setOff (lastChar [] front) t chunk) := by
  rintro ⟨c, hc, hlast, hhead⟩
  by_cases hne : t = []
  · subst hne
    simp at hhead
  obtain ⟨blank, blank', hblank, -, he⟩ := setOff_eq t front chunk
  rw [he] at hhead
  have hquote : isQuote c := by rcases hc with rfl | rfl <;> rfl
  cases hblank with
  | needed hc' hend hmeets =>
    obtain rfl : ' ' = c := Option.some.inj hhead
    contradiction
  | none h =>
    obtain ⟨d, t, rfl⟩ := List.exists_cons_of_ne_nil hne
    obtain rfl : d = c := Option.some.inj hhead
    exact h d hquote rfl hlast

/-- A filling that is not empty does not end with the quote that the next chunk begins with. -/
theorem not_quotesMeet_of_setOff {t : Text} (hne : t ≠ []) (front chunk : Text) :
    ¬QuotesMeet (front ++ setOff (lastChar [] front) t chunk) chunk := by
  rintro ⟨c, hc, hlast, hhead⟩
  obtain ⟨blank, blank', -, hblank', he⟩ := setOff_eq t front chunk
  rw [he] at hlast
  have hquote : isQuote c := by rcases hc with rfl | rfl <;> rfl
  cases hblank' with
  | needed hc' hend hmeets =>
    obtain rfl : ' ' = c := by simpa using hlast
    contradiction
  | none h =>
    obtain ⟨d, hd⟩ : ∃ d, t.getLast? = some d := by
      cases hl : t.getLast? with
      | none => exact absurd (List.getLast?_eq_none_iff.1 hl) hne
      | some d => exact ⟨d, rfl⟩
    obtain rfl : d = c := by
      rw [List.append_nil, List.getLast?_append, List.getLast?_append, hd] at hlast
      exact Option.some.inj hlast
    exact h d hquote hd hhead

theorem Settles.setOff (ht : Settles t P) (front chunk : Text) :
    Settles (setOff (lastChar [] front) t chunk) P := by
  obtain ⟨blank, blank', hblank, hblank', he⟩ := setOff_eq t front chunk
  have hleft : Settles (blank ++ t) P := by
    cases hblank with
    | needed => exact ht.blank_cons
    | none => exact ht
  rw [he]
  cases hblank' with
  | needed => exact hleft.append_blank
  | none => simpa using hleft

theorem Sealed.setOff (ht : Sealed t) (front chunk : Text) :
    Sealed (setOff (lastChar [] front) t chunk) := by
  obtain ⟨blank, blank', hblank, hblank', he⟩ := setOff_eq t front chunk
  have hspace : ∀ c ∈ [' '], isSeparator c := List.all_eq_true.1 (by decide)
  have hleft : Sealed (blank ++ t) := by
    cases hblank with
    | needed => exact sealed_nil.append (List.cons_ne_nil _ _) hspace ht
    | none => exact ht
  rw [he]
  cases hblank' with
  | needed => simpa using hleft.append (List.cons_ne_nil _ _) hspace sealed_nil
  | none => simpa using hleft

theorem setOff_ne_nil (hne : t ≠ []) (front chunk : Text) :
    setOff (lastChar [] front) t chunk ≠ [] := by
  obtain ⟨blank, blank', -, -, he⟩ := setOff_eq t front chunk
  rw [he]
  simp [hne]

/-- A chunk that does not take up the string with escapes before it is read as at top level. -/
theorem shows_of_not_takesUp (hfront : lexer.transition none front = .ok (some .continuation))
    (hjoins : Joins (some .continuation) front chunk) (htakes : ¬TakesUp chunk)
    (hchunk : lexer.transition none chunk = .ok k') (hk' : inComment k' = false) :
    ∃ q', lexer.transition none (front ++ chunk) = .ok q' ∧ Shows k' q' := by
  rcases transition_continuation htakes hchunk hk' with hread | ⟨rfl, hread⟩
  · exact ⟨k', transition_append_eq_ok (s := none) trivial hfront hread hjoins, Shows.refl k'⟩
  · exact ⟨_, transition_append_eq_ok (s := none) trivial hfront hread hjoins, .inr ⟨rfl, rfl⟩⟩

/-- A value that is written as nothing, between tokens. -/
theorem shows_of_empty (hshows : Shows none q) (hfront : lexer.transition none front = .ok q)
    (hclear : ¬Breach front v [] chunk none) (hchunk : lexer.transition none chunk = .ok k')
    (hk' : inComment k' = false) :
    ∃ q', lexer.transition none (front ++ chunk) = .ok q' ∧ Shows k' q' := by
  have hfuses : ¬Fuses front chunk := fun h => hclear (.empty rfl h)
  rcases hshows.atTop with rfl | rfl
  · have hread := transition_append_eq_ok (s := none) trivial hfront hchunk (.of_not_fuses hfuses)
    exact ⟨k', hread, Shows.refl k'⟩
  · have htakes : ¬TakesUp chunk := by
      intro h
      exact hclear (.takesUp (by simpa using hfront) h (.inl rfl))
    exact shows_of_not_takesUp hfront (.of_not_fuses hfuses) htakes hchunk hk'

/-- A value between tokens. -/
theorem shows_of_free (hshows : Shows none q) (hfront : lexer.transition none front = .ok q)
    (hfill : fill grammar surroundings options (lastChar [] front) ⟨none, v, chunk⟩ flag = .ok f)
    (hv : v.holdsFragment surroundings.trust = false) (hclear : ¬Breach front v f chunk none)
    (hchunk : lexer.transition none chunk = .ok k') (hk' : inComment k' = false) :
    ∃ q', lexer.transition none (front ++ f ++ chunk) = .ok q' ∧ Shows k' q' := by
  obtain ⟨t, ht, hcheck, rfl⟩ := fill_none_eq_ok_iff.1 hfill
  by_cases hne : t = []
  · subst hne
    rw [setOff_nil, List.append_nil]
    exact shows_of_empty hshows hfront (by simpa using hclear) hchunk hk'
  have hsealed := (sealed_escape hv ht).setOff front chunk
  have hsettled := (settled_escape hv ht).setOff front chunk
  have hbefore := not_quotesMeet_setOff front t chunk
  have hafter := not_quotesMeet_of_setOff hne front chunk
  obtain ⟨r, hr, hread, hends⟩ := transition_before hfront hshows.atTop hbefore hsealed hsettled
    fun h => hclear (.runsInto h)
  have hjoins := joins_after (setOff_ne_nil hne front chunk) hsealed hafter
    (fun h => hclear (.runsOver h)) r
  rcases hr with rfl | rfl
  · exact ⟨k', transition_append_eq_ok (s := none) trivial hread hchunk hjoins, Shows.refl k'⟩
  · -- The value has closed a string with escapes, which the check keeps from the next line.
    have hlast := (hends rfl).resolve_left hne
    have htakes : ¬TakesUp chunk := by
      intro h
      exact hclear (.takesUp hread h (.inr (not_continues_of_check hlast hcheck)))
    exact shows_of_not_takesUp hread hjoins htakes hchunk hk'

/-- A string in its blanks, after a string with escapes, takes that one up and closes it. -/
theorem transition_continuation_setOff {body : Text} (h : readBody apostrophe true body = .inside)
    (front chunk : Text) :
    lexer.transition (some .continuation)
      (setOff (lastChar [] front) (between apostrophe body) chunk) = .ok (some .continuation) := by
  have hstring : lexer.transition (some .continuation) (between apostrophe body) =
      .ok (some .continuation) := by
    rw [between, transition_continuation_apostrophe]
    exact transition_none_between (q := .escape false) rfl h
  obtain ⟨blank, blank', hblank, hblank', he⟩ :=
    setOff_eq (between apostrophe body) front chunk
  rw [he]
  have hleft : lexer.transition (some .continuation) (blank ++ between apostrophe body) =
      .ok (some .continuation) := by
    cases hblank with
    | needed => rw [List.singleton_append, transition_continuation_blank rfl, hstring]
    | none => exact hstring
  cases hblank' with
  | needed =>
    have hblank : lexer.transition (some .continuation) [' '] = .ok (some .continuation) := by
      rw [transition_continuation_blank rfl, Lexer.transition_nil]
    have hapart := not_fuses_cons (c := ' ') (blank ++ between apostrophe body) [] (by decide)
    exact transition_append_eq_ok (s := some .continuation) trivial hleft hblank
      (.of_not_fuses hapart)
  | none => simpa using hleft

/-- A string that is set off from a text before it goes on from a string with escapes that the text
ends in, and leaves it to the next chunk to go on from there. -/
theorem transition_none_setOff {body : Text}
    (hfront : lexer.transition none front = .ok (some .continuation))
    (hbody : readBody apostrophe true body = .inside) (chunk : Text) :
    lexer.transition none (front ++ setOff (lastChar [] front) (between apostrophe body) chunk) =
        .ok (some .continuation) ∧
      Joins (some .continuation)
        (front ++ setOff (lastChar [] front) (between apostrophe body) chunk) chunk := by
  have hgap := transition_continuation_setOff hbody front chunk
  refine ⟨transition_append_eq_ok (s := none) trivial hfront hgap ?_, ?_⟩
  · exact .of_continuation (not_quotesMeet_setOff front _ chunk)
  · exact .of_continuation (not_quotesMeet_of_setOff (by simp [between]) front chunk)

/-- A value that brings its own quotes, after a string with escapes. -/
theorem shows_of_continuation (hshows : Shows (some .continuation) q)
    (hfront : lexer.transition none front = .ok q)
    (hfill : fill grammar surroundings options (lastChar [] front)
      ⟨some .continuation, v, chunk⟩ flag = .ok f)
    (hchunk : lexer.transition (some .continuation) chunk = .ok k') :
    ∃ q', lexer.transition none (front ++ f ++ chunk) = .ok q' ∧ Shows k' q' := by
  obtain rfl := hshows.eq_some (by simp)
  obtain ⟨t, ht, rfl⟩ := exists_setOff_of_fill (.inr rfl) hfill
  have ht : splice surroundings options ['e'] v = .ok t := ht
  have hplace : Place.ofDelimiter? ['e'] = some .continuation := rfl
  rw [splice_eq_spliceString hplace nofun nofun nofun] at ht
  obtain rfl := Except.ok.inj ht
  have hbody := readBody_escapeBody (spliceText surroundings options v)
  obtain ⟨hfilled, hjoins⟩ := transition_none_setOff hfront hbody chunk
  exact ⟨k', transition_append_eq_ok (s := none) trivial hfilled hchunk hjoins, Shows.refl k'⟩

/-! ### Whole statements -/

/-- Past a filled gap and the chunk after it, the whole text shows what the chunks alone leave
open. -/
theorem shows_of_fill (hshows : Shows k q) (hfront : lexer.transition none front = .ok q)
    (hfill : fill grammar surroundings options (lastChar [] front) ⟨k, v, chunk⟩ flag = .ok f)
    (hchunk : lexer.transition k chunk = .ok k') (hk' : inComment k' = false)
    (hv : v.holdsFragment surroundings.trust = false) (hclear : ¬Breach front v f chunk k) :
    ∃ q', lexer.transition none (front ++ f ++ chunk) = .ok q' ∧ Shows k' q' := by
  cases k with
  | none => exact shows_of_free hshows hfront hfill hv hclear hchunk hk'
  | some s =>
    cases s with
    | continuation => exact shows_of_continuation hshows hfront hfill hchunk
    | quoted c =>
      have hsplice := splice_of_fill (by simp) hfill
      have hname : c.isName → v.isFlush := by
        intro hc
        rw [← Bool.not_eq_false]
        exact fun hflush => hclear (.name hc hflush)
      exact shows_of_quoted hshows hfront hv hname hsplice hchunk
    | dollar tag => exact shows_of_dollar hshows hfront (splice_of_fill (by simp) hfill) hchunk
    | lineComment => exact (splice_ne_ok_of_inComment rfl (splice_of_fill (by simp) hfill)).elim
    | blockComment depth =>
      exact (splice_ne_ok_of_inComment (s := .blockComment depth) rfl
        (splice_of_fill (by simp) hfill)).elim

theorem Shows.finish (h : Shows k q) (hk : lexer.finish k = .ok ()) : lexer.finish q = .ok () := by
  cases k with
  | none => rcases h.atTop with rfl | rfl <;> rfl
  | some s =>
    by_cases hs : s = .continuation
    · subst hs
      rw [h.eq_some (by simp)]
      rfl
    · simp [Lexer.finish, lexer, hs] at hk

/-- If no value holds a trusted fragment and no gap is a breach, the finished statement is read
to its end as one text, and up to each gap it leaves open what the chunks alone leave open
there. -/
theorem weave_shows {chunks fs : List Text} {values : List Value} {ks : List (Option State)}
    (hk : lexer.contexts chunks = .ok ks)
    (hf : fillings grammar surroundings options chunks values = .ok fs)
    (hv : ∀ v ∈ values, v.holdsFragment surroundings.trust = false)
    (hclear : ∀ (i : Nat) k v f chunk, ks[i]? = some k → values[i]? = some v → fs[i]? = some f →
      chunks[i + 1]? = some chunk → ¬Breach (written chunks fs i) v f chunk k) :
    weave grammar surroundings options chunks values = .ok (interleave chunks fs) ∧
      lexer.contexts [interleave chunks fs] = .ok [] ∧
      ∀ i k, ks[i]? = some k →
        ∃ q, lexer.transition none (written chunks fs i) = .ok q ∧ Shows k q := by
  refine ⟨by rw [weave, hf]; rfl, ?_⟩
  -- The statement is followed gap by gap; each step needs its own gap to be clear.
  obtain ⟨front, chunks, k, rfl, hfront, hwoven⟩ := woven_of_fillings hk hf
  have hfollows := hwoven.follows (R := Shows)
    (C := fun front k v f chunk => v.holdsFragment surroundings.trust = false ∧
      ¬Breach front v f chunk k)
    Shows.finish
    (by
      rintro front k q v f chunk flag k' hshows hfront hfill hchunk husable ⟨hv, hclear⟩
      exact shows_of_fill hshows hfront hfill hchunk (inComment_of_usable husable) hv hclear)
    hfront (Shows.refl k) (fun i k v f chunk hk hvalue hf hchunk =>
      ⟨hv v (List.mem_of_getElem? hvalue), hclear i k v f chunk hk hvalue hf hchunk⟩)
  obtain ⟨⟨q, hq, hfinish⟩, hgaps⟩ := hfollows
  exact ⟨lexer.contexts_singleton hq hfinish, hgaps⟩

/-- A string that needs escapes, a negative number, a list of names, and a text with a quote in
it. -/
theorem weave_shows_four_gaps :
    let chunks := ["SELECT ".toList, " - ".toList, " FROM \"".toList, "\" WHERE a = E'".toList,
      [apostrophe]]
    let values : List Value :=
      [.ofText ['\n'], .ofInt (-1), .series .list [.ofText ['t'], .ofText ['u']],
        .ofText [apostrophe]]
    let fs := ["E'\\n'".toList, "-1".toList, "t\", \"u".toList, [apostrophe, apostrophe]]
    let ks := [none, none, some (State.quoted .name), some (State.quoted (.escape true))]
    lexer.contexts chunks = .ok ks ∧
      fillings grammar ⟨defaultMinter.policy, .zero⟩ .default chunks values = .ok fs ∧
      (∀ v ∈ values, v.holdsFragment defaultMinter.policy = false) ∧
      (∀ (i : Nat) k v f chunk, ks[i]? = some k → values[i]? = some v → fs[i]? = some f →
        chunks[i + 1]? = some chunk → ¬Breach (written chunks fs i) v f chunk k) ∧
      weave grammar ⟨defaultMinter.policy, .zero⟩ .default chunks values =
        .ok (interleave chunks fs) ∧
      lexer.contexts [interleave chunks fs] = .ok [] ∧
      ∀ i k, ks[i]? = some k →
        ∃ q, lexer.transition none (written chunks fs i) = .ok q ∧ Shows k q := by
  intro chunks values fs ks
  have hk : lexer.contexts chunks = .ok ks := by cbv
  have hf : fillings grammar ⟨defaultMinter.policy, .zero⟩ .default chunks values = .ok fs := by cbv
  have hv : ∀ v ∈ values, v.holdsFragment defaultMinter.policy = false := by
    simp [values, Value.ofText, Value.ofInt, Value.holdsFragment, Value.anyHoldsFragment]
  have hclear : ∀ (i : Nat) k v f chunk, ks[i]? = some k → values[i]? = some v →
      fs[i]? = some f → chunks[i + 1]? = some chunk →
      ¬Breach (written chunks fs i) v f chunk k := by
    intro i k v f chunk hk hv hf hchunk
    rcases i with _ | _ | _ | _ | i
    · obtain ⟨rfl, rfl⟩ : none = k ∧ " - ".toList = chunk :=
        ⟨Option.some.inj hk, Option.some.inj hchunk⟩
      have hfront : written chunks fs 0 = "SELECT".toList ++ [' '] := by cbv
      rw [hfront, show " - ".toList = ' ' :: "- ".toList by decide]
      exact not_breach_of_separators v rfl rfl (not_takesUp (by decide) (by decide))
    · obtain ⟨rfl, rfl⟩ : none = k ∧ " FROM \"".toList = chunk :=
        ⟨Option.some.inj hk, Option.some.inj hchunk⟩
      have hfront : written chunks fs 1 = "SELECT E'\\n' -".toList ++ [' '] := by cbv
      rw [hfront, show " FROM \"".toList = ' ' :: "FROM \"".toList by decide]
      exact not_breach_of_separators v rfl rfl (not_takesUp (by decide) (by decide))
    · obtain ⟨rfl, rfl⟩ : some (.quoted .name) = k ∧
          .series .list [.ofText ['t'], .ofText ['u']] = v :=
        ⟨Option.some.inj hk, Option.some.inj hv⟩
      exact not_breach_of_quoted (fun _ => rfl) _ f chunk
    · obtain rfl : some (.quoted (.escape true)) = k := Option.some.inj hk
      exact not_breach_of_quoted (by simp [Quote.isName]) _ f chunk
    · simp [ks] at hk
  exact ⟨hk, hf, hv, hclear, weave_shows hk hf hv hclear⟩

/-- Whether a statement is woven as `text`, which is not read to its end as one. -/
structure IsMisread (chunks : List Text) (values : List Value) (text : Text) : Prop where
  analyzed : (lexer.contexts chunks).isOk
  untrusted : ∀ v ∈ values, v.holdsFragment defaultMinter.policy = false
  woven : weave grammar ⟨defaultMinter.policy, .zero⟩ .default chunks values = .ok text
  misread : ∀ ks, lexer.contexts [text] ≠ .ok ks

theorem exists_transition_of_contexts {text : Text} {ks : List (Option State)}
    (h : lexer.contexts [text] = .ok ks) :
    ∃ q, lexer.transition none text = .ok q ∧ lexer.finish q = .ok () := by
  obtain ⟨all, hall, -⟩ := Except.bind_eq_ok_iff.1 h
  obtain ⟨q, later, hq, hlater, -⟩ := contextsFrom_cons_eq_ok_iff.1 hall
  exact ⟨q, hq, (contextsFrom_nil_eq_ok_iff.1 hlater).1⟩

theorem contexts_ne_ok_of_open {text : Text} {s : State}
    (h : lexer.transition none text = .ok (some s)) (hs : s ≠ .continuation)
    (ks : List (Option State)) : lexer.contexts [text] ≠ .ok ks := by
  intro hks
  obtain ⟨q, hq, hfinish⟩ := exists_transition_of_contexts hks
  obtain rfl : some s = q := Except.ok.inj (h.symm.trans hq)
  simp [Lexer.finish, lexer, hs] at hfinish

theorem contexts_ne_ok_of_error {text : Text} {e : Failure}
    (h : lexer.transition none text = .error e) (ks : List (Option State)) :
    lexer.contexts [text] ≠ .ok ks := by
  intro hks
  obtain ⟨q, hq, -⟩ := exists_transition_of_contexts hks
  rw [h] at hq
  cases hq

/-- A minus before a negative number, and a letter before a name with a backslash. -/
theorem isMisread_of_runsInto :
    IsMisread ["SELECT 1 -".toList, " FROM t".toList] [.ofInt (-1)] "SELECT 1 --1 FROM t".toList ∧
      IsMisread ["SELECT U&".toList, [';']] [.mapping .plain [(.ofText [backslash], .ofInt 1)]]
        "SELECT U&\"\\\" = 1;".toList := by
  have hcomment : lexer.transition none "SELECT 1 --1 FROM t".toList =
      .error (.unclosedComment .dashes "1 FROM t".toList) := by cbv
  have hname : lexer.transition none "SELECT U&\"\\\" = 1;".toList =
      .ok (some (.quoted (.unicodeName true))) := by cbv
  refine ⟨⟨by cbv, ?_, by cbv, contexts_ne_ok_of_error hcomment⟩,
    ⟨by cbv, ?_, by cbv, contexts_ne_ok_of_open hname (by simp)⟩⟩
  · simp [Value.ofInt, Value.holdsFragment]
  · simp [Value.ofText, Value.ofInt, Value.holdsFragment, Value.anyEntryHoldsFragment]

/-- A dollar tag around a number, and a word before a dollar tag. -/
theorem isMisread_of_runsOver :
    IsMisread ["SELECT $a".toList, ['$']] [.ofInt 1] "SELECT $a1$".toList ∧
      IsMisread ["SELECT ".toList, "$a$ -- $a$".toList] [.null] "SELECT NULL$a$ -- $a$".toList := by
  have htag : lexer.transition none "SELECT $a1$".toList =
      .ok (some (.dollar "$a1$".toList)) := by cbv
  have hcomment : lexer.transition none "SELECT NULL$a$ -- $a$".toList =
      .error (.unclosedComment .dashes " $a$".toList) := by cbv
  refine ⟨⟨by cbv, ?_, by cbv, contexts_ne_ok_of_open htag (by simp)⟩,
    ⟨by cbv, ?_, by cbv, contexts_ne_ok_of_error hcomment⟩⟩
  · simp [Value.ofInt, Value.holdsFragment]
  · simp [Value.holdsFragment]

/-- A series without items between two minus signs, and behind a string with escapes; and a
string that is taken up on the line it was closed on. -/
theorem isMisread_of_empty_or_takesUp :
    IsMisread ["SELECT 1 -".toList, "- 1".toList] [.series .list []] "SELECT 1 -- 1".toList ∧
      IsMisread ["SELECT ".toList, [], "\n'\\'".toList] [.ofText ['\n'], .series .list []]
        "SELECT E'\\n'\n'\\'".toList ∧
      IsMisread ["SELECT ".toList, " '\\'".toList] [.ofText ['\n']]
        "SELECT E'\\n' '\\'".toList := by
  have hcomment : lexer.transition none "SELECT 1 -- 1".toList =
      .error (.unclosedComment .dashes " 1".toList) := by cbv
  have hnextLine : lexer.transition none "SELECT E'\\n'\n'\\'".toList =
      .ok (some (.quoted (.escape false))) := by cbv
  have hsameLine : lexer.transition none "SELECT E'\\n' '\\'".toList =
      .ok (some (.quoted (.escape false))) := by cbv
  refine ⟨⟨by cbv, ?_, by cbv, contexts_ne_ok_of_error hcomment⟩,
    ⟨by cbv, ?_, by cbv, contexts_ne_ok_of_open hnextLine (by simp)⟩,
    ⟨by cbv, ?_, by cbv, contexts_ne_ok_of_open hsameLine (by simp)⟩⟩
  · simp [Value.holdsFragment, Value.anyHoldsFragment]
  · simp [Value.ofText, Value.holdsFragment, Value.anyHoldsFragment]
  · simp [Value.ofText, Value.holdsFragment]

/-- An empty item in front of a name. -/
theorem isMisread_of_name :
    IsMisread ["SELECT \"".toList, [quotation]] [.series .list [.series .list [], .ofText ['a']]]
      "SELECT \", \"a\"".toList := by
  have hname : lexer.transition none "SELECT \", \"a\"".toList =
      .ok (some (.quoted .name)) := by cbv
  refine ⟨by cbv, ?_, by cbv, contexts_ne_ok_of_open hname (by simp)⟩
  simp [Value.ofText, Value.holdsFragment, Value.anyHoldsFragment]

/-- Each kind of breach makes a statement that is not read to its end.  Besides, a string with
escapes that a value has closed shows where the chunks alone leave nothing open. -/
theorem analysis_misses_seams :
    let values : List Value := [.ofText ['a', '\n'], .ofInt (-1)]
    let blank := ["SELECT ".toList, [' '], []]
    IsMisread ["SELECT 1 -".toList, " FROM t".toList] [.ofInt (-1)] "SELECT 1 --1 FROM t".toList ∧
      IsMisread ["SELECT U&".toList, [';']] [.mapping .plain [(.ofText [backslash], .ofInt 1)]]
        "SELECT U&\"\\\" = 1;".toList ∧
      IsMisread ["SELECT $a".toList, ['$']] [.ofInt 1] "SELECT $a1$".toList ∧
      IsMisread ["SELECT ".toList, "$a$ -- $a$".toList] [.null]
        "SELECT NULL$a$ -- $a$".toList ∧
      IsMisread ["SELECT 1 -".toList, "- 1".toList] [.series .list []] "SELECT 1 -- 1".toList ∧
      IsMisread ["SELECT ".toList, [], "\n'\\'".toList] [.ofText ['\n'], .series .list []]
        "SELECT E'\\n'\n'\\'".toList ∧
      IsMisread ["SELECT ".toList, " '\\'".toList] [.ofText ['\n']]
        "SELECT E'\\n' '\\'".toList ∧
      IsMisread ["SELECT \"".toList, [quotation]] [.series .list [.series .list [], .ofText ['a']]]
        "SELECT \", \"a\"".toList ∧
      lexer.contexts blank = .ok [none, none] ∧
      weave grammar ⟨defaultMinter.policy, .zero⟩ .default blank values =
        .ok "SELECT E'a\\n' -1".toList ∧
      lexer.transition none "SELECT E'a\\n' ".toList = .ok (some .continuation) := by
  intro values blank
  obtain ⟨hdashes, hletter⟩ := isMisread_of_runsInto
  obtain ⟨htag, hword⟩ := isMisread_of_runsOver
  obtain ⟨hempty, hnextLine, hsameLine⟩ := isMisread_of_empty_or_takesUp
  exact ⟨hdashes, hletter, htag, hword, hempty, hnextLine, hsameLine, isMisread_of_name,
    by cbv, by cbv, by cbv⟩

end SqlWeave.Postgres
