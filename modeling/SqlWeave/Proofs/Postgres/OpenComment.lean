/-
SqlWeave/Proofs/Postgres/OpenComment.lean

Comments that a text leaves open.  A comment without an end in its text is refused, but the
lexer looks for the end only when there is text left: behind an opener that ends the text,
the comment stays open.  After a string with escapes it looks in any case.

Main results: a text that is read leaves a comment open exactly if it ends right behind the opener
of one, read at top level (`transition_eq_comment_iff`), every other comment without an end is
refused (`exists_transition_eq_error`), and over the chunks of a statement nothing else leads into
a comment (`inComment_feeds_iff`).
-/
import Mathlib.Data.List.Induction
import SqlWeave.Proofs.Lexer.Feeding
import SqlWeave.Proofs.Postgres.Parts

namespace SqlWeave.Postgres

open Text

variable {s s' : Option State} {c : State} {t u rest : Text}

/-! ### Openers at the end -/

/-- Whether a text ends right behind the opener of the comment `c`, read at top level, when `s`
was open before it. -/
inductive EndsInOpener (s : Option State) : Text → State → Prop
  | line {front : Text} (h : lexer.transition s front = .ok none)
      (hlast : front.getLast? ≠ some '-') :
      EndsInOpener s (front ++ Comment.dashes.opener) .lineComment
  | block {front : Text} (h : lexer.transition s front = .ok none) :
      EndsInOpener s (front ++ Comment.block.opener) (.blockComment 1)

theorem EndsInOpener.inComment (h : EndsInOpener s t c) : inComment (some c) := by
  cases h <;> rfl

theorem EndsInOpener.ne_nil (h : EndsInOpener s t c) : t ≠ [] := by
  cases h <;> simp [Comment.opener]

theorem EndsInOpener.extend (hleads : Leads s s' u rest)
    (h : EndsInOpener s' rest c) : EndsInOpener s (u ++ rest) c := by
  cases h with
  | @line front h hlast =>
    rw [← List.append_assoc]
    refine .line ((hleads.read front (List.prefix_append ..)).trans h) ?_
    by_cases hne : front = []
    · subst hne
      rw [List.append_nil]
      exact hleads.last (Except.ok.inj ((Lexer.transition_nil ..).symm.trans h)) rfl
    · obtain ⟨d, hd⟩ := Option.ne_none_iff_exists'.1 (mt List.getLast?_eq_none_iff.1 hne)
      rwa [List.getLast?_append, hd, Option.some_or, ← hd]
  | @block front h =>
    rw [← List.append_assoc]
    exact .block ((hleads.read front (List.prefix_append ..)).trans h)

/-! ### Whole texts -/

/-- Whether every shorter reading that leaves the comment `c` open ends in the opener of it. -/
def EndsInOpenerBelow (n : Nat) (c : State) : Prop :=
  ∀ {s t}, left s t < n → Proper s → t ≠ [] → lexer.transition s t = .ok (some c) →
    EndsInOpener s t c

/-- What is read for itself leaves the opener to the rest, if it leaves no comment open. -/
theorem Leads.endsInOpener (h : Leads s s' u rest) (ih : EndsInOpenerBelow (left s (u ++ rest)) c)
    (hless : left s' rest < left s (u ++ rest)) (hs' : Proper s') (hc : inComment (some c))
    (hend : inComment s' = false) (hread : lexer.transition s (u ++ rest) = .ok (some c)) :
    EndsInOpener s (u ++ rest) c := by
  rw [h.read rest List.prefix_rfl] at hread
  refine .extend h (ih hless hs' ?_ hread)
  rintro rfl
  obtain rfl : s' = some c := by simpa using hread
  rw [hc] at hend
  contradiction

theorem endsInOpener_opener (hc : inComment (some c)) (hopened : c.IsOpened) :
    EndsInOpener none c.opener c := by
  have hnil : lexer.transition none [] = .ok none := Lexer.transition_nil _ _
  cases c with
  | lineComment => exact @EndsInOpener.line none [] hnil (by simp)
  | blockComment depth =>
    obtain rfl : depth = 1 := hopened
    exact @EndsInOpener.block none [] hnil
  | quoted q => contradiction
  | dollar tag => contradiction
  | continuation => contradiction

theorem endsInOpener_none (ih : EndsInOpenerBelow (left none t) c) (hc : inComment (some c))
    (hne : t ≠ []) (hread : lexer.transition none t = .ok (some c)) : EndsInOpener none t c := by
  obtain ⟨d, t, rfl⟩ := List.exists_cons_of_ne_nil hne
  cases hopened : opened? (d :: t) with
  | some found =>
    obtain ⟨s', rest⟩ := found
    obtain ⟨hs', htext⟩ := opened?_eq_some_iff.1 hopened
    rw [htext] at ih hread ⊢
    by_cases hrest : rest = []
    · subst hrest
      have hopen := transition_none_of_opened (opened?_opener hs' [])
      rw [Lexer.transition_nil, hread, Except.ok.injEq, Option.some.injEq] at hopen
      subst hopen
      rw [List.append_nil]
      exact endsInOpener_opener hc hs'
    · rw [(leads_opened hs' rest).read rest List.prefix_rfl] at hread
      exact .extend (leads_opened hs' rest)
        (ih (left_lt hs'.opener_ne_nil) (proper_of_isOpened hs') hrest hread)
  | none =>
    by_cases hw : isWordStart d
    · have hsplit : d :: t = (d :: t.takeWhile isWordPart) ++ t.dropWhile isWordPart := by
        rw [List.cons_append, List.takeWhile_append_dropWhile]
      have hleads := leads_word hopened hw
      rw [hsplit] at ih hread ⊢
      exact hleads.endsInOpener ih (left_lt (by simp)) trivial hc rfl hread
    · exact (leads_other hopened hw).endsInOpener (u := [d]) ih (left_lt (by simp)) trivial hc rfl
        hread

theorem endsInOpener_comment {s : State} (ih : EndsInOpenerBelow (left (some s) t) c)
    (hs : Proper (some s)) (hopen : inComment (some s)) (hc : inComment (some c)) (hne : t ≠ [])
    (hread : lexer.transition (some s) t = .ok (some c)) : EndsInOpener (some s) t c := by
  cases s with
  | lineComment =>
    cases hafter : afterLine? t with
    | none =>
      rw [transition_lineComment_of_none hne hafter] at hread
      contradiction
    | some rest =>
      obtain ⟨body, d, t, rfl, rfl, hd, hbody⟩ := afterLine?_eq hafter
      rw [List.append_cons] at ih hread ⊢
      exact (leads_line hbody hd t).endsInOpener ih (left_lt (by simp)) trivial hc rfl hread
  | blockComment depth =>
    cases hafter : afterBlock? depth t with
    | none =>
      rw [transition_blockComment_of_none hne hafter] at hread
      contradiction
    | some rest =>
      obtain ⟨u, rfl, hu⟩ := exists_of_afterBlock? hafter
      exact (leads_block hs hu rest).endsInOpener ih (left_none_lt ..) trivial hc rfl hread
  | quoted q => contradiction
  | dollar tag => contradiction
  | continuation => contradiction

theorem endsInOpener_quoted {q : Quote} (ih : EndsInOpenerBelow (left (some (.quoted q)) t) c)
    (hc : inComment (some c)) (hread : lexer.transition (some (.quoted q)) t = .ok (some c)) :
    EndsInOpener (some (.quoted q)) t c := by
  cases hbody : readBody q.mark q.escapes t with
  | inside =>
    rw [transition_quoted_of_inside hbody] at hread
    obtain rfl : State.quoted q = c := by simpa using hread
    contradiction
  | halfEscape =>
    rw [transition_quoted_of_halfEscape hbody] at hread
    contradiction
  | closed rest =>
    obtain ⟨u, rfl, hu, hrest⟩ := exists_of_readBody_closed hbody
    have hne : u ≠ [] := by
      rintro rfl
      simp [readBody] at hu
    have hafter : inComment q.after = false := by
      rcases q.atTop_after with hq | hq <;> rw [hq] <;> rfl
    exact (leads_quoted hu hrest).endsInOpener ih (left_lt hne) (proper_after q) hc hafter hread

theorem endsInOpener_dollar {tag : Text} (ih : EndsInOpenerBelow (left (some (.dollar tag)) t) c)
    (htag : isTag tag) (hc : inComment (some c))
    (hread : lexer.transition (some (.dollar tag)) t = .ok (some c)) :
    EndsInOpener (some (.dollar tag)) t c := by
  cases hfirst : afterFirst? tag t with
  | some rest =>
    obtain ⟨u, rfl, hu⟩ := exists_of_afterFirst? hfirst
    exact (leads_dollar htag hu rest).endsInOpener ih (left_none_lt ..) trivial hc rfl hread
  | none =>
    exfalso
    by_cases hfits : fitsBetween tag t
    · rw [transition_dollar_of_fitsBetween hfits] at hread
      obtain rfl : State.dollar tag = c := by simpa using hread
      contradiction
    · obtain ⟨tail, hlast, hprefix⟩ : ∃ tail, fromLast? '$' t = some tail ∧ tail <+: tag := by
        simpa [fitsBetween_iff, hfirst] using hfits
      rw [transition_dollar_of_tail hfirst hlast hprefix] at hread
      contradiction

theorem transition_continuation_prefix_eq {d : Char} (hblank : isBlank d = false)
    (hquote : d ≠ apostrophe) (hcomment : commentOpened? (d :: t) = none) (hu : u <+: d :: t)
    (hne : u ≠ []) : lexer.transition (some .continuation) u = lexer.transition none u := by
  obtain ⟨e, u, rfl⟩ := List.exists_cons_of_ne_nil hne
  obtain ⟨rfl, more, rfl⟩ := List.cons_prefix_cons.1 hu
  refine transition_continuation_of_other hblank hquote ?_
  rw [Option.eq_none_iff_forall_ne_some]
  rintro ⟨k, body⟩ hopened
  rw [← List.cons_append, commentOpened?_append hopened] at hcomment
  contradiction

/-- Where the string with escapes is not taken up, what stands in front of an opener at the end
is read at top level. -/
theorem EndsInOpener.of_continuation {d : Char} (hblank : isBlank d = false)
    (hquote : d ≠ apostrophe) (hcomment : commentOpened? (d :: t) = none)
    (h : EndsInOpener none (d :: t) c) : EndsInOpener (some .continuation) (d :: t) c := by
  have hread {front : Text} {k : Comment} (htext : d :: t = front ++ k.opener)
      (hopener : commentOpened? k.opener = some (k, [])) :
      lexer.transition (some .continuation) front = lexer.transition none front := by
    refine transition_continuation_prefix_eq hblank hquote hcomment ⟨_, htext.symm⟩ ?_
    rintro rfl
    rw [htext, List.nil_append, hopener] at hcomment
    contradiction
  generalize htext : d :: t = text at h
  cases h with
  | line h hlast => exact .line ((hread htext rfl).trans h) hlast
  | block h => exact .block ((hread htext rfl).trans h)

theorem endsInOpener_continuation (ih : EndsInOpenerBelow (left (some .continuation) t) c)
    (hc : inComment (some c)) (hne : t ≠ [])
    (hread : lexer.transition (some .continuation) t = .ok (some c)) :
    EndsInOpener (some .continuation) t c := by
  obtain ⟨d, t, rfl⟩ := List.exists_cons_of_ne_nil hne
  by_cases hblank : isBlank d
  · exact (leads_blank hblank t).endsInOpener (u := [d]) ih (left_lt (by simp)) trivial hc rfl hread
  by_cases hquote : d = apostrophe
  · subst hquote
    exact (leads_apostrophe t).endsInOpener (u := [_]) ih (left_lt (by simp)) trivial hc rfl hread
  cases hopened : commentOpened? (d :: t) with
  | some found =>
    cases hafter : afterComment? found.1 found.2 with
    | some rest =>
      obtain ⟨u, rest', htext, hu, hleads⟩ := exists_leads_comment hopened hafter
      rw [htext] at ih hread ⊢
      exact hleads.endsInOpener ih (left_lt hu) trivial hc rfl hread
    | none =>
      rw [transition_continuation_of_unclosed hopened hafter] at hread
      contradiction
  | none =>
    have hblank : isBlank d = false := by simpa using hblank
    rw [transition_continuation_of_other hblank hquote hopened] at hread
    exact .of_continuation hblank hquote hopened (ih (left_none_lt _ [] _) trivial hne hread)

theorem endsInOpener_of_transition (hs : Proper s) (hne : t ≠ []) (hc : inComment (some c))
    (hread : lexer.transition s t = .ok (some c)) : EndsInOpener s t c := by
  -- The induction is on what is left to read: one part of the text leaves the opener to the rest.
  induction hn : left s t using Nat.strongRecOn generalizing s t with
  | ind n hind =>
    subst hn
    have ih : EndsInOpenerBelow (left s t) c := fun hlt hs hne hread => hind _ hlt hs hne hread rfl
    cases s with
    | none => exact endsInOpener_none ih hc hne hread
    | some s =>
      cases s with
      | lineComment => exact endsInOpener_comment ih hs rfl hc hne hread
      | blockComment depth => exact endsInOpener_comment ih hs rfl hc hne hread
      | quoted q => exact endsInOpener_quoted ih hc hread
      | dollar tag => exact endsInOpener_dollar ih hs hc hread
      | continuation => exact endsInOpener_continuation ih hc hne hread

/-! ### An opener behind a text -/

/-- A dash and a slash are in the openers of comments alone. -/
theorem eq_of_mem_opener {s : State} {d : Char} (hs : s.IsOpened) (hmem : d ∈ s.opener)
    (hd : d = '-' ∨ d = '/') : s = .lineComment ∧ d = '-' ∨ s = .blockComment 1 ∧ d = '/' := by
  cases s with
  | lineComment =>
    obtain rfl : d = '-' := by simpa [State.opener, Comment.opener] using hmem
    exact .inl ⟨rfl, rfl⟩
  | blockComment depth =>
    obtain rfl : depth = 1 := hs
    have hd : d = '/' := by
      rcases hd with rfl | rfl
      · simp [State.opener, Comment.opener] at hmem
      · rfl
    exact .inr ⟨rfl, hd⟩
  | quoted q =>
    exfalso
    rcases hd with rfl | rfl <;> revert hmem <;>
      cases q with
      | string | name => decide
      | escape upper | bits upper | hex upper | unicode upper | unicodeName upper =>
        cases upper <;> decide
  | dollar tag =>
    exfalso
    obtain ⟨name, hname, -, rfl⟩ := isTag_iff.1 hs
    have hchar : d = '$' ∨ d ∈ name := by simpa [State.opener, or_comm] using hmem
    rcases hchar with rfl | hmem
    · simp at hd
    · have hchar := hname d hmem
      rcases hd with rfl | rfl <;> contradiction
  | continuation => exact hs.elim

/-- The opener of a comment stays apart from what comes before it, save for a dash before
dashes. -/
theorem not_fuses_comment {a b : Text} {d : Char} (hd : d = '-' ∨ d = '/')
    (ha : d = '-' → a.getLast? ≠ some '-') : ¬Fuses a (d :: b) := by
  rintro (⟨hs, rfl, hb, hx, hz, hopener, -⟩ | ⟨-, hopens⟩ | ⟨e, he, -, hhead⟩)
  · rename_i s y x z rest
    obtain ⟨e, z, rfl⟩ := List.exists_cons_of_ne_nil hz
    obtain rfl : d = e := (List.cons.inj hb).1
    obtain ⟨e, x, rfl⟩ := List.exists_cons_of_ne_nil hx
    rcases eq_of_mem_opener hs (by simp [hopener]) hd with ⟨rfl, rfl⟩ | ⟨rfl, rfl⟩
    · -- Two dashes are cut between them.
      obtain ⟨rfl, htail⟩ := List.cons.inj hopener
      obtain rfl : x = [] := by
        cases x with
        | nil => rfl
        | cons e x => simp at htail
      exact ha rfl (by simp)
    · obtain ⟨-, htail⟩ := List.cons.inj hopener
      have hslash : '/' ∈ ['*'] := by
        rw [htail]
        simp
      exact absurd hslash (by decide)
  · rcases hd with rfl | rfl <;> contradiction
  · obtain rfl : d = e := Option.some.inj hhead
    rcases hd with rfl | rfl <;> rcases he with he | he <;> contradiction

/-- A text that is read leaves a comment open exactly if it ends right behind the opener of it. -/
theorem transition_eq_comment_iff (hs : Proper s) (hne : t ≠ []) (hc : inComment (some c)) :
    lexer.transition s t = .ok (some c) ↔ EndsInOpener s t c := by
  constructor
  · exact endsInOpener_of_transition hs hne hc
  · have hopener {s : State} (hs : s.IsOpened) : lexer.transition none s.opener = .ok (some s) := by
      rw [← List.append_nil s.opener, transition_none_of_opened (opened?_opener hs []),
        Lexer.transition_nil]
    rintro (⟨h, hlast⟩ | ⟨h⟩)
    · exact transition_append_eq_ok hs h (hopener (s := .lineComment) trivial)
        (.of_not_fuses (not_fuses_comment (.inl rfl) fun _ => hlast))
    · exact transition_append_eq_ok hs h (hopener (s := .blockComment 1) rfl)
        (.of_not_fuses (not_fuses_comment (.inr rfl) nofun))

theorem inComment_transition_iff {q : Option State} (hs : Proper s) (hne : t ≠ [])
    (hread : lexer.transition s t = .ok q) : inComment q ↔ ∃ c, EndsInOpener s t c := by
  constructor
  · intro hopen
    cases q with
    | none => contradiction
    | some c => exact ⟨c, (transition_eq_comment_iff hs hne hopen).1 hread⟩
  · rintro ⟨c, h⟩
    have hc := (transition_eq_comment_iff hs hne h.inComment).2 h
    obtain rfl : some c = q := Except.ok.inj (hc.symm.trans hread)
    exact h.inComment

/-- A comment with some text of it, but not its end, is refused. -/
theorem exists_transition_eq_error {front body : Text} {k : Comment} (hs : Proper s)
    (hfront : lexer.transition s front = .ok none)
    (hopened : commentOpened? (k.opener ++ body) = some (k, body))
    (hlast : k = .dashes → front.getLast? ≠ some '-') (hafter : afterComment? k body = none)
    (hne : body ≠ []) :
    ∃ e, lexer.transition s (front ++ (k.opener ++ body)) = .error e ∧
      e.category = .unterminated := by
  have hfuses : ¬Fuses front (k.opener ++ body) := by
    cases k with
    | dashes => exact not_fuses_comment (.inl rfl) fun _ => hlast rfl
    | block => exact not_fuses_comment (.inr rfl) nofun
    | hash => rcases commentOpened?_eq_some_iff.1 hopened with ⟨hk, -⟩ | ⟨hk, -⟩ <;> contradiction
  have hread : ∃ e, lexer.transition none (k.opener ++ body) = .error e ∧
      e.category = .unterminated := by
    rw [transition_none_of_commentOpened? hopened]
    cases k with
    | block => exact ⟨_, transition_blockComment_of_none hne hafter, rfl⟩
    | dashes | hash => exact ⟨_, transition_lineComment_of_none hne hafter, rfl⟩
  obtain ⟨e, hread, he⟩ := hread
  exact (transition_append hs hfront (.of_not_fuses hfuses)).exists_eq_error hread he

/-! ### Statements -/

/-- Whether a fresh scan is left with a comment open behind its opener: a chunk has ended there,
and nothing but empty chunks came after it. -/
inductive LeftOpen : List (Option Text) → Prop
  | opener {fed : List (Option Text)} {chunk : Text} {c : State}
      (h : EndsInOpener (Scan.feeds lexer {} fed).state chunk c) : LeftOpen (fed ++ [some chunk])
  | empty {fed : List (Option Text)} (h : LeftOpen fed) : LeftOpen (fed ++ [some []])

theorem leftOpen_concat_iff {fed : List (Option Text)} {chunk : Option Text} :
    LeftOpen (fed ++ [chunk]) ↔ ∃ text, chunk = some text ∧
      ((∃ c, EndsInOpener (Scan.feeds lexer {} fed).state text c) ∨ text = [] ∧ LeftOpen fed) := by
  constructor
  · generalize hall : fed ++ [chunk] = all
    rintro (@⟨_, text, c, h⟩ | h)
    · obtain ⟨rfl, rfl⟩ := by simpa using hall
      exact ⟨text, rfl, .inl ⟨c, h⟩⟩
    · obtain ⟨rfl, rfl⟩ := by simpa using hall
      exact ⟨[], rfl, .inr ⟨rfl, h⟩⟩
  · rintro ⟨text, rfl, ⟨c, h⟩ | ⟨rfl, h⟩⟩
    · exact .opener h
    · exact .empty h

theorem not_leftOpen_nil : ¬LeftOpen [] := by
  generalize hall : ([] : List (Option Text)) = all
  rintro (h | h) <;> simp at hall

theorem proper_feeds (fed : List (Option Text)) : Proper (Scan.feeds lexer {} fed).state :=
  Scan.feeds_induction proper_of_transition fed trivial

theorem inComment_of_finish (h : lexer.finish s = .ok ()) : inComment s = false := by
  cases s with
  | none => rfl
  | some s =>
    cases s with
    | lineComment | blockComment depth => contradiction
    | quoted q | dollar tag | continuation => rfl

/-- A fresh scan that has not failed stands in a comment exactly if it was left open. -/
theorem inComment_feeds_iff {fed : List (Option Text)}
    (hok : (Scan.feeds lexer {} fed).failure = none) :
    inComment (Scan.feeds lexer {} fed).state ↔ LeftOpen fed := by
  induction fed using List.reverseRecOn with
  | nil => simp [inComment, not_leftOpen_nil]
  | append_singleton fed chunk ih =>
    rw [Scan.feeds_concat] at hok ⊢
    obtain ⟨q, hfed, hq⟩ := Scan.exists_of_failure_feed hok
    rw [Scan.feed_of_ok hfed hq, leftOpen_concat_iff]
    cases chunk with
    | none =>
      -- A statement may end at top level or after a string with escapes.
      obtain ⟨⟨⟩, hfinish, rfl⟩ := Except.map_eq_ok_iff.1 hq
      have hclear := inComment_of_finish hfinish
      simp [hclear]
    | some text =>
      by_cases hne : text = []
      · subst hne
        have hempty : ¬∃ c, EndsInOpener (Scan.feeds lexer {} fed).state [] c :=
          fun ⟨c, h⟩ => h.ne_nil rfl
        obtain rfl := Except.ok.inj ((lexer.transition_nil _).symm.trans hq)
        simp [hempty, ih hfed]
      · rw [inComment_transition_iff (proper_feeds fed) hne hq]
        simp [hne]

end SqlWeave.Postgres
