/-
SqlWeave/Proofs/Postgres/Fusion.lean

What can go wrong where two pieces of a text meet at top level.  An opener may begin in the
first piece and end in the second, a word may go on into the second piece and take its first
opener for a part of itself, and two quotes may meet.  Where no quote and no comment comes about
in that way, it can still be said from where the reading goes on (`Resumes`).

Main results: the beginning of an opener that is cut off opens nothing (`CutOpener.calm`), what
is left of a word is passed by as if it began there (`transition_none_dropWhile`), and pieces
with a separator between them do not fuse (`not_fuses_cons`, `not_fuses_of_last`).
-/
import SqlWeave.Proofs.Postgres.Reading

namespace SqlWeave.Postgres

open Text

/-! ### Pieces that fuse -/

/-- Whether a text ends in the middle of a word.  A dollar may be the end of a tag, so no word
is followed back across one. -/
def endsInsideWord (a : Text) : Bool := (a.reverse.takeWhile isWordChar).any isWordStart

/-- Whether the second text does not go on with a word of the first. -/
def Fresh (y x : Text) : Prop :=
  endsInsideWord y → ∀ c, x.head? = some c → isWordPart c = false

/-- Whether a text ends in a word, which a word character or a dollar would continue. -/
def endsInWord (a : Text) : Bool := (a.reverse.takeWhile isWordPart).any isWordStart

/-- Whether something opens at the beginning of a text, before the first word and before the
first character that would end a word. -/
def opensInWord : Text → Bool
  | [] => false
  | c :: t =>
    isWordPart c && ((opened? (c :: t)).isSome || !isWordStart c && opensInWord t)

/-- Whether a text ends with the quote that the next one begins with. -/
def QuotesMeet (a b : Text) : Prop :=
  ∃ c, (c = apostrophe ∨ c = quotation) ∧ a.getLast? = some c ∧ b.head? = some c

/-- Whether the lexer may read the end of one text and the beginning of the next as one. -/
inductive Fuses (a b : Text) : Prop
  /-- An opener `x ++ z` begins in the first text and ends in the second. -/
  | opener {s : State} {y x z rest : Text} (hs : s.IsOpened) (ha : a = y ++ x)
      (hb : b = z ++ rest) (hx : x ≠ []) (hz : z ≠ []) (hopener : s.opener = x ++ z)
      (hfresh : Fresh y x)
  /-- A word goes on, and something opens inside of it. -/
  | word (ha : endsInWord a) (hb : opensInWord b)
  /-- A quote is doubled. -/
  | quotes (h : QuotesMeet a b)

/-- Nothing is open, or at most a string with escapes that may go on. -/
def AtTop (s : Option State) : Prop := s = none ∨ s = some .continuation

/-- Whether the second of two texts can be read by itself where the first one leaves `q` open.
Inside quotes, dollar tags and comments nothing stands in the way of that. -/
structure Joins (q : Option State) (a b : Text) : Prop where
  apart : q = none → ¬Fuses a b
  quotes : q = some .continuation → ¬QuotesMeet a b

/-- Whether the two characters that open a comment meet. -/
def CommentsMeet (a b : Text) : Prop :=
  a.getLast? = some '-' ∧ b.head? = some '-' ∨ a.getLast? = some '/' ∧ b.head? = some '*'

/-- Whether no comment is put together where two texts meet, and no quote is doubled. -/
structure Abuts (q : Option State) (a b : Text) : Prop where
  comments : q = none → ¬CommentsMeet a b
  quotes : AtTop q → ¬QuotesMeet a b

/-- Where the reading of two texts goes on, `s` being open and `u` left of the second one. -/
inductive Resumes (q : Option State) (a b : Text) : Option State → Text → Prop
  /-- The second text is read by itself. -/
  | apart : Resumes q a b q b
  /-- The opener that has begun in the first text ends in the second. -/
  | opener {s : State} {y x z rest : Text} (hq : q = none) (hs : s.IsOpened) (ha : a = y ++ x)
      (hb : b = z ++ rest) (hx : x ≠ []) (hz : z ≠ []) (hopener : s.opener = x ++ z)
      (hfresh : Fresh y x) : Resumes q a b (some s) rest
  /-- A word of the first text goes on, and what opens inside of it opens nothing. -/
  | word (hq : q = none) (ha : endsInWord a) (hb : opensInWord b) :
      Resumes q a b none (b.dropWhile isWordPart)

theorem Joins.of_not_fuses {q : Option State} {a b : Text} (h : ¬Fuses a b) : Joins q a b :=
  ⟨fun _ => h, fun _ hmeet => h (.quotes hmeet)⟩

theorem Joins.of_not_atTop {q : Option State} (hq : ¬AtTop q) (a b : Text) : Joins q a b :=
  ⟨fun h => (hq (.inl h)).elim, fun h => (hq (.inr h)).elim⟩

theorem Joins.of_continuation {a b : Text} (h : ¬QuotesMeet a b) :
    Joins (some .continuation) a b :=
  ⟨nofun, fun _ => h⟩

theorem CommentsMeet.fuses {a b : Text} (h : CommentsMeet a b) : Fuses a b := by
  -- Neither a dash nor a slash goes on with a word, so the opener begins where it must.
  have hfuses {c d : Char} {s : State} (hs : s.IsOpened) (hopener : s.opener = [c] ++ [d])
      (hc : isWordPart c = false) (ha : a.getLast? = some c) (hb : b.head? = some d) :
      Fuses a b := by
    obtain ⟨y, rfl⟩ := List.getLast?_eq_some_iff.1 ha
    obtain ⟨rest, rfl⟩ := List.head?_eq_some_iff.1 hb
    refine .opener hs rfl rfl (by simp) (by simp) hopener ?_
    rintro - e ⟨⟩
    exact hc
  rcases h with ⟨ha, hb⟩ | ⟨ha, hb⟩
  · exact hfuses (s := .lineComment) trivial rfl (by decide) ha hb
  · exact hfuses (s := .blockComment 1) rfl rfl (by decide) ha hb

theorem Joins.abuts {q : Option State} {a b : Text} (h : Joins q a b) : Abuts q a b where
  comments hq hmeet := h.apart hq hmeet.fuses
  quotes hq hmeet := hq.elim (fun hq => h.apart hq (.quotes hmeet)) fun hq => h.quotes hq hmeet

/-- Texts that do not fuse are read one after the other. -/
theorem Resumes.eq_of_joins {q s : Option State} {a b u : Text} (h : Resumes q a b s u)
    (hjoins : Joins q a b) : s = q ∧ u = b := by
  cases h with
  | apart => exact ⟨rfl, rfl⟩
  | opener hq hs ha hb hx hz hopener hfresh =>
    exact absurd (.opener hs ha hb hx hz hopener hfresh) (hjoins.apart hq)
  | word hq ha hb => exact absurd (.word ha hb) (hjoins.apart hq)

/-! ### Texts in which nothing opens -/

/-- A text that nothing opens in, wherever one starts to look. -/
def Calm (t : Text) : Prop := ∀ x, x <:+ t → opened? x = none

theorem Calm.of_suffix {t u : Text} (h : Calm t) (hu : u <:+ t) : Calm u :=
  fun x hx => h x (hx.trans hu)

theorem transition_none_of_calm {t : Text} (h : Calm t) :
    lexer.transition none t = .ok none := by
  -- A word is skipped as a whole, so the induction is on the length.
  induction hn : t.length using Nat.strongRecOn generalizing t with
  | ind n ih =>
    cases t with
    | nil => exact Lexer.transition_nil _ _
    | cons c t =>
      have hopened := h (c :: t) List.suffix_rfl
      by_cases hw : isWordStart c
      · have hsuffix : t.dropWhile isWordPart <:+ t := List.dropWhile_suffix _
        rw [transition_none_of_word hopened hw]
        refine ih _ ?_ (h.of_suffix (hsuffix.trans (List.suffix_cons c t))) rfl
        have := hsuffix.length_le
        simp at hn
        omega
      · rw [transition_none_of_other hopened hw]
        refine ih _ ?_ (h.of_suffix (List.suffix_cons c t)) rfl
        simp at hn
        omega

/-- Every opener but that of a dollar quote has a character that no tag has; the opener of a
dollar quote has a dollar at its end. -/
theorem opened?_eq_none_of_isTagChar {c : Char} {t : Text} (hc : isTagChar c ∨ c = '$')
    (ht : ∀ d ∈ t, isTagChar d) : opened? (c :: t) = none := by
  rw [Option.eq_none_iff_forall_ne_some]
  rintro ⟨s, rest⟩ h
  obtain ⟨hs, htext⟩ := opened?_eq_some_iff.1 h
  have hmem : ∀ d ∈ s.opener, isTagChar d ∨ d = '$' := by
    intro d hd
    have hd' : d ∈ c :: t := htext ▸ List.mem_append_left rest hd
    rcases List.mem_cons.1 hd' with rfl | hd'
    · exact hc
    · exact .inl (ht d hd')
  cases s with
  | lineComment => exact absurd (hmem '-' (by simp [State.opener, Comment.opener])) (by decide)
  | blockComment depth =>
    exact absurd (hmem '/' (by simp [State.opener, Comment.opener])) (by decide)
  | quoted q =>
    have hmark : q.mark ∈ q.opener := by cases q <;> simp [Quote.opener, Quote.mark, Quote.isName]
    have hno : ¬(isTagChar q.mark ∨ q.mark = '$') := by
      cases q <;> simp [Quote.mark, Quote.isName] <;> decide
    exact hno (hmem q.mark hmark)
  | dollar tag =>
    obtain ⟨name, hname, -, rfl⟩ := isTag_iff.1 hs
    have hlast : '$' ∈ t := by
      have := (List.cons.inj htext).2
      rw [this]
      simp
    exact absurd (ht '$' hlast) (by decide)
  | continuation => exact hs.elim

theorem opened?_nil : opened? [] = none := rfl

theorem calm_of_isTagChar {t : Text} (h : ∀ c ∈ t, isTagChar c) : Calm t := by
  intro x hx
  cases x with
  | nil => rfl
  | cons c x =>
    apply opened?_eq_none_of_isTagChar (.inl (h c (hx.subset (by simp))))
    intro d hd
    exact h d (hx.subset (by simp [hd]))

theorem calm_nil : Calm [] := by
  intro x hx
  rw [List.suffix_nil.1 hx, opened?_nil]

theorem Calm.cons {c : Char} {t : Text} (hc : opened? (c :: t) = none) (ht : Calm t) :
    Calm (c :: t) := by
  intro x hx
  rcases List.suffix_cons_iff.1 hx with rfl | hx
  · exact hc
  · exact ht x hx

/-! ### Openers that are cut in two -/

/-- The letters that make a quote behind them a different one. -/
def isQuoteLetter (c : Char) : Bool :=
  c = 'e' || c = 'E' || c = 'b' || c = 'B' || c = 'x' || c = 'X' || c = 'u' || c = 'U'

theorem eq_of_isQuoteLetter {c : Char} (h : isQuoteLetter c) :
    c = 'e' ∨ c = 'E' ∨ c = 'b' ∨ c = 'B' ∨ c = 'x' ∨ c = 'X' ∨ c = 'u' ∨ c = 'U' := by
  simpa [isQuoteLetter, or_assoc] using h

theorem isTagChar_of_isQuoteLetter {c : Char} (h : isQuoteLetter c) : isTagChar c := by
  rcases eq_of_isQuoteLetter h with rfl | rfl | rfl | rfl | rfl | rfl | rfl | rfl <;> decide

/-- The two parts of an opener that is cut in two. -/
inductive CutOpener : State → Text → Text → Prop
  | dashes : CutOpener .lineComment ['-'] ['-']
  | slash {depth : Nat} : CutOpener (.blockComment depth) ['/'] ['*']
  | letter {q : Quote} {c : Char} (hc : isQuoteLetter c) (hq : q.isName = false) :
      CutOpener (.quoted q) [c] [q.mark]
  | beforeAmpersand {q : Quote} {c : Char} (hc : isQuoteLetter c) :
      CutOpener (.quoted q) [c] ['&', q.mark]
  | behindAmpersand {q : Quote} {c : Char} (hc : isQuoteLetter c) :
      CutOpener (.quoted q) [c, '&'] [q.mark]
  | dollar {tag name more : Text} (hname : ∀ d ∈ name, isTagChar d)
      (hmore : ∀ d ∈ more, isTagChar d) : CutOpener (.dollar tag) ('$' :: name) (more ++ ['$'])

theorem eq_of_pair_eq_append {a b : Char} {x z : Text} (h : [a, b] = x ++ z) (hx : x ≠ [])
    (hz : z ≠ []) : x = [a] ∧ z = [b] := by
  match x with
  | [c] =>
    obtain ⟨rfl, rfl⟩ := List.cons.inj h
    exact ⟨rfl, rfl⟩
  | c :: d :: x =>
    have hrest : [] = x ++ z := (List.cons.inj (List.cons.inj h).2).2
    exact absurd (List.append_eq_nil_iff.1 hrest.symm).2 hz

theorem eq_of_triple_eq_append {a b c : Char} {x z : Text} (h : [a, b, c] = x ++ z) (hx : x ≠ [])
    (hz : z ≠ []) : x = [a] ∧ z = [b, c] ∨ x = [a, b] ∧ z = [c] := by
  obtain ⟨d, x, rfl⟩ := List.exists_cons_of_ne_nil hx
  obtain ⟨rfl, htail⟩ := List.cons.inj h
  by_cases hx : x = []
  · subst hx
    exact .inl ⟨rfl, htail.symm⟩
  · obtain ⟨rfl, rfl⟩ := eq_of_pair_eq_append htail hx hz
    exact .inr ⟨rfl, rfl⟩

theorem cutOpener_of_eq {s : State} {x z : Text} (hs : s.IsOpened) (h : s.opener = x ++ z)
    (hx : x ≠ []) (hz : z ≠ []) : CutOpener s x z := by
  cases s with
  | lineComment =>
    obtain ⟨rfl, rfl⟩ := eq_of_pair_eq_append h hx hz
    exact .dashes
  | blockComment depth =>
    obtain ⟨rfl, rfl⟩ := eq_of_pair_eq_append h hx hz
    exact .slash
  | quoted q =>
    cases q with
    | string | name =>
      obtain ⟨c, x, rfl⟩ := List.exists_cons_of_ne_nil hx
      have hrest : [] = x ++ z := (List.cons.inj h).2
      exact absurd (List.append_eq_nil_iff.1 hrest.symm).2 hz
    | escape upper | bits upper | hex upper =>
      obtain ⟨rfl, rfl⟩ := eq_of_pair_eq_append h hx hz
      exact .letter (by cases upper <;> decide) rfl
    | unicode upper | unicodeName upper =>
      rcases eq_of_triple_eq_append h hx hz with ⟨rfl, rfl⟩ | ⟨rfl, rfl⟩
      · exact .beforeAmpersand (by cases upper <;> decide)
      · exact .behindAmpersand (by cases upper <;> decide)
  | dollar tag =>
    obtain ⟨name, hname, -, rfl⟩ := isTag_iff.1 hs
    obtain ⟨c, x, rfl⟩ := List.exists_cons_of_ne_nil hx
    obtain rfl : '$' = c := (List.cons.inj h).1
    have htail : name ++ ['$'] = x ++ z := (List.cons.inj h).2
    -- The last dollar is in the second part, so all before it belongs to the name.
    obtain ⟨more, rfl⟩ : ∃ more, z = more ++ ['$'] := by
      rw [← List.getLast?_eq_some_iff]
      have hlast := congrArg List.getLast? htail
      rw [List.getLast?_append, List.getLast?_append] at hlast
      cases hl : z.getLast? with
      | none => exact absurd (List.getLast?_eq_none_iff.1 hl) hz
      | some d => simpa [hl] using hlast.symm
    rw [← List.append_assoc, List.append_left_inj] at htail
    subst htail
    exact .dollar (fun d hd => hname d (by simp [hd])) (fun d hd => hname d (by simp [hd]))
  | continuation => exact hs.elim

/-- The beginning of an opener that is cut off opens nothing. -/
theorem CutOpener.calm {s : State} {x z : Text} (h : CutOpener s x z) : Calm x := by
  cases h with
  | dashes => exact calm_nil.cons rfl
  | slash => exact calm_nil.cons rfl
  | letter hc hq => exact calm_of_isTagChar (by simpa using isTagChar_of_isQuoteLetter hc)
  | beforeAmpersand hc => exact calm_of_isTagChar (by simpa using isTagChar_of_isQuoteLetter hc)
  | behindAmpersand hc =>
    have hampersand : Calm ['&'] := calm_nil.cons rfl
    refine hampersand.cons ?_
    rcases eq_of_isQuoteLetter hc with rfl | rfl | rfl | rfl | rfl | rfl | rfl | rfl <;> rfl
  | dollar hname hmore =>
    exact (calm_of_isTagChar hname).cons (opened?_eq_none_of_isTagChar (.inr rfl) hname)

/-- What opens only when more text comes begins with all of the first piece. -/
theorem exists_opener_eq {a b rest : Text} {s : State} (ha : opened? a = none)
    (h : opened? (a ++ b) = some (s, rest)) :
    s.IsOpened ∧ ∃ z, z ≠ [] ∧ s.opener = a ++ z ∧ b = z ++ rest := by
  obtain ⟨hs, htext⟩ := opened?_eq_some_iff.1 h
  refine ⟨hs, ?_⟩
  -- If the opener were all in `a`, it would open there already.
  rcases List.append_eq_append_iff.1 htext with ⟨z, hopener, hb⟩ | ⟨z, rfl, -⟩
  · refine ⟨z, ?_, hopener, hb⟩
    rintro rfl
    have : opened? a = some (s, []) := opened?_eq_some_iff.2 ⟨hs, by simpa using hopener.symm⟩
    simp [this] at ha
  · rw [opened?_opener hs] at ha
    contradiction

theorem opened?_append {a b rest : Text} {s : State} (h : opened? a = some (s, rest)) :
    opened? (a ++ b) = some (s, rest ++ b) := by
  obtain ⟨hs, rfl⟩ := opened?_eq_some_iff.1 h
  rw [List.append_assoc, opened?_opener hs]

/-! ### Words -/

theorem dropWhile_of_head? {p : Char → Bool} {t : Text}
    (h : ∀ c, t.head? = some c → p c = false) : t.dropWhile p = t := by
  cases t with
  | nil => rfl
  | cons c t => exact List.dropWhile_cons_of_neg (by simp [h c rfl])

/-- Where nothing opens inside it, what is left of a word is passed by as if it began there. -/
theorem transition_none_dropWhile {b : Text} (h : opensInWord b = false) :
    lexer.transition none (b.dropWhile isWordPart) = lexer.transition none b := by
  induction b with
  | nil => rfl
  | cons c t ih =>
    by_cases hc : isWordPart c
    · rw [opensInWord, hc, Bool.true_and, Bool.or_eq_false_iff, Option.isSome_eq_false_iff,
        Option.isNone_iff_eq_none] at h
      obtain ⟨hopened, hrest⟩ := h
      rw [List.dropWhile_cons_of_pos hc]
      by_cases hw : isWordStart c
      · rw [transition_none_of_word hopened hw]
      · simp only [hw, Bool.not_false, Bool.true_and] at hrest
        rw [transition_none_of_other hopened hw, ih hrest]
    · rw [List.dropWhile_cons_of_neg hc]

theorem endsInWord_append {y t : Text} {c : Char} (hc : isWordStart c)
    (ht : ∀ d ∈ t, isWordPart d) : endsInWord (y ++ c :: t) := by
  have hreverse : (y ++ c :: t).reverse = t.reverse ++ (c :: y.reverse) := by simp
  have hall : ∀ d ∈ t.reverse, isWordPart d := fun d hd => ht d (List.mem_reverse.1 hd)
  rw [endsInWord, hreverse, List.takeWhile_append_of_pos hall,
    List.takeWhile_cons_of_pos (isWordPart_of_isWordStart hc)]
  simp [hc]

theorem endsInsideWord_eq_false {y : Text} {c : Char} (hc : isWordChar c = false) :
    endsInsideWord (y ++ [c]) = false := by
  simp [endsInsideWord, hc]

theorem fresh_of_last {y x : Text} {c : Char} (hc : isWordChar c = false) : Fresh (y ++ [c]) x := by
  intro h
  rw [endsInsideWord_eq_false hc] at h
  contradiction

/-- What begins afresh in a text begins so in every end of it that holds it. -/
theorem Fresh.of_append {u y x : Text} (h : Fresh (u ++ y) x) : Fresh y x := by
  intro hinside
  apply h
  rw [endsInsideWord, List.any_eq_true] at hinside ⊢
  obtain ⟨c, hc, hstart⟩ := hinside
  refine ⟨c, ?_, hstart⟩
  rw [List.reverse_append, List.takeWhile_append]
  split
  · exact List.mem_append_left _ (List.takeWhile_subset _ hc)
  · exact hc

theorem fresh_dropWhile (y t : Text) : Fresh y (t.dropWhile isWordPart) := by
  intro _ c hc
  have hhead := List.head?_dropWhile_not isWordPart t
  rwa [hc] at hhead

theorem fresh_of_isLineBreak {y t : Text} {c : Char} (hc : isLineBreak c) : Fresh y (c :: t) := by
  rintro - d ⟨⟩
  simp only [isLineBreak, Bool.or_eq_true, decide_eq_true_eq] at hc
  rcases hc with rfl | rfl <;> decide

/-- A character that is passed by and starts no word leaves no word open. -/
theorem Fresh.step {y t : Text} {c : Char} (h : Fresh y (c :: t)) (hw : ¬isWordStart c) :
    Fresh (y ++ [c]) t := by
  cases hc : isWordChar c with
  | false => exact fresh_of_last hc
  | true =>
    intro hinside
    have hy : endsInsideWord y := by
      simpa [endsInsideWord, hc, hw] using hinside
    have := h hy c rfl
    simp [isWordPart, hc] at this

/-! ### Separators -/

theorem isBlank_iff {c : Char} : isBlank c ↔ c = '\t' ∨ c = '\r' ∨ c = '\n' ∨ c = ' ' := by
  simp [isBlank, or_assoc]

/-- The characters that no word and no opener has. -/
def isSeparator (c : Char) : Bool := !isOpenerChar c && !isWordChar c

theorem isSeparator_iff {c : Char} :
    isSeparator c ↔ isOpenerChar c = false ∧ isWordChar c = false := by
  simp [isSeparator]

theorem isIdle_of_isSeparator {c : Char} (h : isSeparator c) : isIdle c := by
  obtain ⟨hopener, hword⟩ := isSeparator_iff.1 h
  simp [isIdle, isWordStart, hopener, hword]

theorem isSeparator_of_isBlank {c : Char} (h : isBlank c) : isSeparator c := by
  rcases isBlank_iff.1 h with rfl | rfl | rfl | rfl <;> decide

theorem isWordPart_of_isSeparator {c : Char} (h : isSeparator c) : isWordPart c = false := by
  have hdollar : c ≠ '$' := by
    rintro rfl
    exact absurd h (by decide)
  simp [isWordPart, (isSeparator_iff.1 h).2, hdollar]

theorem isTagChar_of_isSeparator {c : Char} (h : isSeparator c) : isTagChar c = false := by
  have hopener := (isSeparator_iff.1 h).1
  rw [Bool.eq_false_iff]
  intro htag
  simp [isOpenerChar, htag] at hopener

theorem not_mem_opener {s : State} (hs : s.IsOpened) {c : Char} (hc : isSeparator c) :
    c ∉ s.opener := by
  intro hmem
  have hopener := (isSeparator_iff.1 hc).1
  rw [isOpenerChar_of_mem_opener hs hmem] at hopener
  contradiction

theorem isSeparator_ne_quote {c d : Char} (hc : isSeparator c)
    (hd : d = apostrophe ∨ d = quotation) : c ≠ d := by
  rintro rfl
  rcases hd with rfl | rfl
  · exact absurd hc (by decide)
  · exact absurd hc (by decide)

/-- A separator keeps what comes before it from itself and what follows. -/
theorem not_fuses_cons (a b : Text) {c : Char} (hc : isSeparator c) : ¬Fuses a (c :: b) := by
  rintro (⟨hs, -, hb, -, hz, hopener, -⟩ | ⟨-, hopens⟩ | ⟨d, hd, -, hhead⟩)
  · obtain ⟨d, z, rfl⟩ := List.exists_cons_of_ne_nil hz
    obtain rfl : c = d := (List.cons.inj hb).1
    exact not_mem_opener hs hc (by simp [hopener])
  · simp [opensInWord, isWordPart_of_isSeparator hc] at hopens
  · exact isSeparator_ne_quote hc hd (Option.some.inj hhead)

theorem not_fuses_of_last (a b : Text) {c : Char} (hc : isSeparator c) :
    ¬Fuses (a ++ [c]) b := by
  rintro (⟨hs, ha, -, hx, -, hopener, -⟩ | ⟨hends, -⟩ | ⟨d, hd, hlast, -⟩)
  · rename_i x z rest
    -- The separator would be the last character of `x`, and so a part of the opener.
    have hlast := congrArg List.getLast? ha
    rw [List.getLast?_append, List.getLast?_append] at hlast
    cases hl : x.getLast? with
    | none => exact hx (List.getLast?_eq_none_iff.1 hl)
    | some d =>
      obtain rfl : c = d := by simpa [hl] using hlast
      have hmem : c ∈ x := List.mem_of_getLast? hl
      exact not_mem_opener hs hc (by simp [hopener, hmem])
  · simp [endsInWord, isWordPart_of_isSeparator hc] at hends
  · exact isSeparator_ne_quote hc hd (by simpa using hlast)

end SqlWeave.Postgres
