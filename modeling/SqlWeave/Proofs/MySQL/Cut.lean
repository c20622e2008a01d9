/-
SqlWeave/Proofs/MySQL/Cut.lean

Reading a text of MySQL in two pieces.  The lexer looks at most two characters ahead: a dash
asks for another dash and a blank, a slash for an asterisk, and a closing quote for another
quote.  Where the second piece does not supply what the end of the first one asks for, reading
them together comes to reading them one after the other.

Main results: the cut is sound at top level where the pieces stand apart, and inside quotes
always (`transition_append`).
-/
import SqlWeave.Proofs.MySQL.Reading
import SqlWeave.Template.Seam

namespace SqlWeave.MySQL

open Text

/-! ### Pieces that stand apart -/

/-- Whether no token is made of the end of one text and the beginning of the next. -/
structure Apart (a b : Text) : Prop where
  dash : a.getLast? = some '-' → (∀ c, b.head? = some c → isBlank c = false) ∧ opensDashes b = false
  slash : a.getLast? = some '/' → b.head? ≠ some '*'
  quote : ∀ c, Template.isQuote c → a.getLast? = some c → b.head? ≠ some c

theorem Apart.of_suffix {a a' b : Text} (h : Apart a b) (hs : a' <:+ a) : Apart a' b := by
  have hlast : ∀ c, a'.getLast? = some c → a.getLast? = some c := by
    obtain ⟨front, rfl⟩ := hs
    intro c hc
    rw [List.getLast?_append, hc, Option.some_or]
  exact ⟨fun ha => h.dash (hlast _ ha), fun ha => h.slash (hlast _ ha),
    fun c hc ha => h.quote c hc (hlast c ha)⟩

theorem Apart.of_cons {c : Char} {a b : Text} (h : Apart (c :: a) b) : Apart a b :=
  h.of_suffix (List.suffix_cons c a)

theorem Apart.append_left {a b : Text} (front : Text) (h : Apart a b) (hne : a ≠ []) :
    Apart (front ++ a) b := by
  have hlast : ∀ c, (front ++ a).getLast? = some c → a.getLast? = some c := by
    intro c hc
    rw [List.getLast?_append] at hc
    cases hl : a.getLast? with
    | none => exact absurd (List.getLast?_eq_none_iff.1 hl) hne
    | some d => rwa [hl, Option.some_or] at hc
  exact ⟨fun ha => h.dash (hlast _ ha), fun ha => h.slash (hlast _ ha),
    fun c hc ha => h.quote c hc (hlast c ha)⟩

/-! ### Searches that differ in a comment's text -/

/-- Two places in a search that differ at most in the text of a comment. -/
inductive Place.Alike : Place → Place → Prop
  | code : Alike .code .code
  | inside (k : Comment) (body body' : Text) : Alike (.inside k body) (.inside k body')

/-- Two outcomes of a search that differ at most in the text of a comment. -/
inductive Found.Alike : Found → Found → Prop
  | nothing : Alike .nothing .nothing
  | opened (q : Quote) (rest : Text) : Alike (.opened q rest) (.opened q rest)
  | unclosed (k : Comment) (body body' : Text) : Alike (.unclosed k body) (.unclosed k body')

theorem Found.Alike.refl (f : Found) : Found.Alike f f := by
  cases f with
  | nothing => exact .nothing
  | opened q rest => exact .opened q rest
  | unclosed k body => exact .unclosed k body body

theorem transition_none_of_alike {a b : Text} (h : Found.Alike (seek .code a) (seek .code b)) :
    Agree (lexer.transition none a) (lexer.transition none b) := by
  generalize hx : seek .code a = x at h
  generalize hy : seek .code b = y at h
  cases h with
  | nothing =>
    rw [transition_none_of_nothing hx, transition_none_of_nothing hy]
    exact Agree.refl _
  | opened q rest =>
    rw [transition_none_of_opened hx, transition_none_of_opened hy]
    exact Agree.refl _
  | unclosed k body body' =>
    rw [transition_none_of_unclosed hx, transition_none_of_unclosed hy]
    rfl

/-! ### Searches in two pieces -/

theorem opensDashes_append {a b : Text} (h : opensDashes a) : opensDashes (a ++ b) := by
  unfold opensDashes at h
  split at h
  · exact h
  · contradiction

theorem opensDashes_dash {c : Char} {t : Text} : opensDashes ('-' :: c :: t) = isBlank c := rfl

/-- A dash that opens a comment only with the second piece stands at the end of the first. -/
theorem eq_nil_or_eq_dash_of_opensDashes_append {a b : Text} (h : opensDashes (a ++ b))
    (ha : opensDashes a = false) : a = [] ∨ a = ['-'] := by
  match a with
  | [] => exact .inl rfl
  | [c] =>
    by_cases hc : c = '-'
    · exact .inr (by rw [hc])
    · cases b <;> simp [opensDashes, hc] at h
  | c :: d :: a =>
    by_cases hc : c = '-'
    · subst hc
      rw [opensDashes_dash] at ha
      rw [List.cons_append, List.cons_append, opensDashes_dash, ha] at h
      contradiction
    · simp [opensDashes, hc] at h

theorem opensDashes_append_of_apart {a b : Text} (ha : opensDashes a = false)
    (hapart : seek .code a = .nothing → Apart ('-' :: a) b) : opensDashes (a ++ b) = false := by
  rw [Bool.eq_false_iff]
  intro h
  rcases eq_nil_or_eq_dash_of_opensDashes_append h ha with rfl | rfl
  · have hb := ((hapart rfl).dash rfl).2
    rw [List.nil_append, hb] at h
    contradiction
  · have hb := ((hapart rfl).dash rfl).1
    cases b with
    | nil => contradiction
    | cons d b =>
      rw [List.singleton_append, opensDashes_dash, hb d rfl] at h
      contradiction

/-- What a search comes to when more text follows. -/
def Found.append (b : Text) : Found → Found
  | .nothing => seek .code b
  | .opened q rest => .opened q (rest ++ b)
  | .unclosed k body => .unclosed k (body ++ b)

/-- A search that does not end in a comment goes on in the second piece. -/
theorem seek_append {place place' : Place} {a b : Text}
    (hclosed : ∀ k body, seek place a ≠ .unclosed k body) (hplace : Place.Alike place place')
    (hapart : seek place a = .nothing → Apart a b) :
    Found.Alike (seek place' (a ++ b)) ((seek place a).append b) := by
  -- The search goes through `a` as before; only a dash or a slash at its very end asks for `b`.
  fun_induction seek place a generalizing place' with
  | case1 =>
    cases hplace
    exact Found.Alike.refl _
  | case2 c rest hc ih =>
    cases hplace
    obtain ⟨rfl, hdashes⟩ := hc
    rw [List.cons_append, seek_dash (opensDashes_append hdashes)]
    exact ih hclosed (.inside ..) fun h => (hapart h).of_cons
  | case3 rest hc ih =>
    cases hplace
    rw [List.cons_append, seek_hash]
    exact ih hclosed (.inside ..) fun h => (hapart h).of_cons
  | case4 =>
    cases hplace
    rw [List.cons_append, List.nil_append, seek_slash ((hapart rfl).slash rfl)]
    exact Found.Alike.refl _
  | case5 rest hc hc' ih =>
    cases hplace
    rw [List.cons_append, List.cons_append, seek_block]
    exact ih hclosed (.inside ..) fun h => (hapart h).of_cons.of_cons
  | case6 d rest hd hc hc' ih =>
    cases hplace
    rw [List.cons_append, seek_slash (by simpa using hd)]
    exact ih hclosed .code fun h => (hapart h).of_cons
  | case7 c rest hdash hhash hslash q hquote =>
    cases hplace
    rw [List.cons_append, seek_quote hquote]
    exact Found.Alike.refl _
  | case8 c rest hdash hhash hslash hquote ih =>
    cases hplace
    have hdash' : ¬(c = '-' ∧ opensDashes (rest ++ b)) := by
      rintro ⟨rfl, hopens⟩
      have hrest : opensDashes rest = false := by simpa using hdash
      rw [opensDashes_append_of_apart hrest hapart] at hopens
      contradiction
    rw [List.cons_append, seek_other hdash' hhash hslash hquote]
    exact ih hclosed .code fun h => (hapart h).of_cons
  | case9 k body => exact (hclosed k body rfl).elim
  | case10 body => exact (hclosed .block body rfl).elim
  | case11 body rest ih =>
    cases hplace
    rw [List.cons_append, List.cons_append, seek_block_end]
    exact ih hclosed .code fun h => (hapart h).of_cons.of_cons
  | case12 body d rest hd ih =>
    cases hplace
    rw [List.cons_append, seek_block_other (by simpa using hd)]
    exact ih hclosed (.inside ..) fun h => (hapart h).of_cons
  | case13 body c rest hc ih =>
    cases hplace
    rw [List.cons_append, seek_block_other (fun h => hc h.1)]
    exact ih hclosed (.inside ..) fun h => (hapart h).of_cons
  | case14 k body c rest hk hc ih =>
    cases hplace
    rw [List.cons_append, seek_line_end hk hc]
    exact ih hclosed .code fun h => (hapart h).of_cons
  | case15 k body c rest hk hc ih =>
    cases hplace
    rw [List.cons_append, seek_line_other hk hc]
    exact ih hclosed (.inside ..) fun h => (hapart h).of_cons

/-- A quote that the search found stays where it is when more text follows. -/
theorem seek_append_of_opened {a b rest : Text} {q : Quote} (h : seek .code a = .opened q rest) :
    seek .code (a ++ b) = .opened q (rest ++ b) := by
  have hab := seek_append (a := a) (b := b) (by simp [h]) .code (by simp [h])
  rw [h] at hab
  cases hfound : seek .code (a ++ b) with
  | opened q' rest' =>
    rw [hfound] at hab
    cases hab
    rfl
  | nothing | unclosed k body =>
    rw [hfound] at hab
    cases hab

/-! ### Readings in two pieces -/

theorem seek_opened_suffix {place : Place} {a rest : Text} {q : Quote}
    (h : seek place a = .opened q rest) : rest <:+ a := by
  fun_induction seek place a with
  | case1 | case4 | case9 | case10 => contradiction
  | case7 c rest' hdash hhash hslash q' hquote =>
    obtain ⟨-, rfl⟩ : q' = q ∧ rest' = rest := by simpa using h
    exact List.suffix_cons c rest'
  | case5 rest' hc hc' ih =>
    exact (ih h).trans ((List.suffix_cons _ _).trans (List.suffix_cons _ _))
  | case11 body rest' ih =>
    exact (ih h).trans ((List.suffix_cons _ _).trans (List.suffix_cons _ _))
  | case2 c rest' hc ih => exact (ih h).trans (List.suffix_cons _ _)
  | case3 rest' hc ih => exact (ih h).trans (List.suffix_cons _ _)
  | case6 d rest' hd hc hc' ih => exact (ih h).trans (List.suffix_cons _ _)
  | case8 c rest' hdash hhash hslash hquote ih => exact (ih h).trans (List.suffix_cons _ _)
  | case12 body d rest' hd ih => exact (ih h).trans (List.suffix_cons _ _)
  | case13 body c rest' hc ih => exact (ih h).trans (List.suffix_cons _ _)
  | case14 k body c rest' hk hc ih => exact (ih h).trans (List.suffix_cons _ _)
  | case15 k body c rest' hk hc ih => exact (ih h).trans (List.suffix_cons _ _)

/-- What a first piece leaves open, the second one goes on from. -/
theorem transition_append {s q : Option Quote} {a b : Text}
    (h : lexer.transition s a = .ok q) (hapart : q = none → Apart a b) :
    Agree (lexer.transition s (a ++ b)) (lexer.transition q b) := by
  -- One step is a whole search at top level, or a whole body inside quotes.
  induction s, a using Lexer.transition.induct lexer with
  | case1 s =>
    obtain rfl : s = q := by simpa using h
    exact Agree.refl _
  | case2 s a hne e he =>
    rw [lexer.transition_of_advance_error hne he] at h
    contradiction
  | case3 s a hne s' rest hstep ih =>
    rw [lexer.transition_of_advance hne hstep] at h
    cases s with
    | none =>
      cases hseek : seek .code a with
      | nothing =>
        simp only [lexer, advance, hseek, Except.ok.injEq, Prod.mk.injEq] at hstep
        obtain ⟨rfl, rfl⟩ := hstep
        obtain rfl : none = q := by simpa using h
        have hab := seek_append (by simp [hseek]) .code fun _ => hapart rfl
        rw [hseek] at hab
        exact transition_none_of_alike hab
      | opened q' rest' =>
        simp only [lexer, advance, hseek, Except.ok.injEq, Prod.mk.injEq] at hstep
        obtain ⟨rfl, rfl⟩ := hstep
        rw [transition_none_of_opened (seek_append_of_opened hseek)]
        exact ih h fun hq => (hapart hq).of_suffix (seek_opened_suffix hseek)
      | unclosed k body => simp [lexer, advance, hseek] at hstep
    | some q' =>
      cases hbody : readBody q'.mark true a with
      | inside =>
        simp only [lexer, advance, hbody, Except.ok.injEq, Prod.mk.injEq] at hstep
        obtain ⟨rfl, rfl⟩ := hstep
        obtain rfl : some q' = q := by simpa using h
        exact transition_quoted_append hbody b
      | closed rest' =>
        simp only [lexer, advance, hbody, Except.ok.injEq, Prod.mk.injEq] at hstep
        obtain ⟨rfl, rfl⟩ := hstep
        obtain ⟨front, rfl⟩ := readBody_closed_eq hbody
        -- Where `a` ends in the closing quote, `b` must not begin with another one.
        have hdouble : rest' = [] → b.head? ≠ some q'.mark := by
          rintro rfl
          obtain rfl : none = q := by simpa using h
          have hquote : Template.isQuote q'.mark := by cases q' <;> rfl
          exact (hapart rfl).quote q'.mark hquote (by simp)
        rw [transition_quoted_of_closed (readBody_append_of_closed hbody hdouble)]
        refine ih h fun hq => (hapart hq).of_suffix ?_
        exact (List.suffix_cons _ _).trans (List.suffix_append _ _)
      | halfEscape => simp [lexer, advance, hbody] at hstep

end SqlWeave.MySQL
