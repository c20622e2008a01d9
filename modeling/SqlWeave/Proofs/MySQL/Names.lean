/-
SqlWeave/Proofs/MySQL/Names.lean

Names between backticks in MySQL.  A name is split at its dots, and in each piece the backticks
are doubled.  The lexer reads doubled backticks, too, but it also pairs every backslash with the
character after it, and no backslash of a name is ever spelled out.  Where such a pair takes a
backtick or the end of a piece, the reading comes to stand half a pair off: from there on the
pieces are read at top level, what lies between them is read as a name, and that never
mends itself.

Main results: a name is read as a whole exactly if the backslashes of each piece find their
partners there (`closes_iff_pairsUp`); `closes_not_of_backslash` is the least name that does
not.
-/
import SqlWeave.Proofs.MySQL.Cut
import SqlWeave.Proofs.MySQL.Literal
import SqlWeave.Proofs.Series
import SqlWeave.MySQL.Grammar

namespace SqlWeave.MySQL

open Text

/-! ### Pieces of names -/

/-- Whether the backslashes of a piece, paired from the left with what follows them, take
neither a backtick nor the end of the piece. -/
def pairsUp : Text → Bool
  | [] => true
  | c :: rest =>
    if c = backslash then
      match rest with
      | [] => false
      | d :: rest' => d != backtick && pairsUp rest'
    else pairsUp rest

theorem pairsUp_of_not_mem {p : Text} (h : backslash ∉ p) : pairsUp p := by
  induction p with
  | nil => rfl
  | cons c p ih =>
    rw [List.mem_cons, not_or] at h
    obtain ⟨hc, hp⟩ := h
    rw [pairsUp.eq_def]
    simp [Ne.symm hc, ih hp]

theorem doubled_cons_backtick (p : Text) :
    doubled backtick (backtick :: p) = backtick :: backtick :: doubled backtick p := rfl

theorem doubled_cons_of_ne {c : Char} (hc : c ≠ backtick) (p : Text) :
    doubled backtick (c :: p) = c :: doubled backtick p := by
  simp [doubled, hc]

/-- A piece whose backslashes find their partners stays inside its backticks. -/
theorem readBody_of_pairsUp {p : Text} (h : pairsUp p) :
    readBody backtick true (doubled backtick p) = .inside := by
  fun_induction pairsUp p with
  | case1 => simp [readBody]
  | case2 => contradiction
  | case3 d rest ih =>
    obtain ⟨hd, hrest⟩ : d ≠ backtick ∧ pairsUp rest := by simpa using h
    rw [doubled_cons_of_ne (by decide), doubled_cons_of_ne hd, readBody_escaped (by decide),
      ih hrest]
  | case4 c rest hc ih =>
    by_cases hquote : c = backtick
    · rw [hquote, doubled_cons_backtick, readBody_twice, ih h]
    · rw [doubled_cons_of_ne hquote, readBody_cons_of_ne hquote (by simp [hc]), ih h]

/-! ### Paths -/

/-- The pieces that a name is quoted in. -/
def parts (splits : Bool) (name : Text) : List Text :=
  if splits then Name.pieces name else [name]

theorem parts_ne_nil (splits : Bool) (name : Text) : parts splits name ≠ [] := by
  unfold parts
  split
  · exact Name.pieces_ne_nil name
  · simp

theorem mem_of_mem_parts {splits : Bool} {name p : Text} {c : Char} (hp : p ∈ parts splits name)
    (hc : c ∈ p) : c ∈ name := by
  unfold parts at hp
  split at hp
  · exact Name.mem_of_mem_pieces hp hc
  · exact List.mem_singleton.1 hp ▸ hc

/-- What a path holds between its outer backticks. -/
def inner (parts : List Text) : Text :=
  [backtick, '.', backtick].intercalate (parts.map (doubled backtick))

theorem inner_singleton (p : Text) : inner [p] = doubled backtick p := by
  simp [inner, List.intercalate]

theorem inner_cons_cons (p p' : Text) (ps : List Text) :
    inner (p :: p' :: ps) = doubled backtick p ++ (backtick :: '.' :: backtick :: inner (p' :: ps)) := by
  rw [inner, List.map_cons, intercalate_cons_of_ne_nil _ _ (by simp)]
  rfl

/-- The inner backticks of a path close a piece and open the next one. -/
theorem intercalate_between {parts : List Text} (hne : parts ≠ []) :
    ['.'].intercalate (parts.map fun p => between backtick (doubled backtick p)) =
      between backtick (inner parts) := by
  induction parts with
  | nil => contradiction
  | cons p parts ih =>
    cases parts with
    | nil => simp [List.intercalate, inner_singleton]
    | cons p' parts =>
      rw [List.map_cons, intercalate_cons_of_ne_nil _ _ (by simp), ih (by simp), inner_cons_cons]
      simp [between]

variable {surroundings : Surroundings} {options : Options}

theorem escape_text (trust : TrustPolicy) (forbidQualified : Bool) (t : Text) (face : Face) :
    nameStyle.escape trust forbidQualified (.text t face) =
      .ok (between backtick (inner (parts (!forbidQualified) (face.plain t)))) := by
  rw [← intercalate_between (parts_ne_nil _ _)]
  rfl

theorem splice_text (t : Text) (face : Face) :
    splice surroundings options [backtick] (.text t face) =
      .ok (inner (parts (!options.forbidQualified) (face.plain t))) := by
  rw [splice, if_pos rfl, escape_text]
  simp [between, bind, Except.bind, pure, Except.pure]

/-- Past such a piece, with the dot after it, the reading stands in the next piece. -/
theorem transition_piece {p : Text} (hp : pairsUp p) (t : Text) :
    lexer.transition (some .backtick) (doubled backtick p ++ backtick :: '.' :: backtick :: t) =
      lexer.transition (some .backtick) t := by
  have hclosed : readBody backtick true (doubled backtick p ++ backtick :: '.' :: backtick :: t) =
      .closed ('.' :: backtick :: t) := by
    rw [readBody_append_of_inside (readBody_of_pairsUp hp)]
    exact readBody_of_head?_ne (by simp; decide)
  have hopened : seek .code ('.' :: backtick :: t) = .opened .backtick t := by
    rw [seek_other (by simp) (by simp) (by simp) rfl]
    exact seek_quote rfl
  rw [transition_quoted_of_closed (q := .backtick) hclosed, transition_none_of_opened hopened]

/-- A path of such pieces leaves its backticks open up to the last one. -/
theorem transition_inner {parts : List Text} (hne : parts ≠ []) (h : ∀ p ∈ parts, pairsUp p) :
    lexer.transition (some .backtick) (inner parts) = .ok (some .backtick) := by
  induction parts with
  | nil => contradiction
  | cons p parts ih =>
    have hp := h p (by simp)
    cases parts with
    | nil =>
      rw [inner_singleton]
      exact transition_quoted_of_inside (q := .backtick) (readBody_of_pairsUp hp)
    | cons p' parts =>
      rw [inner_cons_cons, transition_piece hp]
      exact ih (by simp) fun q hq => h q (by simp [hq])

/-! ### Readings that stand half a pair off -/

/-- What is left of a path, with its last backtick, from somewhere within a piece on. -/
inductive Tail : Text → Prop
  | close : Tail [backtick]
  | next {t : Text} (h : Tail t) : Tail (backtick :: '.' :: backtick :: t)
  | pair {t : Text} (h : Tail t) : Tail (backtick :: backtick :: t)
  | char {c : Char} {t : Text} (hc : c ≠ backtick) (h : Tail t) : Tail (c :: t)

/-- What is left of a path from the end of a piece on. -/
inductive Between : Text → Prop
  | done : Between []
  | dot {t : Text} (h : Tail t) : Between ('.' :: backtick :: t)

/-- What is left to read where a reading has gone wrong within a path: the pieces are read at
top level or in a string, and a name is open between them. -/
inductive Shifted : Option Quote → Text → Prop
  | code {t : Text} (h : Tail t) : Shifted none t
  | string {q : Quote} {t : Text} (hq : q.IsString) (h : Tail t) : Shifted (some q) t
  | between {t : Text} (h : Between t) : Shifted (some .backtick) t
  | halfPair {t : Text} (h : Tail t) : Shifted (some .backtick) (backtick :: t)

/-- What a search comes upon where the reading has gone wrong. -/
inductive FindsShifted : Found → Prop
  | opened {q : Quote} {rest : Text} (h : Shifted (some q) rest) : FindsShifted (.opened q rest)
  | unclosed (k : Comment) (body : Text) : FindsShifted (.unclosed k body)

/-- What a body comes to where the reading has gone wrong. -/
inductive EndsShifted : BodyEnd → Prop
  | inside : EndsShifted .inside
  | closed {rest : Text} (h : Tail rest) : EndsShifted (.closed rest)
  | halfEscape : EndsShifted .halfEscape

theorem Tail.of_char {c : Char} {t : Text} (hc : c ≠ backtick) (h : Tail (c :: t)) : Tail t := by
  cases h with
  | char hc' h => exact h
  | close | next h | pair h => contradiction

theorem Tail.of_backtick {t : Text} (h : Tail (backtick :: t)) :
    Between t ∨ ∃ u, t = backtick :: u ∧ Tail u := by
  cases h with
  | close => exact .inl .done
  | next h => exact .inl (.dot h)
  | pair h => exact .inr ⟨_, rfl, h⟩
  | char hc h => contradiction

theorem Between.tail {t : Text} (h : Between t) (p : Text) :
    Tail (doubled backtick p ++ backtick :: t) := by
  induction p with
  | nil =>
    cases h with
    | done => exact .close
    | dot h => exact .next h
  | cons c p ih =>
    by_cases hc : c = backtick
    · rw [hc, doubled_cons_backtick]
      exact .pair ih
    · rw [doubled_cons_of_ne hc]
      exact .char hc ih

theorem tail_inner {parts : List Text} (hne : parts ≠ []) : Tail (inner parts ++ [backtick]) := by
  induction parts with
  | nil => contradiction
  | cons p parts ih =>
    cases parts with
    | nil =>
      rw [inner_singleton]
      exact Between.done.tail p
    | cons p' parts =>
      rw [inner_cons_cons, List.append_assoc]
      exact (Between.dot (ih (by simp))).tail p

/-! ### Searches gone wrong -/

theorem isString_of_ofChar? {c : Char} {q : Quote} (hc : c ≠ backtick)
    (h : Quote.ofChar? c = some q) : q.IsString := by
  rintro rfl
  exact hc (Quote.ofChar?_eq_some_iff.1 h)

/-- Whether every search in less than `n` characters comes upon something shifted. -/
def FindsBelow (n : Nat) : Prop :=
  ∀ {u place}, u.length < n → Tail u → FindsShifted (seek place u)

/-- A search passes by a backtick in a comment, and all that belongs to it. -/
theorem findsShifted_of_backtick {k : Comment} {body t : Text} (ih : FindsBelow (t.length + 1))
    (h : Tail (backtick :: t)) : FindsShifted (seek (.inside k body) (backtick :: t)) := by
  have hskip {c : Char} (hc : c = backtick ∨ c = '.') (u : Text) :
      seek (.inside k body) (c :: u) = seek (.inside k body) u := by
    have hbreak : ¬isLineBreak c := by rcases hc with rfl | rfl <;> decide
    have hstar : c ≠ '*' := by rcases hc with rfl | rfl <;> decide
    cases k with
    | block => exact seek_block_other (by simp [hstar])
    | dashes => exact seek_line_other nofun hbreak
    | hash => exact seek_line_other nofun hbreak
  rw [hskip (.inl rfl)]
  rcases h.of_backtick with hbetween | ⟨u, rfl, hu⟩
  · cases hbetween with
    | done =>
      rw [seek.eq_def]
      cases k <;> exact .unclosed _ _
    | dot hu =>
      rw [hskip (.inr rfl), hskip (.inl rfl)]
      exact ih (by simp only [List.length_cons]; omega) hu
  · rw [hskip (.inl rfl)]
    exact ih (by simp only [List.length_cons]; omega) hu

theorem findsShifted_inside {k : Comment} {body t : Text} {c : Char}
    (ih : FindsBelow (t.length + 1)) (ht : Tail t) :
    FindsShifted (seek (.inside k body) (c :: t)) := by
  have iht {place : Place} : FindsShifted (seek place t) := ih (Nat.lt_succ_self _) ht
  by_cases hk : k = .block
  · subst hk
    by_cases hend : c = '*' ∧ t.head? = some '/'
    · obtain ⟨rfl, hslash⟩ := hend
      obtain ⟨u, rfl⟩ := List.head?_eq_some_iff.1 hslash
      rw [seek_block_end]
      exact ih (by simp only [List.length_cons]; omega) (ht.of_char (by decide))
    · rw [seek_block_other hend]
      exact iht
  · by_cases hbreak : isLineBreak c
    · rw [seek_line_end hk hbreak]
      exact iht
    · rw [seek_line_other hk hbreak]
      exact iht

theorem findsShifted_code {t : Text} {c : Char} (ih : FindsBelow (t.length + 1))
    (hc : c ≠ backtick) (ht : Tail t) : FindsShifted (seek .code (c :: t)) := by
  have iht {place : Place} : FindsShifted (seek place t) := ih (Nat.lt_succ_self _) ht
  by_cases hdash : c = '-' ∧ opensDashes t
  · obtain ⟨rfl, hopens⟩ := hdash
    rw [seek_dash hopens]
    exact iht
  by_cases hhash : c = '#'
  · rw [hhash, seek_hash]
    exact iht
  by_cases hslash : c = '/'
  · subst hslash
    by_cases hstar : t.head? = some '*'
    · obtain ⟨u, rfl⟩ := List.head?_eq_some_iff.1 hstar
      rw [seek_block]
      exact ih (by simp only [List.length_cons]; omega) (ht.of_char (by decide))
    · rw [seek_slash hstar]
      exact iht
  cases hquote : Quote.ofChar? c with
  | some q =>
    rw [seek_quote hquote]
    exact .opened (.string (isString_of_ofChar? hc hquote) ht)
  | none =>
    rw [seek_other hdash hhash hslash hquote]
    exact iht

/-- A search within a piece opens a string in it or the name after it, unless a comment takes up
all the rest. -/
theorem Tail.findsShifted {t : Text} (h : Tail t) (place : Place) :
    FindsShifted (seek place t) := by
  -- A search may take two characters at once, so the induction is on the length.
  induction hn : t.length using Nat.strongRecOn generalizing t place with
  | ind n hind =>
    subst hn
    have ih : FindsBelow t.length := fun {u} place hlt hu => hind u.length hlt hu place rfl
    cases t with
    | nil => contradiction
    | cons c t =>
      by_cases hc : c = backtick
      · subst hc
        cases place with
        | code =>
          rw [seek_quote (q := .backtick) rfl]
          rcases h.of_backtick with hbetween | ⟨u, rfl, hu⟩
          · exact .opened (.between hbetween)
          · exact .opened (.halfPair hu)
        | inside k body => exact findsShifted_of_backtick ih h
      · cases place with
        | code => exact findsShifted_code ih hc (h.of_char hc)
        | inside k body => exact findsShifted_inside ih (h.of_char hc)

/-! ### Bodies gone wrong -/

theorem Quote.IsString.mark_ne {q : Quote} (hq : q.IsString) :
    q.mark ≠ backslash ∧ q.mark ≠ Text.backtick ∧ q.mark ≠ '.' := by
  cases q with
  | single | double => decide
  | backtick => exact (hq rfl).elim

/-- A string goes on past a backtick of the path, and all that belongs to it. -/
theorem endsShifted_of_backtick {q : Quote} (hq : q.IsString) {t : Text}
    (ih : ∀ {u : Text}, u.length < t.length → Tail u → EndsShifted (readBody q.mark true u))
    (h : Tail (backtick :: t)) : EndsShifted (readBody q.mark true t) := by
  obtain ⟨-, hbacktick, hdot⟩ := hq.mark_ne
  have hskip (u : Text) : readBody q.mark true (backtick :: u) = readBody q.mark true u :=
    readBody_cons_of_ne hbacktick.symm (by decide)
  rcases h.of_backtick with hbetween | ⟨u, rfl, hu⟩
  · cases hbetween with
    | done =>
      rw [readBody]
      exact .inside
    | dot hu =>
      rw [readBody_cons_of_ne hdot.symm (by decide), hskip]
      exact ih (by simp only [List.length_cons]; omega) hu
  · rw [hskip]
    exact ih (by simp) hu

/-- A string within a piece may end there, and never ends between two pieces. -/
theorem Tail.endsShifted_string {q : Quote} (hq : q.IsString) {t : Text} (h : Tail t) :
    EndsShifted (readBody q.mark true t) := by
  obtain ⟨hmark, hbacktick, -⟩ := hq.mark_ne
  induction hn : t.length using Nat.strongRecOn generalizing t with
  | ind n hind =>
    subst hn
    have ih {u : Text} (hlt : u.length < t.length) (hu : Tail u) :
        EndsShifted (readBody q.mark true u) := hind u.length hlt hu rfl
    -- The backtick itself may be read alone or as the second half of an escape.
    have hpast {u : Text} (hlt : u.length < t.length) (hu : Tail (backtick :: u)) :
        EndsShifted (readBody q.mark true u) :=
      endsShifted_of_backtick hq (fun hlt' hu' => ih (Nat.lt_trans hlt' hlt) hu') hu
    cases t with
    | nil => contradiction
    | cons c t =>
      by_cases hc : c = backtick
      · subst hc
        rw [readBody_cons_of_ne hbacktick.symm fun he => absurd he.2 (by decide)]
        exact hpast (by simp) h
      have ht := h.of_char hc
      by_cases hclose : c = q.mark
      · subst hclose
        by_cases htwice : t.head? = some q.mark
        · obtain ⟨u, rfl⟩ := List.head?_eq_some_iff.1 htwice
          rw [readBody_twice]
          exact ih (by simp only [List.length_cons]; omega) (ht.of_char hbacktick)
        · rw [readBody_of_head?_ne htwice]
          exact .closed ht
      by_cases hescape : c = backslash
      · subst hescape
        cases t with
        | nil => contradiction
        | cons d t =>
          rw [readBody_escaped hmark]
          by_cases hd : d = backtick
          · subst hd
            exact hpast (by simp only [List.length_cons]; omega) ht
          · exact ih (by simp only [List.length_cons]; omega) (ht.of_char hd)
      · rw [readBody_cons_of_ne hclose fun he => hescape he.2]
        exact ih (by simp) ht

/-- A name that is open half a pair off ends where a piece begins, or is open at the end of the
path. -/
theorem Tail.endsShifted_halfPair {t : Text} (h : Tail t) :
    EndsShifted (readBody backtick true (backtick :: t)) := by
  induction hn : t.length using Nat.strongRecOn generalizing t with
  | ind n ih =>
    subst hn
    by_cases htwice : t.head? = some backtick
    · obtain ⟨u, rfl⟩ := List.head?_eq_some_iff.1 htwice
      rw [readBody_twice]
      rcases h.of_backtick with hbetween | ⟨v, rfl, hv⟩
      · cases hbetween with
        | done =>
          rw [readBody]
          exact .inside
        | dot hv =>
          rw [readBody_cons_of_ne (by decide) (by decide)]
          exact ih _ (by simp only [List.length_cons]; omega) hv rfl
      · exact ih _ (by simp only [List.length_cons]; omega) hv rfl
    · rw [readBody_of_head?_ne htwice]
      exact .closed h

theorem Between.endsShifted {t : Text} (h : Between t) :
    EndsShifted (readBody backtick true t) := by
  cases h with
  | done =>
    rw [readBody]
    exact .inside
  | dot h =>
    rw [readBody_cons_of_ne (by decide) (by decide)]
    exact h.endsShifted_halfPair

/-- A backslash that takes a backtick of its piece, or the one after it, puts the reading off. -/
theorem endsShifted_of_not_pairsUp {p t : Text} (hp : ¬pairsUp p) (h : Between t) :
    EndsShifted (readBody backtick true (doubled backtick p ++ backtick :: t)) := by
  fun_induction pairsUp p with
  | case1 => simp at hp
  | case2 =>
    rw [doubled_cons_of_ne (by decide)]
    exact h.endsShifted
  | case3 d rest ih =>
    rw [doubled_cons_of_ne (by decide)]
    by_cases hd : d = backtick
    · subst hd
      exact (h.tail rest).endsShifted_halfPair
    · rw [doubled_cons_of_ne hd, List.cons_append, List.cons_append, readBody_escaped (by decide)]
      exact ih (by simpa [hd] using hp)
  | case4 c rest hc ih =>
    by_cases hquote : c = backtick
    · rw [hquote, doubled_cons_backtick, List.cons_append, List.cons_append, readBody_twice]
      exact ih hp
    · rw [doubled_cons_of_ne hquote, List.cons_append,
        readBody_cons_of_ne hquote (by simp [hc])]
      exact ih hp

/-! ### Whole readings gone wrong -/

theorem transition_quoted_ne_of_endsShifted {q : Quote} {t : Text}
    (h : EndsShifted (readBody q.mark true t))
    (hcode : ∀ rest, rest.length < t.length → Tail rest → lexer.transition none rest ≠ .ok none) :
    lexer.transition (some q) t ≠ .ok none := by
  generalize hbody : readBody q.mark true t = body at h
  cases h with
  | inside =>
    rw [transition_quoted_of_inside hbody]
    nofun
  | closed hrest =>
    rw [transition_quoted_of_closed hbody]
    exact hcode _ (length_lt_of_readBody_closed hbody) hrest
  | halfEscape =>
    rw [transition_quoted_of_halfEscape hbody]
    nofun

/-- A reading that has gone wrong within a path is not at top level when the path is over. -/
theorem Shifted.transition_ne {k : Option Quote} {t : Text} (h : Shifted k t) :
    lexer.transition k t ≠ .ok none := by
  -- Each step comes to a shorter text, and what it leaves open is shifted again.
  induction hn : t.length using Nat.strongRecOn generalizing k t with
  | ind n ih =>
    subst hn
    have hcode (rest : Text) (hlt : rest.length < t.length) (hrest : Tail rest) :
        lexer.transition none rest ≠ .ok none := ih _ hlt (.code hrest) rfl
    cases h with
    | code h =>
      have hfinds := h.findsShifted .code
      generalize hseek : seek .code t = found at hfinds
      cases hfinds with
      | opened hrest =>
        rw [transition_none_of_opened hseek]
        exact ih _ (length_lt_of_seek_opened hseek) hrest rfl
      | unclosed k body =>
        rw [transition_none_of_unclosed hseek]
        nofun
    | string hq h => exact transition_quoted_ne_of_endsShifted (h.endsShifted_string hq) hcode
    | between h => exact transition_quoted_ne_of_endsShifted (q := .backtick) h.endsShifted hcode
    | halfPair h =>
      exact transition_quoted_ne_of_endsShifted (q := .backtick) h.endsShifted_halfPair hcode

/-! ### Names as a whole -/

theorem transition_close {b : Text} (h : lexer.transition (some .backtick) b = .ok (some .backtick)) :
    lexer.transition (some .backtick) (b ++ [backtick]) = .ok none := by
  have hclosed : lexer.transition (some .backtick) [backtick] = .ok none := by
    have hbody : readBody backtick true [backtick] = .closed [] := rfl
    rw [transition_quoted_of_closed (q := .backtick) hbody, Lexer.transition_nil]
  have hboth := transition_append (b := [backtick]) h (by simp)
  rw [hclosed] at hboth
  exact hboth.eq_ok

/-- A path closes with its last backtick exactly if the backslashes of every piece find their
partners there. -/
theorem transition_inner_close_iff {parts : List Text} (hne : parts ≠ []) :
    lexer.transition (some .backtick) (inner parts ++ [backtick]) = .ok none ↔
      ∀ p ∈ parts, pairsUp p := by
  constructor
  · intro h
    induction parts with
    | nil => contradiction
    | cons p parts ih =>
      by_cases hp : pairsUp p
      · cases parts with
        | nil => simpa using hp
        | cons p' parts =>
          rw [inner_cons_cons, List.append_assoc, List.cons_append, List.cons_append,
            List.cons_append, transition_piece hp] at h
          simpa [hp] using ih (by simp) h
      · -- One broken piece is enough, whatever comes after it.
        have hbetween : ∃ t, inner (p :: parts) ++ [backtick] =
            doubled backtick p ++ backtick :: t ∧ Between t := by
          cases parts with
          | nil => exact ⟨[], by rw [inner_singleton], .done⟩
          | cons p' parts =>
            refine ⟨'.' :: backtick :: (inner (p' :: parts) ++ [backtick]), ?_,
              .dot (tail_inner (by simp))⟩
            rw [inner_cons_cons, List.append_assoc]
            rfl
        obtain ⟨t, ht, hbetween⟩ := hbetween
        rw [ht] at h
        exact absurd h (transition_quoted_ne_of_endsShifted (q := .backtick)
          (endsShifted_of_not_pairsUp hp hbetween) fun rest _ hrest =>
            (Shifted.code hrest).transition_ne)
  · exact fun h => transition_close (transition_inner hne h)

/-- A name is quoted and spliced whatever it holds.  It is read as a whole, between its own
backticks and inside an open one, exactly if the backslashes of each of its pieces find their
partners there. -/
theorem closes_iff_pairsUp (surroundings : Surroundings) (options : Options) (t : Text)
    (face : Face) :
    ∃ b, grammar.escapeId surroundings.trust options.forbidQualified (.text t face) =
        .ok (between backtick b) ∧
      grammar.splice surroundings options [backtick] (.text t face) = .ok b ∧
      (lexer.transition none (between backtick b) = .ok none ↔
        ∀ p ∈ parts (!options.forbidQualified) (face.plain t), pairsUp p) ∧
      (lexer.transition (some .backtick) b = .ok (some .backtick) ↔
        ∀ p ∈ parts (!options.forbidQualified) (face.plain t), pairsUp p) ∧
      (lexer.transition (some .backtick) (b ++ [backtick]) = .ok none ↔
        ∀ p ∈ parts (!options.forbidQualified) (face.plain t), pairsUp p) := by
  have hne := parts_ne_nil (!options.forbidQualified) (face.plain t)
  have hclose := transition_inner_close_iff hne
  refine ⟨_, escape_text .., splice_text .., ?_, ⟨fun h => hclose.1 ?_, transition_inner hne⟩,
    hclose⟩
  · rw [← hclose, between, transition_none_of_opened (seek_quote (q := .backtick) rfl)]
  · exact transition_close h

/-- The name that is one backslash takes the backtick that should close it. -/
theorem closes_not_of_backslash :
    ∃ quoted b, grammar.escapeId defaultMinter.policy false (.ofText [backslash]) = .ok quoted ∧
      grammar.splice ⟨defaultMinter.policy, .zero⟩ .default [backtick] (.ofText [backslash]) =
        .ok b ∧
      lexer.transition none quoted = .ok (some .backtick) ∧
      lexer.transition (some .backtick) b = .error (.halfEscape [backtick] [backslash]) := by
  refine ⟨[backtick, backslash, backtick], [backslash], rfl, rfl, ?_, ?_⟩
  · have hbody : readBody backtick true [backslash, backtick] = .inside := rfl
    rw [transition_none_of_opened (seek_quote (q := .backtick) rfl),
      transition_quoted_of_inside (q := .backtick) hbody]
  · have hbody : readBody backtick true [backslash] = .halfEscape := rfl
    exact transition_quoted_of_halfEscape (q := .backtick) hbody

end SqlWeave.MySQL
