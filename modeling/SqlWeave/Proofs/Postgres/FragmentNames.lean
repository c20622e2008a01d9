/-
SqlWeave/Proofs/Postgres/FragmentNames.lean

Trusted identifiers inside an open one.  A trusted fragment that is made of quoted identifiers is
put into an open identifier as it stands, but for its first opener and its last quote.  Nobody asks
which opener that was: the first identifier of the fragment goes on behind the opener of the slot,
and if one of the two is plain and the other has code points, it is read by the wrong rule.

The two rules differ in the backslash alone.  A name that is read by both never comes out the same
if a backslash is in it: an escape is longer than the character that it stands for, and without
escapes the backslash and its digits all stand for themselves.

Main results: an identifier that is read by both rules and names the same holds no backslash
(`eq_and_not_mem_of_nameOf_eq`), and so a trusted fragment keeps its names in the slot exactly if
its first identifier is of the slot's kind or holds none (`fragment_keeps_names_iff`).
-/
import SqlWeave.Proofs.NamesReadBack
import SqlWeave.Proofs.Postgres.Names

namespace SqlWeave.Postgres

open Text

/-! ### The names of a text -/

/-- The quoted identifier that a text begins with, in its quotes, and what follows it. -/
def quotedPart? (text : Text) : Option (Text × Text) :=
  (namePart? text).map fun rest => (text.take (text.length - rest.length), rest)

/-- The name that a quoted identifier stands for, unless there is a backslash in it that is no
escape. -/
def nameOf (part : Text) : Option Text := (readName? part).map Prod.fst

/-- The names of the quoted identifiers with dots between them that a text is made of. -/
def names? (text : Text) : Option (List (Option Text)) :=
  (readPath quotedPart? text).map (List.map nameOf)

/-- Whether a text in an open identifier, with the quote that closes it, is complete, and has the
names of the identifiers in `content`. -/
structure KeepsNames (q : Quote) (content t : Text) : Prop where
  closes : lexer.transition none (q.opener ++ (t ++ [quotation])) = .ok none
  names : names? (q.opener ++ (t ++ [quotation])) = names? content

/-! ### Bodies of identifiers -/

/-- What stands behind the opener of an identifier, the closing quote included.  It takes a
character for a name. -/
structure IsClosedBody (q : Quote) (body : Text) : Prop where
  isName : q.isName
  closed : readBody quotation q.escapes body = .closed []
  length : 1 < body.length

theorem mark_of_isName {q : Quote} (hq : q.isName) : q.mark = quotation := by
  rw [Quote.mark, if_pos hq]

theorem eq_of_isName {q : Quote} (hq : q.isName) : q = .name ∨ ∃ upper, q = .unicodeName upper := by
  cases q with
  | name => exact .inl rfl
  | unicodeName upper => exact .inr ⟨upper, rfl⟩
  | string | escape upper | bits upper | hex upper | unicode upper => contradiction

theorem after_of_isName {q : Quote} (hq : q.isName) : q.after = none := by
  obtain ⟨unicode, hplace⟩ := exists_place_eq hq
  exact (mark_of_place hplace).2.2

section

variable {q q' : Quote} {body more rest text t u : Text}

theorem opener_append_inj (h : q.opener ++ t = q'.opener ++ u) : q = q' ∧ t = u := by
  have hread := Quote.opened?_opener q t
  rw [h, Quote.opened?_opener] at hread
  obtain ⟨rfl, rfl⟩ := Prod.mk.inj (Option.some.inj hread)
  exact ⟨rfl, rfl⟩

theorem afterPart?_eq_some_iff {mark : Char} {escapes : Bool} :
    Name.afterPart? mark escapes text = some rest ↔ ∃ body, text = body ++ rest ∧
      readBody mark escapes body = .closed [] ∧ 1 < body.length ∧ rest.head? ≠ some mark := by
  constructor
  · intro h
    unfold Name.afterPart? at h
    split at h
    · rename_i u hclosed
      split at h
      · rename_i hlength
        obtain rfl := Option.some.inj h
        obtain ⟨body, rfl, hbody, hrest⟩ := exists_of_readBody_closed hclosed
        rw [List.length_append] at hlength
        exact ⟨body, rfl, hbody, by omega, hrest⟩
      · contradiction
    · contradiction
  · rintro ⟨body, rfl, hclosed, hlength, hrest⟩
    simp only [Name.afterPart?, readBody_append_of_closed hclosed fun _ => hrest,
      List.nil_append, List.length_append]
    rw [if_pos (by omega)]

theorem namePart?_eq_some_iff :
    namePart? text = some rest ↔ ∃ q body, text = q.opener ++ (body ++ rest) ∧
      IsClosedBody q body ∧ rest.head? ≠ some quotation := by
  constructor
  · intro h
    unfold namePart? at h
    split at h
    · rename_i q t hopened
      split at h
      · rename_i hname
        rw [mark_of_isName hname] at h
        obtain ⟨body, rfl, hclosed, hlength, hrest⟩ := afterPart?_eq_some_iff.1 h
        exact ⟨q, body, Quote.opened?_eq_some_iff.1 hopened, ⟨hname, hclosed, hlength⟩, hrest⟩
      · contradiction
    · contradiction
  · rintro ⟨q, body, rfl, ⟨hname, hclosed, hlength⟩, hrest⟩
    rw [namePart?, Quote.opened?_opener]
    simp only [hname, if_true, mark_of_isName hname]
    exact afterPart?_eq_some_iff.2 ⟨body, rfl, hclosed, hlength, hrest⟩

theorem quotedPart?_eq_some_iff {part : Text} :
    quotedPart? text = some (part, rest) ↔ ∃ q body, part = q.opener ++ body ∧
      text = q.opener ++ (body ++ rest) ∧ IsClosedBody q body ∧ rest.head? ≠ some quotation := by
  have htake (a b : Text) : (a ++ b).take ((a ++ b).length - b.length) = a := by simp
  constructor
  · intro h
    obtain ⟨u, hu, he⟩ := Option.map_eq_some_iff.1 h
    obtain ⟨rfl, rfl⟩ := Prod.mk.inj he
    obtain ⟨q, body, rfl, hbody⟩ := namePart?_eq_some_iff.1 hu
    exact ⟨q, body, by rw [← List.append_assoc, htake], rfl, hbody⟩
  · rintro ⟨q, body, rfl, rfl, hbody⟩
    rw [quotedPart?, namePart?_eq_some_iff.2 ⟨q, body, rfl, hbody⟩, Option.map_some,
      ← List.append_assoc, htake]

/-- At top level an identifier is passed by. -/
theorem IsClosedBody.transition (h : IsClosedBody q body) (hmore : more.head? ≠ some quotation) :
    lexer.transition none (q.opener ++ (body ++ more)) = lexer.transition none more := by
  have hread := readBody_append_of_closed h.closed fun _ => hmore
  rw [← mark_of_isName h.isName] at hread
  have hopened := transition_none_of_opened (opened?_opener (s := .quoted q) trivial (body ++ more))
  exact hopened.trans (by rw [transition_quoted_of_closed hread, after_of_isName h.isName]; rfl)

end

/-! ### Paths of identifiers -/

/-- Quoted identifiers, each with a dot in front. -/
inductive Dotted : Text → List Text → Prop
  | nil : Dotted [] []
  | cons {q : Quote} {body more : Text} {parts : List Text} (h : IsClosedBody q body)
      (hmore : Dotted more parts) :
      Dotted ('.' :: (q.opener ++ (body ++ more))) ((q.opener ++ body) :: parts)

namespace Dotted

variable {q : Quote} {body more t text : Text} {parts : List Text}

theorem head?_ne (h : Dotted t parts) : t.head? ≠ some quotation := by
  cases h with
  | nil => simp
  | cons => simp; decide

/-- The lexer finds nothing in them that is left open. -/
theorem transition (h : Dotted t parts) : lexer.transition none t = .ok none := by
  induction h with
  | nil => exact Lexer.transition_nil _ _
  | cons h hmore ih =>
    rw [transition_none_of_idle (by decide), h.transition hmore.head?_ne, ih]

/-- They end in the quote of the last one. -/
theorem exists_eq_concat (h : IsClosedBody q body) (hmore : Dotted more parts) :
    ∃ front, body ++ more = front ++ [quotation] := by
  induction hmore generalizing q body with
  | nil =>
    obtain ⟨front, rfl⟩ := readBody_closed_eq h.closed
    exact ⟨front, by simp⟩
  | @cons q' body' more' parts' h' hmore ih =>
    obtain ⟨front, hfront⟩ := ih h'
    exact ⟨body ++ '.' :: (q'.opener ++ front), by simp [hfront]⟩

theorem of_readPath (h : readPath quotedPart? text = some parts) : Dotted ('.' :: text) parts := by
  fun_induction readPath quotedPart? text generalizing parts with
  | case1 => contradiction
  | case2 text part hpart =>
    obtain ⟨q, body, rfl, rfl, hbody, -⟩ := quotedPart?_eq_some_iff.1 hpart
    obtain rfl := Option.some.inj h
    exact .cons hbody .nil
  | case3 text part rest hlength hpart ih =>
    obtain ⟨q, body, rfl, rfl, hbody, -⟩ := quotedPart?_eq_some_iff.1 hpart
    obtain ⟨parts', hparts, rfl⟩ := Option.map_eq_some_iff.1 h
    exact .cons hbody (ih hparts)
  | case4 => contradiction
  | case5 => contradiction

theorem readPath_eq (h : Dotted t parts) (ht : t = '.' :: text) :
    readPath quotedPart? text = some parts := by
  induction h generalizing text with
  | nil => contradiction
  | @cons q body more parts h hmore ih =>
    obtain ⟨-, rfl⟩ := List.cons.inj ht
    rw [readPath, quotedPart?_eq_some_iff.2 ⟨q, body, rfl, rfl, h, hmore.head?_ne⟩]
    cases hmore with
    | nil => rfl
    | cons =>
      simp [ih rfl]
      omega

theorem exists_of_isPath (h : Name.isPath namePart? text) :
    ∃ parts, Dotted ('.' :: text) parts := by
  fun_induction Name.isPath namePart? text with
  | case1 => contradiction
  | case2 text hpart =>
    obtain ⟨q, body, rfl, hbody, -⟩ := namePart?_eq_some_iff.1 hpart
    exact ⟨_, .cons hbody .nil⟩
  | case3 text c rest hpart ih =>
    obtain ⟨q, body, rfl, hbody, -⟩ := namePart?_eq_some_iff.1 hpart
    simp only [Bool.and_eq_true, decide_eq_true_eq] at h
    obtain ⟨rfl, hpath⟩ := h
    split at hpath
    · rename_i hlength
      obtain ⟨parts, hparts⟩ := ih hlength hpath
      exact ⟨_, .cons hbody hparts⟩
    · contradiction

theorem exists_of_isQuoted {unicode qualified : Bool}
    (h : (nameStyle unicode).isQuoted qualified text) : ∃ parts, Dotted ('.' :: text) parts := by
  unfold NameStyle.isQuoted at h
  split at h
  · exact exists_of_isPath h
  · obtain ⟨q, body, rfl, hbody, -⟩ := namePart?_eq_some_iff.1 (of_decide_eq_true h)
    exact ⟨_, .cons hbody .nil⟩

end Dotted

/-! ### One body, two rules -/

/-- Whether the body `t`, up to `rest`, is read without escapes as no shorter a text than `x`, and as
a longer one if there is a backslash in it. -/
def Outgrows (t x rest : Text) : Prop :=
  ∃ front y, t = front ++ rest ∧ decode quotation .noEscapes t = some (y, rest) ∧
    x.length ≤ y.length ∧ (backslash ∈ front → x.length < y.length)

namespace Outgrows

variable {t x rest u : Text}

theorem nil (h : decode quotation .noEscapes rest = some ([], rest)) : Outgrows rest [] rest :=
  ⟨[], [], rfl, h, le_rfl, by simp⟩

/-- A piece without a backslash stands for the same under both rules. -/
theorem append {v : Text} (h : Outgrows t x rest) (hu : Stands quotation .noEscapes u v)
    (hmem : backslash ∉ u) : Outgrows (u ++ t) (v ++ x) rest := by
  obtain ⟨front, y, rfl, hplain, hle, hlt⟩ := h
  refine ⟨u ++ front, v ++ y, by simp, ?_, by simpa using hle, fun hmem' => ?_⟩
  · rw [hu, hplain]
    rfl
  · rcases List.mem_append.1 hmem' with hmem' | hmem'
    · exact absurd hmem' hmem
    · simpa using hlt hmem'

/-- The backslash and its four digits are five characters, and the escape stands for one. -/
theorem escape {meant : Text} (h : Outgrows t x rest)
    (hread : readCodePoint u = some (meant, t)) :
    Outgrows (backslash :: u) (meant ++ x) rest := by
  obtain ⟨digits, rfl, hdigits, hlength, hmeant⟩ := readCodePoint_eq_some hread
  obtain ⟨front, y, rfl, hplain, hle, -⟩ := h
  have hlt : (meant ++ x).length < (backslash :: (digits ++ y)).length := by
    simp only [List.length_append, List.length_cons]
    omega
  refine ⟨backslash :: (digits ++ front), _, by simp, ?_, Nat.le_of_lt hlt, fun _ => hlt⟩
  rw [decode_escaped (by decide) rfl, stands_of_isAlphanum (by decide) hdigits, hplain]
  rfl

end Outgrows

/-- Where a body is read by code points, it is read without escapes to the same end, and as a
longer text if there is a backslash in it. -/
theorem outgrows_of_decode {t x rest : Text} (h : decode quotation codePoints t = some (x, rest)) :
    Outgrows t x rest := by
  fun_induction decode quotation codePoints t generalizing x rest with
  | case1 =>
    obtain ⟨rfl, rfl⟩ : [] = x ∧ [] = rest := by simpa using h
    exact .nil decode_nil
  | case2 =>
    obtain ⟨rfl, rfl⟩ : [] = x ∧ [quotation] = rest := by simpa using h
    exact .nil (decode_lone (by simp))
  | case3 t ih =>
    obtain ⟨x, rfl, hread⟩ := exists_of_map_prepend_eq_some h
    exact (ih hread).append .twice (by decide)
  | case4 d t hd =>
    obtain ⟨rfl, rfl⟩ : [] = x ∧ quotation :: d :: t = rest := by simpa using h
    exact .nil (decode_lone (by simpa using hd))
  | case5 => contradiction
  | case6 t meant t' hescape hm ih =>
    obtain ⟨x, rfl, hread⟩ := exists_of_map_prepend_eq_some h
    exact (ih hread).escape hescape
  | case7 c t hm hb ih =>
    obtain ⟨x, rfl, hread⟩ := exists_of_map_prepend_eq_some h
    exact (ih hread).append (.single hm hb) (by simpa using Ne.symm hb)

/-! ### The name behind another opener -/

section

variable {q q' : Quote} {body body' more more' x rest : Text}

/-- The reader of names stops where the lexer does. -/
theorem readBody_of_decode_name (hq : q.isName)
    (h : decode quotation q.rule body = some (x, rest)) :
    readBody quotation q.escapes body = endOf rest := by
  refine readBody_of_decode ?_ h
  intro text meant rest' hread
  rcases eq_of_isName hq with rfl | ⟨upper, rfl⟩
  · obtain ⟨-, rfl⟩ := Prod.mk.inj (Option.some.inj hread)
    exact readBody_cons_of_ne (by decide) (by simp [Quote.escapes])
  · exact readBody_of_takes (.inr rfl) (takes_of_readCodePoint hread)

namespace IsClosedBody

theorem nameOf_eq (h : IsClosedBody q body) :
    nameOf (q.opener ++ body) = (decode quotation q.rule body).map Prod.fst := by
  rw [nameOf, readName?, Quote.opened?_opener]
  simp only [h.isName, if_true, mark_of_isName h.isName]
  cases hread : decode quotation q.rule body with
  | none => rfl
  | some read =>
    obtain ⟨x, rest⟩ := read
    have hend := h.closed.symm.trans (readBody_of_decode_name h.isName hread)
    cases rest with
    | nil => contradiction
    | cons c rest => rfl

/-- Behind an opener of the same kind, and behind any if there is no backslash, a body is closed at
the same place and stands for the same name. -/
theorem behind (h : IsClosedBody q body) (hq' : q'.isName)
    (hsame : q.folded = q'.folded ∨ backslash ∉ body) :
    IsClosedBody q' body ∧ nameOf (q'.opener ++ body) = nameOf (q.opener ++ body) := by
  have hread : readBody quotation q'.escapes body = readBody quotation q.escapes body ∧
      decode quotation q'.rule body = decode quotation q.rule body := by
    rcases hsame with hfolded | hmem
    · rw [← q'.escapes_folded, ← q'.rule_folded, ← hfolded, q.escapes_folded, q.rule_folded]
      exact ⟨rfl, rfl⟩
    · exact ⟨readBody_eq_of_not_mem hmem, decode_eq_of_not_mem hmem⟩
  have h' : IsClosedBody q' body := ⟨hq', hread.1.trans h.closed, h.length⟩
  exact ⟨h', by rw [h'.nameOf_eq, h.nameOf_eq, hread.2]⟩

end IsClosedBody

/-- Two bodies that are closed in the same text are one. -/
theorem eq_of_closed {escapes : Bool} (h : readBody quotation escapes body = .closed [])
    (h' : readBody quotation escapes body' = .closed []) (htext : body ++ more = body' ++ more')
    (hmore : more.head? ≠ some quotation) (hmore' : more'.head? ≠ some quotation) :
    body = body' := by
  have hread := readBody_append_of_closed h fun _ => hmore
  rw [htext, readBody_append_of_closed h' fun _ => hmore'] at hread
  obtain rfl : more' = more := by simpa using hread
  exact List.append_cancel_right htext

/-- A plain identifier and one with code points, read from the same text, name the same only if
they hold the same, and no backslash. -/
theorem eq_and_not_mem_of_nameOf_eq {upper : Bool} (h : IsClosedBody .name body)
    (h' : IsClosedBody (.unicodeName upper) body') (htext : body ++ more = body' ++ more')
    (hmore : more.head? ≠ some quotation) (hmore' : more'.head? ≠ some quotation)
    (hname : nameOf (Quote.name.opener ++ body) =
      nameOf ((Quote.unicodeName upper).opener ++ body')) :
    body = body' ∧ backslash ∉ body := by
  rw [h.nameOf_eq, h'.nameOf_eq] at hname
  obtain ⟨⟨x, rest⟩, hplain⟩ : ∃ read, decode quotation Quote.name.rule body = some read :=
    exists_decode_noEscapes quotation body
  rw [hplain, Option.map_some, eq_comm] at hname
  obtain ⟨⟨x', rest'⟩, hcodes, rfl⟩ := Option.map_eq_some_iff.1 hname
  have hend := h'.closed.symm.trans (readBody_of_decode_name h'.isName hcodes)
  obtain ⟨front, y, hfront, hplain', -, hlt⟩ := outgrows_of_decode hcodes
  -- Read without escapes, the body with code points is closed at the same place.
  have hclosed := (readBody_of_decode_name h.isName hplain').trans hend.symm
  obtain rfl := eq_of_closed h.closed hclosed htext hmore hmore'
  obtain ⟨rfl, rfl⟩ := Prod.mk.inj (Option.some.inj (hplain.symm.trans hplain'))
  refine ⟨rfl, fun hmem => ?_⟩
  obtain ⟨inner, hinner⟩ := readBody_closed_eq h.closed
  cases rest with
  | nil => contradiction
  | cons c rest =>
    obtain rfl : rest = [] := by simpa [endOf] using hend.symm
    obtain ⟨-, hc⟩ := List.append_inj' (hfront.symm.trans hinner) rfl
    rw [hfront, hc] at hmem
    have hmem' : backslash ∈ front := by simpa [quotation, backslash] using hmem
    exact Nat.lt_irrefl _ (hlt hmem')

/-- A path of identifiers keeps its names behind the opener of `q'` exactly if its first identifier
is of that kind or holds no backslash. -/
theorem names?_behind_iff {parts : List Text} (h : IsClosedBody q body) (hmore : Dotted more parts)
    (hq' : q'.isName) :
    (lexer.transition none (q'.opener ++ (body ++ more)) = .ok none ∧
        names? (q'.opener ++ (body ++ more)) = names? (q.opener ++ (body ++ more))) ↔
      q.folded = q'.folded ∨ backslash ∉ body := by
  have hnames {q : Quote} {body : Text} (h : IsClosedBody q body) :
      names? (q.opener ++ (body ++ more)) =
        some (nameOf (q.opener ++ body) :: parts.map nameOf) := by
    rw [names?, (Dotted.cons h hmore).readPath_eq rfl]
    rfl
  constructor
  · rintro ⟨-, hsame⟩
    rw [hnames h, names?] at hsame
    obtain ⟨parts', hparts', hsame⟩ := Option.map_eq_some_iff.1 hsame
    have hdotted := Dotted.of_readPath hparts'
    generalize htext : '.' :: (q'.opener ++ (body ++ more)) = text at hdotted
    cases hdotted with
    | nil => contradiction
    | @cons q'' body' more' _ h' hmore' =>
      obtain ⟨rfl, hbody⟩ := opener_append_inj (List.cons.inj htext).2
      have hname := (List.cons.inj hsame).1
      have hhead := hmore.head?_ne
      have hhead' := hmore'.head?_ne
      rcases eq_of_isName h.isName with rfl | ⟨upper, rfl⟩
      · rcases eq_of_isName hq' with rfl | ⟨upper', rfl⟩
        · exact .inl rfl
        · exact .inr (eq_and_not_mem_of_nameOf_eq h h' hbody hhead hhead' hname.symm).2
      · rcases eq_of_isName hq' with rfl | ⟨upper', rfl⟩
        · obtain ⟨rfl, hmem⟩ := eq_and_not_mem_of_nameOf_eq h' h hbody.symm hhead' hhead hname
          exact .inr hmem
        · exact .inl rfl
  · intro hsame
    obtain ⟨h', hname⟩ := h.behind hq' hsame
    rw [hnames h', hnames h, hname]
    refine ⟨?_, rfl⟩
    rw [h'.transition hmore.head?_ne, hmore.transition]

end

/-! ### Trusted fragments -/

variable {surroundings : Surroundings} {options : Options} {q : Quote} {f : Fragment}

/-- Behind the opener of the slot, and with its quote, stands what follows the first opener of an
identifier. -/
theorem opener_append_unquoted {q' : Quote} {t : Text} (hq' : q'.isName)
    (ht : ∃ front, t = front ++ [quotation]) :
    q.opener ++ (unquoted (q'.opener ++ t) ++ [quotation]) = q.opener ++ t := by
  obtain ⟨front, rfl⟩ := ht
  simp [unquoted, Quote.opened?_opener, hq']

theorem isQuoted_of_escape {style : NameStyle} {trust : TrustPolicy} {forbidQualified : Bool}
    {t : Text} (hf : trust.trustsFragment f)
    (h : style.escape trust forbidQualified (.fragment f) = .ok t) :
    style.isQuoted (!forbidQualified) f.content ∧ t = f.content := by
  simp only [NameStyle.escape, Series.flat, NameStyle.escapeOne, hf, if_true] at h
  split at h
  · rename_i hquoted
    exact ⟨hquoted, (Except.ok.inj h).symm⟩
  · contradiction

/-- A trusted fragment of quoted identifiers is taken into every open identifier.  It is complete
there and keeps its names exactly if its first identifier is of the kind of the open one, or holds
no backslash. -/
theorem fragment_keeps_names_iff {t : Text} (hq : q.isName)
    (hf : surroundings.trust.trustsFragment f)
    (haccepted : (nameStyle q.escapes).escape surroundings.trust options.forbidQualified
      (.fragment f) = .ok t) :
    ∃ (first : Quote) (body : Text) (others : List Text) (b : Text),
      splice surroundings options q.opener (.fragment f) = .ok b ∧
      readPath quotedPart? f.content = some ((first.opener ++ body) :: others) ∧
      (KeepsNames q f.content b ↔ first.folded = q.folded ∨ backslash ∉ body) := by
  obtain ⟨unicode, hplace⟩ := exists_place_eq hq
  obtain ⟨-, hescapes, -⟩ := mark_of_place hplace
  rw [hescapes] at haccepted
  obtain ⟨hquoted, rfl⟩ := isQuoted_of_escape hf haccepted
  obtain ⟨parts, hparts⟩ := Dotted.exists_of_isQuoted hquoted
  have hpath := hparts.readPath_eq rfl
  generalize hcontent : f.content = content at *
  cases hparts with
  | @cons first body more others hbody hmore =>
    refine ⟨first, body, others, _, by rw [splice_name hplace, haccepted]; rfl, hpath, ?_⟩
    have hwrapped := opener_append_unquoted (q := q) hbody.isName
      (Dotted.exists_eq_concat hbody hmore)
    rw [← names?_behind_iff hbody hmore hq, ← hwrapped]
    exact ⟨fun h => ⟨h.closes, h.names⟩, fun h => ⟨h.1, h.2⟩⟩

/-- A plain identifier with a doubled quote, behind the opener of one with code points; the escape
in the second identifier is decoded. -/
theorem fragment_keeps_names_behind_code_points :
    let env : Surroundings := ⟨defaultMinter.policy, .zero⟩
    let f := defaultMinter.mint "\"a\"\"b\".U&\"\\0041\"".toList
    let b := "a\"\"b\".U&\"\\0041".toList
    let q : Quote := .unicodeName true
    q.isName ∧ env.trust.trustsFragment f ∧
      (nameStyle q.escapes).escape env.trust Options.default.forbidQualified (.fragment f) =
        .ok f.content ∧
      splice env .default q.opener (.fragment f) = .ok b ∧ KeepsNames q f.content b ∧
      names? f.content = some [some ['a', quotation, 'b'], some ['A']] := by
  intro env f b q
  have hq : q.isName := by decide
  have hf : env.trust.trustsFragment f := by decide
  have haccepted : (nameStyle q.escapes).escape env.trust Options.default.forbidQualified
      (.fragment f) = .ok f.content := by cbv
  have hb : splice env .default q.opener (.fragment f) = .ok b := by cbv
  have hparts : readPath quotedPart? f.content =
      some [Quote.name.opener ++ ['a', quotation, quotation, 'b', quotation],
        "U&\"\\0041\"".toList] := by cbv
  have hnames : names? f.content = some [some ['a', quotation, 'b'], some ['A']] := by cbv
  obtain ⟨first, body, others, b', hb', hpath, hkeeps⟩ := fragment_keeps_names_iff hq hf haccepted
  obtain rfl : b = b' := Except.ok.inj (hb.symm.trans hb')
  obtain ⟨hfirst, -⟩ := List.cons.inj (Option.some.inj (hparts.symm.trans hpath))
  obtain ⟨rfl, rfl⟩ := opener_append_inj hfirst
  exact ⟨hq, hf, haccepted, hb, hkeeps.2 (.inr (by decide)), hnames⟩

/-- Behind the opener of the other kind a backslash takes the closing quote, or the digits of a code
point become the name. -/
theorem fragment_loses_names :
    let env : Surroundings := ⟨defaultMinter.policy, .zero⟩
    let plain := defaultMinter.mint [quotation, 'a', backslash, quotation]
    let coded := defaultMinter.mint "U&\"\\0041\"".toList
    let digits := "\\0041".toList
    env.trust.trustsFragment plain ∧ env.trust.trustsFragment coded ∧
      (nameStyle true).escape env.trust false (.fragment plain) = .ok plain.content ∧
      splice env .default (Quote.unicodeName true).opener (.fragment plain) =
        .ok ['a', backslash] ∧
      lexer.transition none ((Quote.unicodeName true).opener ++ (['a', backslash] ++ [quotation])) =
        .ok (some (.quoted (.unicodeName true))) ∧
      ¬KeepsNames (.unicodeName true) plain.content ['a', backslash] ∧
      (nameStyle false).escape env.trust false (.fragment coded) = .ok coded.content ∧
      splice env .default Quote.name.opener (.fragment coded) = .ok digits ∧
      names? coded.content = some [some ['A']] ∧
      names? (Quote.name.opener ++ (digits ++ [quotation])) = some [some digits] ∧
      ¬KeepsNames .name coded.content digits := by
  intro env plain coded digits
  have hopen : lexer.transition none
      ((Quote.unicodeName true).opener ++ (['a', backslash] ++ [quotation])) =
        .ok (some (.quoted (.unicodeName true))) := by cbv
  have hcoded : names? coded.content = some [some ['A']] := by cbv
  have hdigits : names? (Quote.name.opener ++ (digits ++ [quotation])) = some [some digits] := by
    cbv
  refine ⟨by decide, by decide, by cbv, by cbv, hopen, fun h => ?_, by cbv, by cbv, hcoded, hdigits,
    fun h => ?_⟩
  · have hclosed := h.closes
    rw [hopen] at hclosed
    simp at hclosed
  · have hsame := h.names
    rw [hcoded, hdigits] at hsame
    have hne : digits ≠ ['A'] := by decide
    simp [hne] at hsame

end SqlWeave.Postgres
