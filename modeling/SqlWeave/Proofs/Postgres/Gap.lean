/-
SqlWeave/Proofs/Postgres/Gap.lean

The gap between two strings that Postgres joins, as a grammar: blanks, line breaks and line
comments with the line breaks that end them.

Main results: the check finds every gap that one chunk holds (`continues_of_isGap`,
`afterGap?_of_isGap`); a cut through a gap leaves a gap, an open comment or half an opener
(`IsGap.of_append`); no gap with a line break goes on into the text of a value
(`Halts.not_isLineBreak`).
-/
import SqlWeave.Proofs.Beginnings
import SqlWeave.Proofs.Postgres.Continuation
import SqlWeave.Proofs.Postgres.LongestGap
import SqlWeave.Proofs.Postgres.Standing

namespace SqlWeave.Postgres

open Text

/-! ### Gaps -/

/-- Blanks, line breaks and line comments.  A comment has to end in the gap. -/
inductive IsGap : Text → Prop
  | nil : IsGap []
  | blank {c : Char} {t : Text} (hc : isGapBlank c ∨ isLineBreak c) (h : IsGap t) : IsGap (c :: t)
  | comment {body t : Text} {c : Char} (hbody : ∀ d ∈ body, isLineBreak d = false)
      (hc : isLineBreak c) (h : IsGap t) : IsGap ('-' :: '-' :: (body ++ c :: t))

/-- Whether a string just before the text is joined to another one. -/
def Continues (text : Text) : Prop :=
  ∃ gap rest, text = gap ++ apostrophe :: rest ∧ IsGap gap ∧ ∃ c ∈ gap, isLineBreak c

theorem not_isLineBreak_of_isGapBlank {c : Char} (hc : isGapBlank c) : ¬isLineBreak c := by
  simp only [isGapBlank, Bool.or_eq_true, decide_eq_true_eq] at hc
  rcases hc with (rfl | rfl) | rfl <;> decide

theorem IsGap.of_forall {t : Text} (h : ∀ c ∈ t, isGapBlank c) : IsGap t := by
  induction t with
  | nil => exact .nil
  | cons c t ih => exact .blank (.inl (h c (by simp))) (ih fun d hd => h d (by simp [hd]))

theorem IsGap.append {a b : Text} (ha : IsGap a) (hb : IsGap b) : IsGap (a ++ b) := by
  induction ha with
  | nil => exact hb
  | blank hc h ih => exact .blank hc ih
  | comment hbody hc h ih =>
    rw [List.cons_append, List.cons_append, List.append_assoc]
    exact .comment hbody hc ih

theorem IsGap.of_cons_blank {c : Char} {t : Text} (hc : c ≠ '-') (h : IsGap (c :: t)) :
    IsGap t := by
  cases h with
  | blank _ h => exact h
  | comment => contradiction

/-- Without a line break there is no comment, so that only blanks are left. -/
theorem IsGap.forall_isGapBlank {t : Text} (h : IsGap t) (hbreak : ∀ c ∈ t, ¬isLineBreak c) :
    ∀ c ∈ t, isGapBlank c := by
  induction h with
  | nil => simp
  | blank hc h ih =>
    intro d hd
    rcases List.mem_cons.1 hd with rfl | hd
    · exact hc.resolve_right (hbreak d (by simp))
    · exact ih (fun c hc => hbreak c (by simp [hc])) d hd
  | @comment body t c hbody hc h ih => exact absurd hc (hbreak c (by simp))

/-- Blanks in front of a text that continues a string change nothing. -/
theorem Continues.append {a t : Text} (ha : IsGap a) (h : Continues t) : Continues (a ++ t) := by
  obtain ⟨gap, rest, rfl, hgap, c, hc, hbreak⟩ := h
  exact ⟨a ++ gap, rest, by simp, ha.append hgap, c, by simp [hc], hbreak⟩

/-! ### Gaps that are cut in two -/

/-- What a cut through a gap leaves in front of it. -/
inductive CutGap (a b : Text) : Prop
  | between (ha : IsGap a) (hb : IsGap b)
  | inComment {gap body : Text} (ha : a = gap ++ '-' :: '-' :: body) (hgap : IsGap gap)
      (hbody : ∀ c ∈ body, isLineBreak c = false)
  | inOpener (ha : a.getLast? = some '-') (hb : b.head? = some '-')

theorem CutGap.cons {a b : Text} {c : Char} (hc : isGapBlank c ∨ isLineBreak c)
    (h : CutGap a b) : CutGap (c :: a) b := by
  cases h with
  | between ha hb => exact .between (.blank hc ha) hb
  | inComment ha hgap hbody => exact .inComment (by rw [ha]; rfl) (.blank hc hgap) hbody
  | inOpener ha hb => exact .inOpener (by rw [List.getLast?_cons, ha]; rfl) hb

theorem CutGap.comment {a b body : Text} {c : Char} (hbody : ∀ d ∈ body, isLineBreak d = false)
    (hc : isLineBreak c) (h : CutGap a b) : CutGap ('-' :: '-' :: (body ++ c :: a)) b := by
  cases h with
  | between ha hb => exact .between (.comment hbody hc ha) hb
  | @inComment gap body' ha hgap hbody' =>
    have hgap' : IsGap ('-' :: '-' :: (body ++ c :: gap)) := .comment hbody hc hgap
    exact .inComment (by simp [ha]) hgap' hbody'
  | inOpener ha hb =>
    refine .inOpener ?_ hb
    rw [show '-' :: '-' :: (body ++ c :: a) = ('-' :: '-' :: (body ++ [c])) ++ a by simp,
      List.getLast?_append, ha]
    rfl

/-- A cut falls between two parts of the gap, into a comment or into the opener of one. -/
theorem IsGap.of_append {a b : Text} (h : IsGap (a ++ b)) : CutGap a b := by
  generalize htext : a ++ b = text at h
  induction h generalizing a with
  | nil =>
    obtain ⟨rfl, rfl⟩ := List.append_eq_nil_iff.1 htext
    exact .between .nil .nil
  | blank hc h ih =>
    cases a with
    | nil =>
      obtain rfl : b = _ := htext
      exact .between .nil (.blank hc h)
    | cons d a =>
      obtain ⟨rfl, ht⟩ := List.cons.inj htext
      exact (ih ht).cons hc
  | comment hbody hc h ih =>
    match a with
    | [] =>
      obtain rfl : b = _ := htext
      exact .between .nil (.comment hbody hc h)
    | [d] =>
      obtain ⟨rfl, rfl⟩ := List.cons.inj htext
      exact .inOpener rfl rfl
    | d :: e :: a =>
      obtain ⟨rfl, ht⟩ := List.cons.inj htext
      obtain ⟨rfl, hu⟩ := List.cons.inj ht
      have hnil : IsGap [] := .nil
      rcases List.append_eq_append_iff.1 hu with ⟨more, rfl, -⟩ | ⟨more, rfl, hmore⟩
      · exact .inComment (List.nil_append _).symm hnil fun d hd => hbody d (by simp [hd])
      · cases more with
        | nil => exact .inComment (by simp) hnil hbody
        | cons d more =>
          obtain ⟨rfl, hrest⟩ := List.cons.inj hmore
          exact (ih hrest.symm).comment hbody hc

/-! ### Gaps that the check finds -/

/-- In front of any text, a gap is a gap. -/
theorem IsGap.gapBefore {gap : Text} (h : IsGap gap) (rest : Text) : GapBefore rest gap := by
  induction h with
  | nil => exact .nil
  | blank hc h ih => exact .blank hc ih
  | comment hbody hc h ih => exact .comment hbody (by simpa [EndsLine] using hc) (.blank (.inr hc) ih)

/-- A gap with a line break is passed by up to what does not belong to it. -/
theorem afterGap?_of_isGap {gap : Text} (h : IsGap gap) (hbreak : ∃ c ∈ gap, isLineBreak c)
    (t : Text) : afterGap? (gap ++ t) = some (dropGap false t) := by
  have hgap := h.gapBefore t
  have hsome : (afterBreak? false (gap ++ t)).isSome :=
    hgap.isSome_afterBreak?_iff.2 (.inl hbreak)
  obtain ⟨rest, hrest⟩ := Option.isSome_iff_exists.1 hsome
  rw [afterGap?, hrest, Option.map_some, ← dropGap_of_afterBreak? hrest, hgap.dropGap_append]

theorem dropGap_apostrophe (t : Text) : dropGap false (apostrophe :: t) = apostrophe :: t := by
  rw [dropGap, if_neg (by decide), opensDashes_cons_eq_false (by decide), if_neg (by simp),
    if_neg (by decide)]

/-- A string before a gap with a line break is joined to the one after it, which may be a
value's. -/
theorem continues_of_isGap {gap : Text} (h : IsGap gap) (hbreak : ∃ c ∈ gap, isLineBreak c)
    (flag : Bool) : continues gap flag = flag := by
  have hafter := afterGap?_of_isGap h hbreak []
  rw [List.append_nil] at hafter
  rw [continues, hafter, dropGap]

theorem continues_of_continues {text : Text} (h : Continues text) (flag : Bool) :
    continues text flag := by
  obtain ⟨gap, rest, rfl, hgap, hbreak⟩ := h
  rw [continues, afterGap?_of_isGap hgap hbreak, dropGap_apostrophe]
  rfl

/-- What the check lets pass behind a text that ends in an apostrophe continues no string. -/
theorem continues_eq_false {t chunk : Text} {flag : Bool} (hend : t.getLast? = some apostrophe)
    (hcheck : grammar.checkFreeStanding t chunk flag = .ok ()) : continues chunk flag = false := by
  rw [Bool.eq_false_iff]
  intro h
  have hrefused : grammar.checkFreeStanding t chunk flag = .error (.ambiguousContinuation chunk) :=
    if_pos ⟨hend, h⟩
  rw [hrefused] at hcheck
  contradiction

theorem not_continues_of_check {t chunk : Text} {flag : Bool} (hend : t.getLast? = some apostrophe)
    (hcheck : grammar.checkFreeStanding t chunk flag = .ok ()) : ¬Continues chunk := by
  intro h
  have hcontinues := continues_eq_false hend hcheck
  rw [continues_of_continues h] at hcontinues
  contradiction

/-! ### Gaps that are read -/

theorem isIdle_of_gap {c : Char} (hc : isGapBlank c ∨ isLineBreak c) : isIdle c := by
  simp only [isGapBlank, isLineBreak, Bool.or_eq_true, decide_eq_true_eq] at hc
  rcases hc with ((rfl | rfl) | rfl) | rfl | rfl <;> decide

/-- At top level a gap is passed by. -/
theorem transition_none_gap_append {gap : Text} (h : IsGap gap) (t : Text) :
    lexer.transition none (gap ++ t) = lexer.transition none t := by
  induction h with
  | nil => rfl
  | blank hc h ih => rw [List.cons_append, transition_none_of_idle (isIdle_of_gap hc), ih]
  | @comment body u c hbody hc h ih =>
    have hafter : afterComment? .dashes (body ++ c :: (u ++ t)) = some (c :: (u ++ t)) :=
      afterLine?_of_break hbody hc
    have hopened : commentOpened? ('-' :: '-' :: (body ++ c :: (u ++ t))) =
        some (.dashes, body ++ c :: (u ++ t)) := rfl
    rw [List.cons_append, List.cons_append, List.append_assoc, List.cons_append,
      transition_none_of_commentOpened? hopened, transition_opensComment hafter,
      transition_none_of_idle (isIdle_of_gap (.inr hc)), ih]

/-- A comment that the end of a chunk cuts off is open after it. -/
theorem inComment_of_cut {gap body : Text} {q : Option State} (hgap : IsGap gap)
    (hbody : ∀ c ∈ body, isLineBreak c = false)
    (hread : lexer.transition none (gap ++ '-' :: '-' :: body) = .ok q) : inComment q := by
  have hopened : commentOpened? ('-' :: '-' :: body) = some (.dashes, body) := rfl
  rw [transition_none_gap_append hgap, transition_none_of_commentOpened? hopened] at hread
  exact inComment_of_unclosed (k := .dashes) (afterLine?_of_forall hbody) hread

/-! ### Texts that end a gap -/

/-- A text that begins, after spaces, with a character that does not belong to a gap. -/
inductive Halts : Text → Prop
  | here {c : Char} {t : Text} (hc : ¬(isGapBlank c ∨ isLineBreak c))
      (hdash : c = '-' → ∃ d u, t = d :: u ∧ d ≠ '-') : Halts (c :: t)
  | space {t : Text} (h : Halts t) : Halts (' ' :: t)

theorem Halts.append {a : Text} (h : Halts a) (b : Text) : Halts (a ++ b) := by
  induction h with
  | here hc hdash =>
    refine .here hc fun he => ?_
    obtain ⟨d, u, rfl, hd⟩ := hdash he
    exact ⟨d, u ++ b, rfl, hd⟩
  | space h ih => exact .space ih

/-- Before such a text ends in an apostrophe, no gap in it breaks the line. -/
theorem Halts.not_isLineBreak {t gap rest : Text} (h : Halts t)
    (ht : t = gap ++ apostrophe :: rest) (hgap : IsGap gap) : ∀ c ∈ gap, ¬isLineBreak c := by
  induction h generalizing gap with
  | @here c u hc hdash =>
    cases hgap with
    | nil => simp
    | blank hd h =>
      obtain ⟨rfl, -⟩ := List.cons.inj ht
      exact (hc hd).elim
    | comment hbody hd h =>
      obtain ⟨rfl, hu⟩ := List.cons.inj ht
      obtain ⟨d, v, rfl, hne⟩ := hdash rfl
      exact absurd (List.cons.inj hu).1 hne
  | space h ih =>
    cases gap with
    | nil => simp
    | cons c gap =>
      obtain ⟨rfl, hu⟩ := List.cons.inj ht
      intro d hd
      rcases List.mem_cons.1 hd with rfl | hd
      · decide
      · exact ih hu (hgap.of_cons_blank (by decide)) d hd

theorem Halts.not_continues {t : Text} (h : Halts t) : ¬Continues t := by
  rintro ⟨gap, rest, ht, hgap, c, hc, hbreak⟩
  exact h.not_isLineBreak ht hgap c hc hbreak

theorem Halts.of_ne {c : Char} (hc : ¬(isGapBlank c ∨ isLineBreak c)) (hdash : c ≠ '-')
    (t : Text) : Halts (c :: t) :=
  .here hc fun he => (hdash he).elim

theorem halts_of_head? {t : Text} {c : Char} (h : t.head? = some c)
    (hc : ¬(isGapBlank c ∨ isLineBreak c)) (hdash : c ≠ '-') : Halts t := by
  obtain ⟨u, rfl⟩ := List.head?_eq_some_iff.1 h
  exact .of_ne hc hdash u

theorem halts_of_isUnsigned {t : Text} (h : IsUnsigned t) : Halts t := by
  obtain ⟨c, u, rfl⟩ := List.exists_cons_of_ne_nil h.ne_nil
  refine .here ?_ fun he => (head?_ne_of_isUnsigned h (by rw [he]; rfl)).elim
  have hmem := h.mem (List.mem_cons_self)
  simp only [isGapBlank, isLineBreak, Bool.or_eq_true, decide_eq_true_eq]
  rintro (((rfl | rfl) | rfl) | rfl | rfl) <;> exact absurd hmem (by decide)

theorem halts_of_isNumeral {t : Text} (h : IsNumeral t) : Halts t := by
  cases h with
  | positive h => exact halts_of_isUnsigned h
  | negative h =>
    obtain ⟨d, u, rfl⟩ := List.exists_cons_of_ne_nil h.ne_nil
    refine .here (by decide) fun _ => ⟨d, u, rfl, ?_⟩
    rintro rfl
    exact head?_ne_of_isUnsigned h rfl

theorem halts_spacing_append {a t : Text} (ha : IsSpacing a) (ht : Halts t) : Halts (a ++ t) := by
  induction a with
  | nil => exact ht
  | cons c a ih =>
    have iha := ih fun d hd => ha d (by simp [hd])
    rcases ha c (by simp) with rfl | rfl | rfl
    · exact .of_ne (by decide) (by decide) _
    · exact .of_ne (by decide) (by decide) _
    · exact .space iha

/-- Whatever a value is written as, it ends a gap. -/
theorem begins_halts (trust : TrustPolicy) : Begins grammar trust Halts where
  append b ha := ha.append b
  null := halts_of_head? (c := 'N') (by decide) (by decide) (by decide)
  bool b := by
    cases b with
    | true => exact halts_of_head? (c := 't') (by decide) (by decide) (by decide)
    | false => exact halts_of_head? (c := 'f') (by decide) (by decide) (by decide)
  number := halts_of_isNumeral
  string t := by
    rw [show grammar.quoteString t = quoteString t from rfl, quoteString]
    split
    · exact .of_ne (by decide) (by decide) _
    · exact .of_ne (by decide) (by decide) _
  blob data := by
    obtain ⟨rest, he⟩ := exists_quoteBlob_eq data
    rw [show grammar.quoteBlob data = "decode('".toList ++ rest from he]
    exact (halts_of_head? (c := 'd') (by decide) (by decide) (by decide)).append rest
  identifier h := by
    obtain ⟨-, -, rfl⟩ := Except.map_eq_ok_iff.1 h
    obtain ⟨p, rest, he⟩ := Name.exists_quotedPath_eq _ _ _
    rw [he]
    exact .of_ne (by decide) (by decide) _
  bracket := .of_ne (by decide) (by decide) _
  assignment hv h := by
    obtain ⟨hspacing, hlisted⟩ := listed_of_escape hv h
    rename_i key t
    by_cases hleaves : key.leaves = []
    · have hsign : Halts [' ', '=', ' '] := .space (.of_ne (by decide) (by decide) _)
      exact halts_spacing_append (hspacing hleaves) hsign
    · obtain ⟨hbefore, -, -, -, -, -⟩ := hlisted hleaves
      rw [List.append_assoc]
      exact halts_spacing_append hbefore (.of_ne (by decide) (by decide) _)

end SqlWeave.Postgres
