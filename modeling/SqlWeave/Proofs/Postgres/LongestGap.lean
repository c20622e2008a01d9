/-
SqlWeave/Proofs/Postgres/LongestGap.lean

The longest gap that a text begins with.  The check of values between tokens reads a text twice:
up to a line break in the gap, and from there to the end of the gap.  Both passes see the same
blanks and comments, so what they come to can be said of the longest gap alone.  A comment at the
end of the text belongs to the gap although nothing ends it.

Main results: the gap that is dropped is the longest one (`isLongestGap_dropGap`), and a value is
refused exactly if it ends in an apostrophe and the longest gap behind it has a line break and a
string after it (`checkFreeStanding_iff_longest_gap`).
-/
import SqlWeave.Postgres.Gap

namespace SqlWeave.Postgres

open Text

/-! ### Gaps in front of a text -/

/-- Whether a line comment is over where the text begins: at a line break, or at the end. -/
def EndsLine (t : Text) : Prop := ∀ c, t.head? = some c → isLineBreak c

/-- Blanks, line breaks and line comments in front of `rest`.  A comment runs up to the next line
break, or to the end of the whole text. -/
inductive GapBefore (rest : Text) : Text → Prop
  | nil : GapBefore rest []
  | blank {c : Char} {g : Text} (hc : isGapBlank c ∨ isLineBreak c) (h : GapBefore rest g) :
      GapBefore rest (c :: g)
  | comment {body g : Text} (hbody : ∀ d ∈ body, isLineBreak d = false)
      (hends : EndsLine (g ++ rest)) (h : GapBefore rest g) :
      GapBefore rest ('-' :: '-' :: (body ++ g))

/-- The longest gap that a text begins with, and what follows it. -/
structure IsLongestGap (text g rest : Text) : Prop where
  eq_append : text = g ++ rest
  gap : GapBefore rest g
  longest : ∀ g' rest', text = g' ++ rest' → GapBefore rest' g' → g'.length ≤ g.length

/-! ### One step of a pass -/

theorem opensDashes_cons_eq_false {c : Char} (hc : c ≠ '-') (t : Text) :
    opensDashes (c :: t) = false := by
  simp [opensDashes, List.isPrefixOf, hc.symm]

theorem opensDashes_dashes (t : Text) : opensDashes ('-' :: '-' :: t) := rfl

theorem ne_dash_of_gap {c : Char} (hc : isGapBlank c ∨ isLineBreak c) : c ≠ '-' := by
  rintro rfl
  rcases hc with hc | hc <;> contradiction

theorem dropGap_blank {c : Char} (hc : isGapBlank c ∨ isLineBreak c) (t : Text) :
    dropGap false (c :: t) = dropGap false t := by
  rw [dropGap]
  by_cases hbreak : isLineBreak c
  · rw [if_pos hbreak]
  · have hblank := hc.resolve_right hbreak
    have hdash := opensDashes_cons_eq_false (ne_dash_of_gap hc) t
    simp [hbreak, hblank, hdash]

theorem dropGap_dashes (t : Text) : dropGap false ('-' :: '-' :: t) = dropGap true t := by
  rw [dropGap, if_neg (by decide), if_pos (.inr (opensDashes_dashes t)), dropGap,
    if_neg (by decide), if_pos (.inl rfl)]

theorem afterBreak?_dashes (t : Text) :
    afterBreak? false ('-' :: '-' :: t) = afterBreak? true t := by
  rw [afterBreak?, if_neg (by decide), if_pos (.inr (opensDashes_dashes t)), afterBreak?,
    if_neg (by decide), if_pos (.inl rfl)]

/-- The pass that looks for a line break drops no more than the other one. -/
theorem dropGap_of_afterBreak? {inComment : Bool} {t rest : Text}
    (h : afterBreak? inComment t = some rest) : dropGap inComment t = dropGap false rest := by
  fun_induction afterBreak? inComment t with
  | case1 => contradiction
  | case2 inComment c t hbreak =>
    obtain rfl := Option.some.inj h
    rw [dropGap, if_pos hbreak]
  | case3 inComment c t hbreak hcomment ih => rw [dropGap, if_neg hbreak, if_pos hcomment, ih h]
  | case4 inComment c t hbreak hcomment hblank ih =>
    rw [dropGap, if_neg hbreak, if_neg hcomment, if_pos hblank, ih h]
  | case5 => contradiction

/-! ### The end of a comment -/

section

variable {body t : Text}

theorem dropGap_line (hbody : ∀ d ∈ body, isLineBreak d = false) (ht : EndsLine t) :
    dropGap true (body ++ t) = dropGap false t := by
  induction body with
  | nil =>
    cases t with
    | nil => rfl
    | cons c t =>
      have hc := ht c rfl
      simp [dropGap, hc]
  | cons d body ih =>
    have hd := hbody d (by simp)
    simp [dropGap, hd, ih fun e he => hbody e (by simp [he])]

theorem afterBreak?_line (hbody : ∀ d ∈ body, isLineBreak d = false) (ht : EndsLine t) :
    afterBreak? true (body ++ t) = afterBreak? false t := by
  induction body with
  | nil =>
    cases t with
    | nil => rfl
    | cons c t =>
      have hc := ht c rfl
      simp [afterBreak?, hc]
  | cons d body ih =>
    have hd := hbody d (by simp)
    simp [afterBreak?, hd, ih fun e he => hbody e (by simp [he])]

end

/-! ### The end of the gap -/

/-- What is dropped are the rest of the comment that is open, if one is, and a gap. -/
theorem exists_gapBefore_dropGap (inComment : Bool) (t : Text) :
    ∃ body g, t = body ++ (g ++ dropGap inComment t) ∧ (∀ d ∈ body, isLineBreak d = false) ∧
      GapBefore (dropGap inComment t) g ∧
      if inComment then EndsLine (g ++ dropGap inComment t) else body = [] := by
  fun_induction dropGap inComment t with
  | case1 inComment =>
    refine ⟨[], [], rfl, by simp, .nil, ?_⟩
    split
    · simp [EndsLine]
    · rfl
  | case2 inComment c t hbreak ih =>
    obtain ⟨body, g, ht, -, hg, hbody⟩ := ih
    obtain rfl : body = [] := by simpa using hbody
    refine ⟨[], c :: g, by simpa using ht, by simp, .blank (.inr hbreak) hg, ?_⟩
    split
    · simpa [EndsLine] using hbreak
    · rfl
  | case3 inComment c t hbreak hcomment ih =>
    obtain ⟨body, g, ht, hbody, hg, hends⟩ := ih
    rw [if_pos rfl] at hends
    have hc : isLineBreak c = false := by simpa using hbreak
    cases inComment with
    | true =>
      refine ⟨c :: body, g, by simpa using ht, ?_, hg, hends⟩
      simpa [hc] using hbody
    | false =>
      have hdashes : opensDashes (c :: t) := by simpa using hcomment
      obtain ⟨u, hu⟩ := List.isPrefixOf_iff_prefix.1 hdashes
      obtain ⟨rfl, hsecond⟩ : '-' = c ∧ '-' :: u = t := List.cons.inj hu
      rw [ht] at hsecond
      -- The second dash stands in the body, since no line break is a dash.
      cases body with
      | nil =>
        have hdash := hends '-' (by rw [← List.nil_append (g ++ _), ← hsecond]; rfl)
        contradiction
      | cons d body =>
        obtain ⟨rfl, -⟩ := List.cons.inj hsecond
        refine ⟨[], '-' :: '-' :: (body ++ g), by simpa using ht, by simp, ?_, rfl⟩
        exact .comment (fun e he => hbody e (by simp [he])) hends hg
  | case4 inComment c t hbreak hcomment hblank ih =>
    obtain ⟨body, g, ht, -, hg, hbody⟩ := ih
    obtain rfl : body = [] := by simpa using hbody
    obtain rfl : inComment = false := by simpa using (not_or.1 hcomment).1
    exact ⟨[], c :: g, by simpa using ht, by simp, .blank (.inl hblank) hg, rfl⟩
  | case5 inComment c t hbreak hcomment hblank =>
    obtain rfl : inComment = false := by simpa using (not_or.1 hcomment).1
    exact ⟨[], [], rfl, by simp, .nil, rfl⟩

theorem length_dropGap_le (inComment : Bool) (t : Text) :
    (dropGap inComment t).length ≤ t.length := by
  obtain ⟨body, g, ht, -⟩ := exists_gapBefore_dropGap inComment t
  have hlength := congrArg List.length ht
  simp only [List.length_append] at hlength
  omega

/-- A gap is dropped as a whole. -/
theorem GapBefore.dropGap_append {g rest : Text} (h : GapBefore rest g) :
    dropGap false (g ++ rest) = dropGap false rest := by
  induction h with
  | nil => rfl
  | blank hc h ih => rw [List.cons_append, dropGap_blank hc, ih]
  | comment hbody hends h ih =>
    rw [List.cons_append, List.cons_append, List.append_assoc, dropGap_dashes,
      dropGap_line hbody hends, ih]

/-- The longest gap is the one that is dropped. -/
theorem isLongestGap_dropGap (t : Text) : ∃ g, IsLongestGap t g (dropGap false t) := by
  obtain ⟨body, g, ht, -, hg, hbody⟩ := exists_gapBefore_dropGap false t
  obtain rfl : body = [] := by simpa using hbody
  refine ⟨g, ht, hg, fun g' rest' ht' hg' => ?_⟩
  have hrest : (dropGap false t).length ≤ rest'.length := by
    rw [ht', hg'.dropGap_append]
    exact length_dropGap_le false rest'
  have hlength := congrArg List.length (ht.symm.trans ht')
  simp only [List.nil_append, List.length_append] at hlength
  omega

/-- A text has one longest gap. -/
theorem IsLongestGap.dropGap_eq {text g rest : Text} (h : IsLongestGap text g rest) :
    dropGap false text = rest := by
  obtain ⟨g', h'⟩ := isLongestGap_dropGap text
  have hlength : g.length = g'.length :=
    Nat.le_antisymm (h'.longest g rest h.eq_append h.gap) (h.longest g' _ h'.eq_append h'.gap)
  exact (List.append_inj (h.eq_append.symm.trans h'.eq_append) hlength).2.symm

/-! ### The line break in the gap -/

/-- No gap is left where the gap has been dropped. -/
theorem afterBreak?_dropGap (inComment : Bool) (t : Text) :
    afterBreak? false (dropGap inComment t) = none := by
  fun_induction dropGap inComment t with
  | case1 => rfl
  | case2 _ _ _ _ ih | case3 _ _ _ _ _ ih | case4 _ _ _ _ _ _ ih => exact ih
  | case5 inComment c t hbreak hcomment hblank =>
    obtain ⟨-, hdashes⟩ := not_or.1 hcomment
    rw [afterBreak?, if_neg hbreak, if_neg (by simp [hdashes]), if_neg hblank]

/-- A line break is found exactly if the gap has one, or the text behind it. -/
theorem GapBefore.isSome_afterBreak?_iff {g rest : Text} (h : GapBefore rest g) :
    (afterBreak? false (g ++ rest)).isSome ↔
      (∃ c ∈ g, isLineBreak c) ∨ (afterBreak? false rest).isSome := by
  induction h with
  | nil => simp
  | @blank c g hc h ih =>
    rw [List.cons_append, afterBreak?]
    by_cases hline : isLineBreak c
    · simp [hline]
    · have hblank := hc.resolve_right hline
      have hdash := opensDashes_cons_eq_false (ne_dash_of_gap hc) (g ++ rest)
      simp [hline, hdash, hblank, ih]
  | @comment body g hbody hends h ih =>
    have hplain : ∀ c ∈ '-' :: '-' :: body, ¬isLineBreak c := by
      have hdash : isLineBreak '-' = false := by decide
      simpa [hdash] using hbody
    have hbreaks : (∃ c ∈ '-' :: '-' :: (body ++ g), isLineBreak c) ↔ ∃ c ∈ g, isLineBreak c := by
      rw [← List.cons_append, ← List.cons_append]
      simp only [List.mem_append, or_and_right, exists_or]
      exact or_iff_right fun ⟨c, hc, hbreak⟩ => hplain c hc hbreak
    rw [List.cons_append, List.cons_append, List.append_assoc, afterBreak?_dashes,
      afterBreak?_line hbody hends, ih, hbreaks]

/-- The two passes of the check come to what follows the gap if it has a line break. -/
theorem IsLongestGap.afterGap?_eq_some_iff {text g rest u : Text} (h : IsLongestGap text g rest) :
    afterGap? text = some u ↔ (∃ c ∈ g, isLineBreak c) ∧ u = rest := by
  have hrest := h.dropGap_eq
  have hnone : afterBreak? false rest = none := by
    rw [← hrest]
    exact afterBreak?_dropGap false text
  have hsome := h.gap.isSome_afterBreak?_iff
  rw [← h.eq_append, hnone] at hsome
  cases hafter : afterBreak? false text with
  | none =>
    have hbreak : ¬∃ c ∈ g, isLineBreak c := by simpa [hafter] using hsome
    simp [afterGap?, hafter, hbreak]
  | some t =>
    have hbreak : ∃ c ∈ g, isLineBreak c := by simpa [hafter] using hsome
    have hdrop : dropGap false t = rest := (dropGap_of_afterBreak? hafter).symm.trans hrest
    rw [afterGap?, hafter, Option.map_some, hdrop, Option.some.injEq, and_iff_right hbreak]
    exact eq_comm

/-! ### Values in front of a gap -/

theorem IsLongestGap.continues_iff {text g rest : Text} (h : IsLongestGap text g rest)
    (valueFollows : Bool) :
    continues text valueFollows ↔
      (∃ c ∈ g, isLineBreak c) ∧ (rest.head? = some apostrophe ∨ rest = [] ∧ valueFollows) := by
  have hiff (u : Text) := h.afterGap?_eq_some_iff (u := u)
  rw [continues]
  cases hafter : afterGap? text with
  | none =>
    have hbreak : ¬∃ c ∈ g, isLineBreak c := by
      intro hbreak
      have hsome := (hiff rest).2 ⟨hbreak, rfl⟩
      rw [hafter] at hsome
      contradiction
    simp [hbreak]
  | some u =>
    obtain ⟨hbreak, rfl⟩ := (hiff u).1 hafter
    cases u with
    | nil => simp [hbreak]
    | cons c u => simp [hbreak]

/-- A value is refused exactly if it ends in an apostrophe, and the longest gap of what follows it
has a line break and comes before an apostrophe, or before the end where another value is next. -/
theorem checkFreeStanding_iff_longest_gap (escaped following : Text) (valueFollows : Bool) :
    ∃ g rest, IsLongestGap following g rest ∧
      (checkFreeStanding escaped following valueFollows =
          .error (.ambiguousContinuation following) ↔
        escaped.getLast? = some apostrophe ∧ (∃ c ∈ g, isLineBreak c) ∧
          (rest.head? = some apostrophe ∨ rest = [] ∧ valueFollows)) ∧
      (checkFreeStanding escaped following valueFollows = .ok () ↔
        ¬(escaped.getLast? = some apostrophe ∧ (∃ c ∈ g, isLineBreak c) ∧
          (rest.head? = some apostrophe ∨ rest = [] ∧ valueFollows))) := by
  obtain ⟨g, hg⟩ := isLongestGap_dropGap following
  refine ⟨g, _, hg, ?_⟩
  rw [← hg.continues_iff, checkFreeStanding]
  split
  · rename_i hcontinued
    simp [hcontinued]
  · rename_i hcontinued
    simp [hcontinued]

/-- A comment that nothing ends belongs to the gap, and so the next value is taken for what the
string is joined to. -/
example : checkFreeStanding ['\'', '\''] "\r--'".toList true =
    .error (.ambiguousContinuation "\r--'".toList) := by rfl

end SqlWeave.Postgres
