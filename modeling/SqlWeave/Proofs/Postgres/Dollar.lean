/-
SqlWeave/Proofs/Postgres/Dollar.lean

Dollar tags and texts between them.  A tag has dollars at both ends and none inside, so an
occurrence of the tag that starts in one piece of a text and ends in the next one starts at
the last dollar of the first piece.  That is why it is enough to look at the text from the
last dollar on.

Main results: what a tag looks like (`tag?_eq_some_iff`), a text that fits between two tags
is transparent to the search for the closing one (`afterFirst?_append_of_fitsBetween`), and
a closing tag that was found stays where it is (`afterFirst?_append_of_some`).
-/
import SqlWeave.Postgres.Grammar

namespace SqlWeave

open Text

/-! ### Searching in two pieces -/

theorem Text.fromLast?_append (mark : Char) (a b : Text) :
    fromLast? mark (a ++ b) = (fromLast? mark b).or ((fromLast? mark a).map (· ++ b)) := by
  induction a with
  | nil => simp [fromLast?]
  | cons c a ih =>
    rw [List.cons_append, fromLast?, fromLast?, ih]
    cases fromLast? mark b <;> cases fromLast? mark a <;> by_cases hc : c = mark <;> simp [hc]

theorem Text.fromLast?_eq_none_iff {mark : Char} {t : Text} :
    fromLast? mark t = none ↔ mark ∉ t := by
  induction t with
  | nil => simp [fromLast?]
  | cons c t ih =>
    rw [fromLast?, Option.or_eq_none_iff, ih]
    by_cases hc : c = mark <;> simp [hc, Ne.symm]

theorem Text.afterFirst?_of_afterStart? {piece t rest : Text} (h : afterStart? piece t = some rest) :
    afterFirst? piece t = some rest := by
  cases t with
  | nil => exact h
  | cons c t => rw [afterFirst?, h, Option.some_or]

theorem Text.afterStart?_append {piece a b rest : Text} (h : afterStart? piece a = some rest) :
    afterStart? piece (a ++ b) = some (rest ++ b) := by
  rw [afterStart?_eq_some_iff] at h ⊢
  rw [h, List.append_assoc]

/-- A piece that the text has room for, and does not start with, is not found at the start
when more text follows. -/
theorem Text.afterStart?_append_of_none {piece a b : Text} (h : afterStart? piece a = none)
    (hl : piece.length ≤ a.length) : afterStart? piece (a ++ b) = none := by
  rw [Option.eq_none_iff_forall_ne_some]
  intro rest hr
  rcases List.append_eq_append_iff.1 (afterStart?_eq_some_iff.1 hr) with
    ⟨more, hp, -⟩ | ⟨more, ha, -⟩
  · obtain rfl : more = [] := by
      rw [hp, List.length_append] at hl
      exact List.length_eq_zero_iff.1 (by omega)
    have : afterStart? piece a = some [] := afterStart?_eq_some_iff.2 (by simpa using hp.symm)
    simp [this] at h
  · have : afterStart? piece a = some more := afterStart?_eq_some_iff.2 ha
    simp [this] at h

/-- The first occurrence in a text is still the first one when more text follows: one that
starts before it would end before it, too. -/
theorem Text.afterFirst?_append_of_some {piece a b rest : Text}
    (h : afterFirst? piece a = some rest) :
    afterFirst? piece (a ++ b) = some (rest ++ b) := by
  induction a with
  | nil =>
    obtain ⟨rfl, rfl⟩ : piece = [] ∧ rest = [] := by
      have := afterStart?_eq_some_iff.1 (h : afterStart? piece [] = some rest)
      exact List.append_eq_nil_iff.1 this.symm
    cases b <;> simp [afterFirst?, afterStart?]
  | cons c a ih =>
    rw [afterFirst?, Option.or_eq_some_iff] at h
    rw [List.cons_append, afterFirst?, ← List.cons_append]
    rcases h with h | ⟨hn, h⟩
    · rw [afterStart?_append h, Option.some_or]
    · -- An occurrence here would be no longer than `c :: a`, since a later one is in it, too.
      obtain ⟨front, hfront⟩ := append_of_afterFirst? h
      have hl : piece.length ≤ (c :: a).length := by
        simp [hfront]
        omega
      rw [afterStart?_append_of_none hn hl, Option.none_or, ih h]

/-- The part of a text that the search for a piece goes through. -/
theorem Text.exists_of_afterFirst? {piece t rest : Text} (h : afterFirst? piece t = some rest) :
    ∃ u, t = u ++ rest ∧ afterFirst? piece u = some [] := by
  have hself : afterFirst? piece piece = some [] :=
    afterFirst?_of_afterStart? (afterStart?_eq_some_iff.2 (List.append_nil piece).symm)
  induction t with
  | nil => exact ⟨piece, afterStart?_eq_some_iff.1 h, hself⟩
  | cons c t ih =>
    rw [afterFirst?, Option.or_eq_some_iff] at h
    rcases h with h | ⟨hnot, h⟩
    · exact ⟨piece, afterStart?_eq_some_iff.1 h, hself⟩
    · obtain ⟨u, rfl, hu⟩ := ih h
      have hstart : afterStart? piece (c :: u) = none := by
        rw [Option.eq_none_iff_forall_ne_some]
        intro r hr
        rw [← List.cons_append, afterStart?_append hr] at hnot
        contradiction
      exact ⟨c :: u, rfl, by rw [afterFirst?, hstart, Option.none_or, hu]⟩

namespace Postgres

/-! ### Tags -/

theorem isTagChar_dollar : isTagChar '$' = false := by decide

theorem tag?_append {name rest : Text} (hc : ∀ c ∈ name, isTagChar c) (hn : isTagName name) :
    tag? ('$' :: (name ++ '$' :: rest)) = some ('$' :: (name ++ ['$']), rest) := by
  have hd : (name ++ '$' :: rest).dropWhile isTagChar = '$' :: rest := by
    rw [List.dropWhile_append_of_pos hc, List.dropWhile_cons_of_neg (by simp [isTagChar_dollar])]
  have ht : (name ++ '$' :: rest).takeWhile isTagChar = name := by
    rw [List.takeWhile_append_of_pos hc, List.takeWhile_cons_of_neg (by simp [isTagChar_dollar]),
      List.append_nil]
  simp [tag?, hd, ht, hn]

theorem tag?_eq_some_iff {text tag rest : Text} :
    tag? text = some (tag, rest) ↔ ∃ name, (∀ c ∈ name, isTagChar c) ∧ isTagName name ∧
      tag = '$' :: (name ++ ['$']) ∧ text = tag ++ rest := by
  constructor
  · intro h
    unfold tag? at h
    split at h
    · simp at h
    · rename_i c t
      split at h
      · rename_i hc
        split at h
        · simp at h
        · rename_i d rest' hd
          simp only at h
          split at h
          · rename_i hname
            obtain ⟨rfl, hname⟩ := hname
            obtain ⟨rfl, rfl⟩ : '$' :: (t.takeWhile isTagChar ++ ['$']) = tag ∧ rest' = rest := by
              simpa using h
            refine ⟨t.takeWhile isTagChar, List.all_eq_true.1 List.all_takeWhile, hname, rfl, ?_⟩
            have ht : t.takeWhile isTagChar ++ t.dropWhile isTagChar = t :=
              List.takeWhile_append_dropWhile
            rw [hd] at ht
            rw [hc, List.cons_append, List.append_assoc]
            exact congrArg _ ht.symm
          · simp at h
      · simp at h
  · rintro ⟨name, hc, hn, rfl, rfl⟩
    have h : tag? ('$' :: (name ++ '$' :: rest)) = some ('$' :: (name ++ ['$']), rest) :=
      tag?_append hc hn
    simpa using h

theorem isTag_iff {tag : Text} :
    isTag tag ↔ ∃ name, (∀ c ∈ name, isTagChar c) ∧ isTagName name ∧
      tag = '$' :: (name ++ ['$']) := by
  simp [isTag, tag?_eq_some_iff]

/-- The tag that a text begins with is a tag. -/
theorem isTag_of_tag? {text tag rest : Text} (h : tag? text = some (tag, rest)) : isTag tag := by
  obtain ⟨name, hc, hn, rfl, -⟩ := tag?_eq_some_iff.1 h
  exact isTag_iff.2 ⟨name, hc, hn, rfl⟩

/-- A beginning of a tag that does not reach its end has no dollar but the first. -/
theorem fromLast?_of_prefix_tag {tag t more : Text} (ht : isTag tag) (hne : t ≠ [])
    (hm : more ≠ []) (h : tag = t ++ more) : fromLast? '$' t = some t := by
  obtain ⟨name, hc, -, rfl⟩ := isTag_iff.1 ht
  obtain ⟨c, t, rfl⟩ := List.exists_cons_of_ne_nil hne
  obtain ⟨rfl, heq⟩ := List.cons.inj (h.trans List.cons_append)
  have hdollar : '$' ∉ t := by
    intro hin
    rcases List.append_eq_append_iff.1 heq with ⟨as, rfl, has⟩ | ⟨bs, rfl, -⟩
    · -- `t` runs past the name: then it takes the last dollar, and nothing is left.
      cases as with
      | nil => exact absurd (hc _ (by simpa using hin)) (by simp [isTagChar_dollar])
      | cons d as => simp [hm] at has
    · exact absurd (hc '$' (by simp [hin])) (by simp [isTagChar_dollar])
  rw [fromLast?, fromLast?_eq_none_iff.2 hdollar, Option.none_or, if_pos rfl]

/-! ### Texts between two tags -/

theorem fitsBetween_iff {tag t : Text} :
    fitsBetween tag t ↔
      afterFirst? tag t = none ∧ ∀ tail, fromLast? '$' t = some tail → ¬tail <+: tag := by
  simp only [fitsBetween, holds, Bool.and_eq_true, Bool.not_eq_true', Option.isSome_eq_false_iff,
    Option.isNone_iff_eq_none]
  cases fromLast? '$' t <;> simp [Bool.eq_false_iff]

/-- No closing tag starts inside a text that fits and ends in what follows it. -/
theorem afterFirst?_append_of_fitsBetween {tag a b : Text} (ht : isTag tag)
    (h : fitsBetween tag a) : afterFirst? tag (a ++ b) = afterFirst? tag b := by
  induction a with
  | nil => rfl
  | cons c a ih =>
    obtain ⟨hno, htail⟩ := fitsBetween_iff.1 h
    rw [afterFirst?, Option.or_eq_none_iff] at hno
    have hstart : afterStart? tag (c :: (a ++ b)) = none := by
      rw [← List.cons_append]
      rcases Nat.lt_or_ge (c :: a).length tag.length with hlt | hge
      · -- The tag would start with all of `c :: a`, and end after it.
        rw [Option.eq_none_iff_forall_ne_some]
        intro rest hr
        rcases List.append_eq_append_iff.1 (afterStart?_eq_some_iff.1 hr) with
          ⟨more, hp, -⟩ | ⟨more, ha, -⟩
        · have hm : more ≠ [] := by
            rintro rfl
            simp [hp] at hlt
          have hlast := fromLast?_of_prefix_tag ht (List.cons_ne_nil c a) hm hp
          exact htail _ hlast ⟨more, hp.symm⟩
        · have := congrArg List.length ha
          simp at this hlt
          omega
      · exact afterStart?_append_of_none hno.1 hge
    have hfits : fitsBetween tag a := by
      refine fitsBetween_iff.2 ⟨hno.2, fun tail hl => htail tail ?_⟩
      rw [fromLast?, hl, Option.some_or]
    rw [List.cons_append, afterFirst?, hstart, Option.none_or, ih hfits]

end Postgres

end SqlWeave
