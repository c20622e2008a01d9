/-
SqlWeave/Proofs/Postgres/Guards.lean

The two guards of dollar quotes.  The grammar refuses a value, and the lexer refuses a chunk, that
could bring the closing tag about too early.  Both look for the tag in the text, and then only at
what starts at the last dollar of it.

That is enough.  A tag that starts in the text and ends behind it leaves a proper beginning of
itself at the end of the text.  Such a beginning holds no dollar but its first character, so it
starts at the last dollar, whatever name the tag has.

Main results: where a piece can start in a text when any other text follows
(`Text.exists_startsIn_iff`), and that both guards refuse exactly the texts in which the tag can
start (`dollar_guards_exact`).
-/
import SqlWeave.Proofs.Postgres.Dollar

namespace SqlWeave

open Text

/-! ### Where a piece starts -/

theorem Text.exists_of_fromLast? {mark : Char} {t tail : Text} (h : fromLast? mark t = some tail) :
    ∃ rest, tail = mark :: rest := by
  induction t with
  | nil => contradiction
  | cons c t ih =>
    rw [fromLast?, Option.or_eq_some_iff] at h
    rcases h with h | ⟨-, h⟩
    · exact ih h
    · split at h
      · rename_i hc
        exact ⟨t, by rw [← hc]; exact (Option.some.inj h).symm⟩
      · contradiction

/-- Whether `piece` occurs in `t` with `more` behind it, and starts before the end of `t`. -/
def Text.StartsIn (piece t more : Text) : Prop :=
  ∃ front rest, t ++ more = front ++ (piece ++ rest) ∧ front.length < t.length

theorem Text.holds_iff {piece t : Text} :
    holds piece t ↔ ∃ front rest, t = front ++ (piece ++ rest) := by
  rw [holds, Option.isSome_iff_exists]
  constructor
  · rintro ⟨rest, h⟩
    obtain ⟨front, rfl⟩ := append_of_afterFirst? h
    exact ⟨front, rest, rfl⟩
  · rintro ⟨front, rest, rfl⟩
    induction front with
    | nil => exact ⟨rest, afterFirst?_of_afterStart? (afterStart?_eq_some_iff.2 rfl)⟩
    | cons c front ih =>
      obtain ⟨rest', h⟩ := ih
      rw [List.cons_append, afterFirst?, h]
      cases afterStart? piece (c :: (front ++ (piece ++ rest))) with
      | none => exact ⟨rest', rfl⟩
      | some rest'' => exact ⟨rest'', rfl⟩

/-- A piece can start in a text exactly if it is in it, or some end of the text is a beginning of
the piece. -/
theorem Text.exists_startsIn_iff {piece t : Text} (hpiece : piece ≠ []) :
    (∃ more, StartsIn piece t more) ↔
      holds piece t ∨ ∃ tail, tail ≠ [] ∧ tail <:+ t ∧ tail <+: piece := by
  constructor
  · rintro ⟨more, front, rest, h, hlt⟩
    obtain ⟨tail, rfl, hpieces⟩ : ∃ tail, t = front ++ tail ∧ tail ++ more = piece ++ rest := by
      rcases List.append_eq_append_iff.1 h with ⟨u, rfl, -⟩ | ⟨u, ht, hu⟩
      · rw [List.length_append] at hlt
        omega
      · exact ⟨u, ht, hu.symm⟩
    have htail : tail ≠ [] := by
      rintro rfl
      simp at hlt
    -- The piece goes on behind the text, or ends in it.
    rcases List.append_eq_append_iff.1 hpieces with ⟨u, hu, -⟩ | ⟨u, rfl, -⟩
    · exact .inr ⟨tail, htail, List.suffix_append front tail, u, hu.symm⟩
    · exact .inl (holds_iff.2 ⟨front, u, rfl⟩)
  · rintro (h | ⟨tail, htail, ⟨front, rfl⟩, z, rfl⟩)
    · obtain ⟨front, rest, rfl⟩ := holds_iff.1 h
      have := List.length_pos_iff.2 hpiece
      exact ⟨[], front, rest, List.append_nil _, by simp; omega⟩
    · -- What the piece lacks of `tail` makes up the text that has to follow.
      have := List.length_pos_iff.2 htail
      exact ⟨z, front, [], by simp, by simp; omega⟩

namespace Postgres

variable {tag t : Text}

/-! ### The two guards -/

theorem checkDollarEmbedding_eq_ok_iff : checkDollarEmbedding t tag = .ok t ↔ fitsBetween tag t := by
  rw [checkDollarEmbedding, embed]
  split <;> simp [*]

/-- The lexer reads to the end of a text and stays in the dollar quote exactly if the text fits. -/
theorem advance_dollar_eq_ok_iff :
    lexer.advance (some (.dollar tag)) t = .ok (some (.dollar tag), []) ↔ fitsBetween tag t := by
  rw [fitsBetween_iff]
  simp only [lexer, advance, advanceDollar]
  cases hfirst : afterFirst? tag t with
  | some rest => simp
  | none =>
    cases hlast : fromLast? '$' t with
    | none => simp
    | some tail => by_cases hbegins : tail <+: tag <;> simp [hbegins]

/-- A beginning of a tag at the end of a text starts at the last dollar, or is the whole tag. -/
theorem fromLast?_eq_some_of_suffix {tail : Text} (ht : isTag tag) (hne : tail ≠ [])
    (hends : tail <:+ t) (hbegins : tail <+: tag) (hno : holds tag t = false) :
    fromLast? '$' t = some tail := by
  obtain ⟨front, rfl⟩ := hends
  obtain ⟨z, rfl⟩ := hbegins
  have hz : z ≠ [] := by
    rintro rfl
    have hholds : holds (tail ++ []) (front ++ tail) := holds_iff.2 ⟨front, [], by simp⟩
    rw [hholds] at hno
    contradiction
  rw [fromLast?_append, fromLast?_of_prefix_tag ht hne hz rfl, Option.some_or]

/-- A text fits between two tags exactly if the tag does not start in it, whatever follows. -/
theorem fitsBetween_iff_forall_not_startsIn (ht : isTag tag) :
    fitsBetween tag t ↔ ∀ more, ¬StartsIn tag t more := by
  have htag : tag ≠ [] := by
    obtain ⟨name, -, -, rfl⟩ := isTag_iff.1 ht
    simp
  rw [← not_exists, exists_startsIn_iff htag, fitsBetween_iff]
  have hholds : afterFirst? tag t = none ↔ holds tag t = false := by simp [holds]
  rw [hholds]
  constructor
  · rintro ⟨hno, hlast⟩ (h | ⟨tail, hne, hends, hbegins⟩)
    · rw [hno] at h
      contradiction
    · exact hlast tail (fromLast?_eq_some_of_suffix ht hne hends hbegins hno) hbegins
  · intro h
    refine ⟨by simpa using fun hholds => h (.inl hholds), fun tail hlast hbegins => h (.inr ?_)⟩
    refine ⟨tail, ?_, fromLast?_suffix hlast, hbegins⟩
    obtain ⟨rest, rfl⟩ := exists_of_fromLast? hlast
    exact List.cons_ne_nil _ _

/-- The check of values and the step of the lexer let the same texts pass between two tags: those
in which the tag does not start, whatever text follows. -/
theorem dollar_guards_exact (ht : isTag tag) (t : Text) :
    (checkDollarEmbedding t tag = .ok t ↔
        lexer.advance (some (.dollar tag)) t = .ok (some (.dollar tag), [])) ∧
      (checkDollarEmbedding t tag = .ok t ↔ ∀ more, ¬StartsIn tag t more) := by
  rw [checkDollarEmbedding_eq_ok_iff, advance_dollar_eq_ok_iff]
  exact ⟨Iff.rfl, fitsBetween_iff_forall_not_startsIn ht⟩

/-- A tag with a repetitive name, and a text with many beginnings of it, of which none can be
completed. -/
theorem dollar_guards_exact_repetitive :
    let tag := "$aa$".toList
    let t := "$a$$aab".toList
    isTag tag ∧ checkDollarEmbedding t tag = .ok t ∧
      lexer.advance (some (.dollar tag)) t = .ok (some (.dollar tag), []) ∧
      ∀ more, ¬StartsIn tag t more := by
  intro tag t
  have ht : isTag tag := by decide
  have hcheck : checkDollarEmbedding t tag = .ok t :=
    checkDollarEmbedding_eq_ok_iff.2 (by decide)
  obtain ⟨hagree, hexact⟩ := dollar_guards_exact ht t
  exact ⟨ht, hcheck, hagree.1 hcheck, hexact.1 hcheck⟩

end Postgres

end SqlWeave
