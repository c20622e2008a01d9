/-
SqlWeave/Proofs/Splice.lean

Values inside open strings.  Whatever the value, its text leaves the string open, and the
literal text after it is read as if the value were not there: no value closes its string,
takes the first character of what follows into an escape, or completes a dollar tag with it.

Main results: `splice_transparent`, for every string of either family.
-/
import SqlWeave.Proofs.MySQL.Literal
import SqlWeave.Proofs.MySQL.Reading
import SqlWeave.Proofs.Postgres.Continuation
import SqlWeave.Proofs.Postgres.Literal
import SqlWeave.Dialect

namespace SqlWeave

open Text

variable {surroundings : Surroundings} {options : Options} {v : Value} {b : Text}

/-! ### MySQL -/

namespace MySQL

theorem splice_of_isString {q : Quote} (hq : q.IsString) :
    splice surroundings options [q.mark] v =
      .ok (escapeBody (spliceText surroundings options v)) := by
  cases q with
  | single => rfl
  | double => rfl
  | backtick => exact (hq rfl).elim

theorem readBody_splice {q : Quote} (hq : q.IsString)
    (h : splice surroundings options [q.mark] v = .ok b) : readBody q.mark true b = .inside := by
  rw [splice_of_isString hq, Except.ok.injEq] at h
  rw [← h]
  exact readBody_escapeBody hq _

end MySQL

/-! ### Postgres -/

namespace Postgres

/-- Whether a construct holds text: a string or bit string, or what stands between proper
dollar tags. -/
def State.IsString : State → Prop
  | .quoted q => q.isName = false
  | .dollar tag => isTag tag
  | _ => False

/-- Outside identifiers and bit strings, every value is written as its text. -/
theorem splice_eq_spliceString {delimiter : Text} {place : Place}
    (hp : Place.ofDelimiter? delimiter = some place) (hname : ∀ unicode, place ≠ .name unicode)
    (hbits : place ≠ .bits) (hhex : place ≠ .hex) :
    splice surroundings options delimiter v =
      spliceString place delimiter v (spliceText surroundings options v) := by
  rw [splice, hp]
  cases place with
  | name unicode => exact (hname unicode rfl).elim
  | bits => exact (hbits rfl).elim
  | hex => exact (hhex rfl).elim
  | plain | escape | continuation | unicode | dollar => cases v <;> rfl

/-- In a bit string, bytes are written as digits and all else as its text. -/
theorem splice_bits_or_hex {delimiter : Text} {place : Place}
    (hp : Place.ofDelimiter? delimiter = some place) (h : place = .bits ∨ place = .hex) :
    (∃ data, splice surroundings options delimiter v = .ok (hexBytes data)) ∨
      (∃ data, splice surroundings options delimiter v = .ok (bitsOfHex (hexBytes data))) ∨
      splice surroundings options delimiter v =
        plainBody apostrophe delimiter (spliceText surroundings options v) := by
  rw [splice, hp]
  rcases h with rfl | rfl
  · cases v with
    | blob form data => exact .inr (.inl ⟨data, rfl⟩)
    | _ => exact .inr (.inr rfl)
  · cases v with
    | blob form data => exact .inl ⟨data, rfl⟩
    | _ => exact .inr (.inr rfl)

theorem readBody_splice_bits_or_hex {delimiter : Text} {place : Place}
    (hp : Place.ofDelimiter? delimiter = some place) (hplace : place = .bits ∨ place = .hex)
    (h : splice surroundings options delimiter v = .ok b) :
    readBody apostrophe false b = .inside := by
  -- Bytes are written in digits, all else with its quotes doubled.
  rcases splice_bits_or_hex (v := v) hp hplace with ⟨data, he⟩ | ⟨data, he⟩ | he
  · rw [he, Except.ok.injEq] at h
    rw [← h]
    exact readBody_of_isAlphanum (by decide) fun c => isAlphanum_of_mem_hexBytes
  · rw [he, Except.ok.injEq] at h
    rw [← h]
    exact readBody_of_isAlphanum (by decide) fun c => isAlphanum_of_mem_bitsOfHex
  · rw [he] at h
    exact readBody_of_plainBody h

/-- The text of a value in its apostrophes stays inside of them. -/
theorem readBody_splice {q : Quote} (hq : q.isName = false)
    (h : splice surroundings options q.opener v = .ok b) :
    readBody q.mark q.escapes b = .inside := by
  have hp := Place.ofDelimiter?_opener q
  cases q with
  | string =>
    rw [splice_eq_spliceString hp nofun nofun nofun] at h
    exact readBody_of_plainBody h
  | escape upper =>
    rw [splice_eq_spliceString hp nofun nofun nofun] at h
    obtain rfl := Except.ok.inj h
    exact readBody_escapeBody _
  | bits upper => exact readBody_splice_bits_or_hex hp (.inl rfl) h
  | hex upper => exact readBody_splice_bits_or_hex hp (.inr rfl) h
  | unicode upper =>
    rw [splice_eq_spliceString hp nofun nofun nofun] at h
    obtain rfl := Except.ok.inj h
    exact readBody_unicodeBody (.inl rfl) _
  | name => simp [Quote.isName] at hq
  | unicodeName upper => simp [Quote.isName] at hq

/-- The text of a value between its dollar tags. -/
theorem fitsBetween_splice {tag : Text} (ht : isTag tag)
    (h : splice surroundings options tag v = .ok b) : fitsBetween tag b := by
  rw [splice_eq_spliceString (Place.ofDelimiter?_tag ht) nofun nofun nofun, spliceString] at h
  cases hw : withoutNul tag (spliceText surroundings options v) with
  | error e => simp [hw, Except.bind] at h
  | ok t =>
    simp only [hw, Except.bind, embed] at h
    split at h
    · rename_i hfits
      exact Except.ok.inj h ▸ hfits
    · cases h

/-- No value can be written into a comment. -/
theorem splice_of_inComment {s : State} (hs : inComment (some s)) :
    splice surroundings options s.opener v = .error (.unescapableDelimiter s.opener) := by
  have hplace : Place.ofDelimiter? s.opener = none := by
    cases s with
    | lineComment | blockComment depth => rfl
    | quoted q | dollar tag | continuation => contradiction
  rw [splice, hplace]

end Postgres

/-! ### Both families -/

/-- Whether an open construct of the family is a string. -/
def Family.IsString : (f : Family) → f.Open → Prop
  | .mysql, q => q.IsString
  | .postgres, s => s.IsString

/-- A text that a value gets inside an open string leaves the string open, and what follows
it is read as if it followed directly. -/
theorem splice_transparent (f : Family) {s : f.Open} (hs : f.IsString s)
    (h : f.grammar.splice surroundings options (f.grammar.lexer.opener s) v = .ok b) :
    f.grammar.lexer.transition (some s) b = .ok (some s) ∧
      ∀ rest, Agree (f.grammar.lexer.transition (some s) (b ++ rest))
        (f.grammar.lexer.transition (some s) rest) := by
  cases f with
  | mysql =>
    have hb : readBody (MySQL.Quote.mark s) true b = .inside := MySQL.readBody_splice hs h
    exact ⟨MySQL.transition_quoted_of_inside hb, MySQL.transition_quoted_append hb⟩
  | postgres =>
    cases s with
    | quoted q =>
      have hb := Postgres.readBody_splice hs h
      exact ⟨Postgres.transition_quoted_of_inside hb, Postgres.transition_quoted_append hb⟩
    | dollar tag =>
      have hb := Postgres.fitsBetween_splice hs h
      exact ⟨Postgres.transition_dollar_of_fitsBetween hb,
        Postgres.transition_dollar_append hs hb⟩
    | lineComment => exact hs.elim
    | blockComment depth => exact hs.elim
    | continuation => exact hs.elim

/-- In a string with escapes a quote is written twice, and a backslash, too. -/
theorem splice_transparent_escape :
    let s : Postgres.State := .quoted (.escape true)
    let b := "it''s \\\\".toList
    Family.postgres.IsString s ∧
      Postgres.grammar.splice ⟨defaultMinter.policy, .zero⟩ .default s.opener
        (.ofText "it's \\".toList) = .ok b ∧
      Postgres.lexer.transition (some s) b = .ok (some s) ∧
      ∀ rest, Agree (Postgres.lexer.transition (some s) (b ++ rest))
        (Postgres.lexer.transition (some s) rest) := by
  intro s b
  have hs : Family.postgres.IsString s := rfl
  have hb : Postgres.grammar.splice ⟨defaultMinter.policy, .zero⟩ .default s.opener
      (.ofText "it's \\".toList) = .ok b := rfl
  exact ⟨hs, hb, splice_transparent .postgres hs hb⟩

end SqlWeave
