/-
SqlWeave/Proofs/Postgres/Literal.lean

What Postgres writes into an open string stays inside of it, because it reads back as a text, and
which rule of writing belongs to which opener.

Main results: bodies with escapes (`readBody_escapeBody`), with code points
(`readBody_unicodeBody`) and without either (`readBody_of_plainBody`) have no end, and every
construct that can be opened in apostrophes, double quotes or dollar tags has its rule
(`Place.ofDelimiter?_opener`, `Place.ofDelimiter?_tag`).
-/
import SqlWeave.Proofs.Postgres.Decoding
import SqlWeave.Proofs.Postgres.Opener

namespace SqlWeave.Postgres

open Text

/-! ### Bodies -/

/-- A text of letters and digits is inside any body. -/
theorem readBody_of_isAlphanum {mark : Char} {escapes : Bool} {t : Text}
    (hm : mark.isAlphanum = false) (h : ∀ c ∈ t, c.isAlphanum) :
    readBody mark escapes t = .inside := by
  apply readBody_of_forall
  intro c hc
  have hback : c ≠ backslash := ne_of_isAlphanum (h c hc) (by decide)
  exact ⟨ne_of_isAlphanum (h c hc) hm, fun he => hback he.2⟩

/-- The lexer takes the first character of an escape, and the rest of it is no quote. -/
theorem readBody_of_takes {mark : Char} (hm : mark = apostrophe ∨ mark = quotation)
    {t rest : Text} (h : Takes t rest) :
    readBody mark true (backslash :: t) = readBody mark true rest := by
  have halnum : mark.isAlphanum = false := by rcases hm with rfl | rfl <;> decide
  have hne : mark ≠ backslash := by rcases hm with rfl | rfl <;> decide
  obtain ⟨c, digits, rest, hdigits⟩ := h
  rw [readBody_escaped hne, readBody_append_of_inside (readBody_of_isAlphanum halnum hdigits)]

theorem readBody_escapeBody (t : Text) : readBody apostrophe true (escapeBody t) = .inside :=
  readBody_of_decode (fun h => readBody_of_takes (.inl rfl) (takes_of_readEscape h))
    (stands_escapeBody t).decode_eq

theorem readBody_unicodeBody {mark : Char} (hm : mark = apostrophe ∨ mark = quotation)
    (t : Text) : readBody mark true (unicodeBody t) = .inside :=
  readBody_of_decode (fun h => readBody_of_takes hm (takes_of_readCodePoint h))
    (stands_unicodeBody hm t).decode_eq

theorem readBody_of_plainBody {mark : Char} {delimiter t b : Text}
    (h : plainBody mark delimiter t = .ok b) : readBody mark false b = .inside := by
  obtain ⟨u, -, rfl⟩ : ∃ u, withoutNul delimiter t = .ok u ∧ doubled mark u = b := by
    cases hw : withoutNul delimiter t with
    | error e => simp [plainBody, hw, Except.map] at h
    | ok u => exact ⟨u, rfl, by simpa [plainBody, hw, Except.map] using h⟩
  exact readBody_doubled (by simp)

/-! ### Places -/

/-- The rules for a value inside quotes. -/
def Quote.place : Quote → Place
  | .string => .plain
  | .escape _ => .escape
  | .bits _ => .bits
  | .hex _ => .hex
  | .unicode _ => .unicode
  | .name => .name false
  | .unicodeName _ => .name true

theorem Quote.mark_folded (q : Quote) : q.folded.mark = q.mark := by cases q <;> rfl

theorem Quote.escapes_folded (q : Quote) : q.folded.escapes = q.escapes := by cases q <;> rfl

theorem Quote.place_folded (q : Quote) : q.folded.place = q.place := by cases q <;> rfl

theorem Quote.isName_folded (q : Quote) : q.folded.isName = q.isName := by cases q <;> rfl

theorem Place.ofDelimiter?_opener (q : Quote) : Place.ofDelimiter? q.opener = some q.place := by
  cases q with
  | string => rfl
  | name => rfl
  | escape upper => cases upper <;> rfl
  | bits upper => cases upper <;> rfl
  | hex upper => cases upper <;> rfl
  | unicode upper => cases upper <;> rfl
  | unicodeName upper => cases upper <;> rfl

theorem Place.ofDelimiter?_tag {tag : Text} (h : isTag tag) :
    Place.ofDelimiter? tag = some .dollar := by
  have hfolded : tag.folded ≠ ['e'] := by
    obtain ⟨name, -, -, rfl⟩ := isTag_iff.1 h
    simp [folded]
  rw [Place.ofDelimiter?, if_neg hfolded, if_pos h]

end SqlWeave.Postgres
