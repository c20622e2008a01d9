/-
SqlWeave/Proofs/ReadBack.lean

Strings read back.  What is written for a text, as a literal or inside an open string, the server
reads as that text by the rule of the string: nothing is lost, and no character becomes part of
an escape that it was not written for.

Main results: `MySQL.bodies_read_back` for the one rule of MySQL, and `Postgres.strings_read_back`
for the several rules of Postgres, where the zero character is kept if it can be spelled out and
refused in all other strings.
-/
import Mathlib
import SqlWeave.Proofs.Series
import SqlWeave.Proofs.Splice

namespace SqlWeave

open Text

/-! ### MySQL -/

namespace MySQL

/-- An escaped text reads back as the text to the end of the body, and in its quotes up to the
closing one.  So different texts are different literals, and every value that is written into an
open string reads back as its text. -/
theorem bodies_read_back {q : Quote} (hq : q.IsString) :
    (∀ t, decode q.mark escapes (escapeBody t) = some (t, [])) ∧
      (∀ t rest, rest.head? ≠ some q.mark →
        decode q.mark escapes (escapeBody t ++ q.mark :: rest) = some (t, q.mark :: rest)) ∧
      Function.Injective quoteString ∧
      ∀ surroundings options v, ∃ b, splice surroundings options [q.mark] v = .ok b ∧
        decode q.mark escapes b = some (spliceText surroundings options v, []) := by
  refine ⟨decode_escapeBody hq, ?_, quoteString_injective, ?_⟩
  · exact fun t rest => (stands_escapeBody hq t).decode_append_mark
  · exact fun surroundings options v => ⟨_, splice_of_isString hq, decode_escapeBody hq _⟩

/-- In double quotes: a backslash, a percent sign, a double quote and a control character in
front of a digit. -/
theorem bodies_read_back_double :
    let t : Text := [backslash, '%', quotation, substitute, '0']
    let b := "\\\\%\\\"\\Z0".toList
    Quote.IsString .double ∧ escapeBody t = b ∧ decode quotation escapes b = some (t, []) ∧
      decode quotation escapes (b ++ [quotation, ',']) = some (t, [quotation, ',']) := by
  intro t b
  have hq : Quote.IsString .double := by decide
  have hb : escapeBody t = b := by decide
  obtain ⟨hbody, hliteral, -⟩ := bodies_read_back hq
  exact ⟨hq, hb, hb ▸ hbody t, hb ▸ hliteral t [','] (by decide)⟩

end MySQL

/-! ### Postgres -/

namespace Postgres

/-- The rule by which the body of a quoted construct is read. -/
def Quote.rule : Quote → EscapeRule
  | .escape _ => Postgres.escapes
  | .unicode _ | .unicodeName _ => codePoints
  | .string | .bits _ | .hex _ | .name => .noEscapes

theorem Quote.rule_folded (q : Quote) : q.folded.rule = q.rule := by cases q <;> rfl

namespace State

/-- Whether `b`, written where a construct is open, stands for `t`. -/
def ReadsAs : State → (b t : Text) → Prop
  | quoted q, b, t => decode q.mark q.rule b = some (t, [])
  | continuation, b, t =>
    ∃ body, b = between apostrophe body ∧ decode apostrophe Postgres.escapes body = some (t, [])
  | dollar _, b, t => b = t
  | lineComment, _, _ | blockComment _, _, _ => False

/-- Whether the zero character can be spelled out in a construct. -/
def spellsNul : State → Bool
  | quoted (.escape _) | quoted (.unicode _) | continuation => true
  | _ => false

/-- Whether a construct is a string, or the end of one that may be taken up again. -/
def TakesText (s : State) : Prop := s.IsString ∨ s = .continuation

/-- Whether a text can stand in a construct as it is, if it holds no zero character: between
dollar tags, no tag may come of it. -/
def Fits : State → Text → Prop
  | dollar tag, t => fitsBetween tag t
  | _, _ => True

/-- Whether a value is written in digits where a construct is open, and not as its text. -/
def takesDigits : State → Value → Bool
  | quoted (.bits _), .blob .. | quoted (.hex _), .blob .. => true
  | _, _ => false

end State

variable {surroundings : Surroundings} {options : Options} {v : Value} {s : State} {b : Text}

/-! ### Where the zero character can be spelled out -/

theorem splice_escape (upper : Bool) :
    splice surroundings options (Quote.escape upper).opener v =
      .ok (escapeBody (spliceText surroundings options v)) := by
  have hp : Place.ofDelimiter? (Quote.escape upper).opener = some .escape :=
    Place.ofDelimiter?_opener _
  exact splice_eq_spliceString hp (by simp) (by simp) (by simp)

theorem splice_unicode (upper : Bool) :
    splice surroundings options (Quote.unicode upper).opener v =
      .ok (unicodeBody (spliceText surroundings options v)) := by
  have hp : Place.ofDelimiter? (Quote.unicode upper).opener = some .unicode :=
    Place.ofDelimiter?_opener _
  exact splice_eq_spliceString hp (by simp) (by simp) (by simp)

theorem splice_continuation : splice surroundings options State.continuation.opener v =
    .ok (between apostrophe (escapeBody (spliceText surroundings options v))) := by
  have hp : Place.ofDelimiter? State.continuation.opener = some .continuation := rfl
  exact splice_eq_spliceString hp (by simp) (by simp) (by simp)

/-- Every value is written, and as its text. -/
theorem exists_splice_readsAs (surroundings : Surroundings) (options : Options) (v : Value)
    (hs : s.spellsNul) :
    ∃ b, splice surroundings options s.opener v = .ok b ∧
      s.ReadsAs b (spliceText surroundings options v) := by
  cases s with
  | quoted q =>
    cases q with
    | escape upper => exact ⟨_, splice_escape upper, (stands_escapeBody _).decode_eq⟩
    | unicode upper => exact ⟨_, splice_unicode upper, (stands_unicodeBody (.inl rfl) _).decode_eq⟩
    | string | bits upper | hex upper | name | unicodeName upper => contradiction
  | continuation => exact ⟨_, splice_continuation, _, rfl, (stands_escapeBody _).decode_eq⟩
  | lineComment | blockComment depth | dollar tag => contradiction

/-! ### Where it cannot -/

/-- In strings without escapes, whether they hold text or bits. -/
theorem splice_of_not_escapes {q : Quote} (hname : q.isName = false) (hq : q.escapes = false)
    (hv : (State.quoted q).takesDigits v = false) :
    splice surroundings options q.opener v =
      plainBody apostrophe q.opener (spliceText surroundings options v) := by
  have hp := Place.ofDelimiter?_opener q
  cases q with
  | string => exact splice_eq_spliceString hp (by simp [Quote.place]) (by decide) (by decide)
  | bits upper | hex upper =>
    rw [splice, hp]
    cases v with
    | blob form data => contradiction
    | _ => rfl
  | escape upper | unicode upper | name | unicodeName upper => contradiction

theorem splice_dollar {tag : Text} (ht : isTag tag) :
    splice surroundings options tag v =
      (withoutNul tag (spliceText surroundings options v)).bind
        (embed (shownAs v (spliceText surroundings options v)) tag) :=
  splice_eq_spliceString (Place.ofDelimiter?_tag ht) (by simp) (by simp) (by simp)

theorem decode_doubled {q : Quote} (hname : q.isName = false) (hq : q.escapes = false) (t : Text) :
    decode q.mark q.rule (doubled apostrophe t) = some (t, []) := by
  have hmark : q.mark = apostrophe := by simp [Quote.mark, hname]
  have hrule : q.rule = .noEscapes := by cases q <;> first | rfl | contradiction
  rw [hmark, hrule]
  exact (stands_doubled (by decide) t).decode_eq

/-- A text is looked over for the zero character first.  What is then written reads back as it,
and only a dollar tag can keep it from being written. -/
theorem exists_splice_eq_bind (surroundings : Surroundings) (options : Options)
    (hs : s.TakesText) (hv : s.takesDigits v = false) (hspells : s.spellsNul = false) :
    ∃ write : Text → Except Failure Text,
      splice surroundings options s.opener v =
        (withoutNul s.opener (spliceText surroundings options v)).bind write ∧
      (∀ t b, write t = .ok b → s.ReadsAs b t) ∧
      ∀ t, s.Fits t → ∃ b, write t = .ok b := by
  cases s with
  | quoted q =>
    have hname : q.isName = false := hs.resolve_right (by simp)
    have hq : q.escapes = false := by
      cases q with
      | escape upper | unicode upper | name | unicodeName upper => contradiction
      | string | bits upper | hex upper => rfl
    refine ⟨fun t => .ok (doubled apostrophe t), splice_of_not_escapes hname hq hv, ?_, ?_⟩
    · intro t b hb
      exact Except.ok.inj hb ▸ decode_doubled hname hq t
    · exact fun t _ => ⟨_, rfl⟩
  | dollar tag =>
    refine ⟨_, splice_dollar (hs.resolve_right (by simp)), ?_, ?_⟩
    · intro t b hb
      rw [embed] at hb
      split at hb
      · exact (Except.ok.inj hb).symm
      · contradiction
    · exact fun t ht => ⟨t, if_pos ht⟩
  | continuation => contradiction
  | lineComment | blockComment depth => exact (hs.resolve_right (by simp)).elim

theorem readsAs_of_splice (hs : s.TakesText) (hv : s.takesDigits v = false)
    (h : splice surroundings options s.opener v = .ok b) :
    s.ReadsAs b (spliceText surroundings options v) := by
  cases hspells : s.spellsNul with
  | true =>
    obtain ⟨b', hb', hreads⟩ := exists_splice_readsAs surroundings options v hspells
    rw [hb', Except.ok.injEq] at h
    exact h ▸ hreads
  | false =>
    obtain ⟨write, hwrite, hreads, -⟩ := exists_splice_eq_bind surroundings options hs hv hspells
    rw [hwrite] at h
    obtain ⟨t, ht, hb⟩ := Except.bind_eq_ok_iff.1 h
    obtain ⟨-, rfl⟩ := withoutNul_eq_ok_iff.1 ht
    exact hreads _ b hb

theorem exists_splice_eq_ok (hs : s.TakesText) (hv : s.takesDigits v = false)
    (h : s.spellsNul ∨ nul ∉ spliceText surroundings options v ∧
      s.Fits (spliceText surroundings options v)) :
    ∃ b, splice surroundings options s.opener v = .ok b := by
  cases hspells : s.spellsNul with
  | true =>
    obtain ⟨b, hb, -⟩ := exists_splice_readsAs surroundings options v hspells
    exact ⟨b, hb⟩
  | false =>
    obtain ⟨hnul, hfits⟩ := h.resolve_left (by simp [hspells])
    obtain ⟨write, hwrite, -, hok⟩ := exists_splice_eq_bind surroundings options hs hv hspells
    obtain ⟨b, hb⟩ := hok _ hfits
    exact ⟨b, hwrite.trans (Except.bind_eq_ok_iff.2 ⟨_, withoutNul_eq_ok_iff.2 ⟨hnul, rfl⟩, hb⟩)⟩

theorem splice_of_nul_mem (hs : s.TakesText) (hv : s.takesDigits v = false)
    (hspells : s.spellsNul = false) (hnul : nul ∈ spliceText surroundings options v) :
    splice surroundings options s.opener v = .error (.unrepresentable nul s.opener) := by
  obtain ⟨write, hwrite, -⟩ := exists_splice_eq_bind surroundings options hs hv hspells
  have hrefused : withoutNul s.opener (spliceText surroundings options v) =
      .error (.unrepresentable nul s.opener) := by
    simp [withoutNul, hnul]
  rw [hwrite, hrefused]
  rfl

/-- A text reads back from its literal, plain or with escapes, and a value from what is written
for it in an open string, by the rule of that string.  The zero character is kept where it can be
spelled out, and refused elsewhere; nothing else is refused but what does not fit between dollar
tags. -/
theorem strings_read_back :
    (∀ t, (∃ body, quoteString t = between apostrophe body ∧ nul ∉ body ∧
        decode apostrophe .noEscapes body = some (t, [])) ∨
      ∃ body, quoteString t = 'E' :: between apostrophe body ∧
        decode apostrophe escapes body = some (t, [])) ∧
      ∀ surroundings options v (s : State), s.TakesText → s.takesDigits v = false →
        (∀ b, splice surroundings options s.opener v = .ok b →
          s.ReadsAs b (spliceText surroundings options v)) ∧
        (s.spellsNul ∨ nul ∉ spliceText surroundings options v ∧
            s.Fits (spliceText surroundings options v) →
          ∃ b, splice surroundings options s.opener v = .ok b) ∧
        (s.spellsNul = false → nul ∈ spliceText surroundings options v →
          splice surroundings options s.opener v = .error (.unrepresentable nul s.opener)) := by
  refine ⟨quoteString_reads, fun surroundings options v s hs hv => ⟨?_, ?_, ?_⟩⟩
  · exact fun b => readsAs_of_splice hs hv
  · exact exists_splice_eq_ok hs hv
  · exact splice_of_nul_mem hs hv

/-- The zero character and an apostrophe as code points; the same text between dollar tags, where
it is refused; and a dollar between tags that it does not complete. -/
theorem strings_read_back_codePoints :
    let env : Surroundings := ⟨defaultMinter.policy, .zero⟩
    let t : Text := [nul, apostrophe, '0']
    let s : State := .quoted (.unicode true)
    let b := "\\0000\\00270".toList
    let tagged : State := .dollar "$a$".toList
    s.TakesText ∧ s.takesDigits (.ofText t) = false ∧ s.spellsNul ∧
      splice env .default s.opener (.ofText t) = .ok b ∧ s.ReadsAs b t ∧
      tagged.TakesText ∧ tagged.takesDigits (.ofText t) = false ∧ tagged.spellsNul = false ∧
      nul ∈ t ∧
      splice env .default tagged.opener (.ofText t) =
        .error (.unrepresentable nul tagged.opener) ∧
      nul ∉ ['$', '0'] ∧ tagged.Fits ['$', '0'] ∧
      ∃ b, splice env .default tagged.opener (.ofText ['$', '0']) = .ok b := by
  intro env t s b tagged
  have hs : s.TakesText := .inl rfl
  have htag : isTag "$a$".toList := by decide
  have htagged : tagged.TakesText := .inl htag
  have hb : splice env .default s.opener (.ofText t) = .ok b := by cbv
  have hnul : nul ∉ ['$', '0'] := by decide
  have hfits : fitsBetween "$a$".toList ['$', '0'] := by decide
  have hread := (strings_read_back.2 env .default (.ofText t) s hs rfl).1 b hb
  have hrefused := (strings_read_back.2 env .default (.ofText t) tagged htagged rfl).2.2 rfl
  have hwritten := (strings_read_back.2 env .default (.ofText ['$', '0']) tagged htagged rfl).2.1
  exact ⟨hs, rfl, rfl, hb, hread, htagged, rfl, rfl, by decide, hrefused (by decide), hnul, hfits,
    hwritten (.inr ⟨hnul, hfits⟩)⟩

end Postgres

end SqlWeave
