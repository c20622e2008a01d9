/-
SqlWeave/Proofs/MySQL/Literal.lean

What MySQL writes into a string, and how the server reads it back.

Main results: an escaped text reads back as the text (`decode_escapeBody`), so that it is a body
without an end (`readBody_escapeBody`) and different texts are written as different literals
(`quoteString_injective`).
-/
import SqlWeave.Proofs.Decoding
import SqlWeave.MySQL.Grammar

namespace SqlWeave.MySQL

open Text

/-- Whether a quote is one of a string. -/
def Quote.IsString (q : Quote) : Prop := q ≠ .backtick

instance (q : Quote) : Decidable q.IsString := inferInstanceAs (Decidable (q ≠ .backtick))

theorem Quote.mark_ne_backslash (q : Quote) : q.mark ≠ backslash := by
  cases q <;> decide

theorem Quote.IsString.isMeta {q : Quote} (hq : q.IsString) : isMeta q.mark := by
  cases q with
  | single | double => rfl
  | backtick => exact (hq rfl).elim

/-! ### The rule of the server -/

/-- What a backslash and the character behind it stand for.  In front of a percent sign or an
underscore, which have a meaning in patterns, the backslash stays. -/
def escapedChar (c : Char) : Text :=
  if c = '0' then [nul]
  else if c = 'b' then [backspace]
  else if c = 'n' then ['\n']
  else if c = 'r' then ['\r']
  else if c = 't' then ['\t']
  else if c = 'Z' then [substitute]
  else if c = '%' ∨ c = '_' then [backslash, c]
  else [c]

def readEscape : Text → Option (Text × Text)
  | [] => none
  | c :: rest => some (escapedChar c, rest)

theorem readEscape_eq_some_iff {text meant rest : Text} :
    readEscape text = some (meant, rest) ↔ ∃ c, text = c :: rest ∧ escapedChar c = meant := by
  cases text <;> grind [readEscape]

/-- A backslash always takes the character behind it. -/
def escapes : EscapeRule where
  read := readEscape
  read_suffix h := by
    obtain ⟨c, rfl, -⟩ := readEscape_eq_some_iff.1 h
    exact List.suffix_cons c _

/-- The server ends a string where the lexer does. -/
theorem readBody_of_decode {q : Quote} {t u rest : Text}
    (h : decode q.mark escapes t = some (u, rest)) : readBody q.mark true t = endOf rest := by
  refine SqlWeave.readBody_of_decode ?_ h
  intro text meant rest hread
  obtain ⟨c, rfl, -⟩ := readEscape_eq_some_iff.1 hread
  exact readBody_escaped q.mark_ne_backslash

/-! ### Escaped texts -/

/-- A character that needs it is written as a pair that stands for it. -/
theorem exists_escapeChar_eq {c : Char} (h : isMeta c) :
    ∃ d, escapeChar c = [backslash, d] ∧ escapedChar d = [c] := by
  rcases isMeta_iff.1 h with rfl | rfl | rfl | rfl | rfl | rfl | rfl | rfl | rfl | rfl <;>
    exact ⟨_, rfl, rfl⟩

theorem escapeChar_of_not_isMeta {c : Char} (h : isMeta c = false) : escapeChar c = [c] := by
  have hnot : ¬isMeta c := by simp [h]
  simp only [isMeta_iff, not_or] at hnot
  simp [escapeChar, h, hnot]

theorem stands_escapeChar {q : Quote} (hq : q.IsString) (c : Char) :
    Stands q.mark escapes (escapeChar c) [c] := by
  cases h : isMeta c with
  | true =>
    obtain ⟨d, hwritten, hmeant⟩ := exists_escapeChar_eq h
    rw [hwritten]
    refine .escaped (u := [d]) q.mark_ne_backslash fun rest => ?_
    rw [← hmeant]
    rfl
  | false =>
    -- The quotes of strings are among the characters that are escaped, and so is the backslash.
    rw [escapeChar_of_not_isMeta h]
    apply Stands.single
    · rintro rfl
      simp [hq.isMeta] at h
    · rintro rfl
      contradiction

theorem stands_escapeBody {q : Quote} (hq : q.IsString) (t : Text) :
    Stands q.mark escapes (escapeBody t) t :=
  .flatMap fun c _ => stands_escapeChar hq c

theorem decode_escapeBody {q : Quote} (hq : q.IsString) (t : Text) :
    decode q.mark escapes (escapeBody t) = some (t, []) :=
  (stands_escapeBody hq t).decode_eq

theorem readBody_escapeBody {q : Quote} (hq : q.IsString) (t : Text) :
    readBody q.mark true (escapeBody t) = .inside :=
  readBody_of_decode (decode_escapeBody hq t)

theorem quoteString_injective : Function.Injective quoteString := by
  intro t u h
  have hbody : escapeBody t = escapeBody u := by simpa [quoteString, between] using h
  have hread := decode_escapeBody (q := .single) (by decide) t
  rw [hbody, decode_escapeBody (by decide)] at hread
  simpa using hread.symm

end SqlWeave.MySQL
