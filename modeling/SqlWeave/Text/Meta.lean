/-
SqlWeave/Text/Meta.lean

The characters that a string literal may have to spell out.
-/
import SqlWeave.Text.Basic

namespace SqlWeave.Text

/-- The end of file of some consoles. -/
abbrev substitute : Char := '\x1a'

/-- The backspace. -/
abbrev backspace : Char := '\x08'

/-- Whether a string literal of some dialect has to spell out the character. -/
def isMeta (c : Char) : Bool :=
  c = nul || c = backspace || c = '\t' || c = '\n' || c = '\r' || c = substitute ||
    c = quotation || c = apostrophe || c = backslash || c = '$'

theorem isMeta_iff {c : Char} : isMeta c ↔
    c = nul ∨ c = backspace ∨ c = '\t' ∨ c = '\n' ∨ c = '\r' ∨ c = substitute ∨
      c = quotation ∨ c = apostrophe ∨ c = backslash ∨ c = '$' := by
  simp [isMeta, or_assoc]

/-- Every `mark` written twice. -/
def doubled (mark : Char) (t : Text) : Text := t.flatMap fun c => if c = mark then [c, c] else [c]

@[simp] theorem doubled_nil (mark : Char) : doubled mark [] = [] := rfl

theorem mem_doubled_iff {mark c : Char} {t : Text} : c ∈ doubled mark t ↔ c ∈ t := by
  simp only [doubled, List.mem_flatMap]
  constructor
  · rintro ⟨d, hd, hc⟩
    split at hc <;> simp_all
  · intro hc
    exact ⟨c, hc, by split <;> simp⟩

theorem doubled_append (mark : Char) (a b : Text) :
    doubled mark (a ++ b) = doubled mark a ++ doubled mark b := by
  simp [doubled]

end SqlWeave.Text
