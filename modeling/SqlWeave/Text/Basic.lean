/-
SqlWeave/Text/Basic.lean

Text is a list of characters.  Scanners take the text that is still to be read and
give back what is left of it, so no offset is ever kept.

Main results: a text with an occurrence of a piece is a front, the piece and what follows
it (`append_of_afterFirst?`), and what starts at the last occurrence of a character is a
tail of the text (`fromLast?_suffix`).
-/

namespace SqlWeave

/-- SQL text, value text and message text alike. -/
abbrev Text := List Char

namespace Text

/-! ### Characters with a part to play -/

/-- The quote of string constants. -/
abbrev apostrophe : Char := '\x27'

/-- The double quote. -/
abbrev quotation : Char := '\x22'

/-- The quote of MySQL identifiers. -/
abbrev backtick : Char := '\x60'

/-- The escape character of quoted bodies. -/
abbrev backslash : Char := '\\'

/-- The zero character, which Postgres text cannot hold. -/
abbrev nul : Char := '\x00'

/-- A line comment ends at the first of these. -/
def isLineBreak (c : Char) : Bool := c = '\r' || c = '\n'

/-- The blanks that both dialects skip between tokens. -/
def isBlank (c : Char) : Bool := c = '\t' || c = '\r' || c = '\n' || c = ' '

/-! ### Searching -/

/-- What follows `piece`, when the text begins with it. -/
def afterStart? : (piece : Text) → Text → Option Text
  | [], text => some text
  | _ :: _, [] => none
  | a :: piece, c :: text => if a = c then afterStart? piece text else none

/-- What follows the first occurrence of `piece`. -/
def afterFirst? (piece : Text) : Text → Option Text
  | [] => afterStart? piece []
  | c :: rest => (afterStart? piece (c :: rest)).or (afterFirst? piece rest)

/-- Whether `piece` occurs. -/
def holds (piece text : Text) : Bool := (afterFirst? piece text).isSome

/-- The end of the text from the last `mark` on. -/
def fromLast? (mark : Char) : Text → Option Text
  | [] => none
  | c :: rest => (fromLast? mark rest).or (if c = mark then some (c :: rest) else none)

theorem afterStart?_eq_some_iff {piece text rest : Text} :
    afterStart? piece text = some rest ↔ text = piece ++ rest := by
  fun_induction afterStart? piece text with
  | case1 => simp
  | case2 => simp
  | case3 a piece text ih => simp [ih]
  | case4 a piece c text h => simp [Ne.symm h]

theorem append_of_afterFirst? {piece text rest : Text} (h : afterFirst? piece text = some rest) :
    ∃ front, text = front ++ (piece ++ rest) := by
  induction text with
  | nil => exact ⟨[], by simpa using afterStart?_eq_some_iff.1 h⟩
  | cons c t ih =>
    rw [afterFirst?, Option.or_eq_some_iff] at h
    rcases h with h | ⟨-, h⟩
    · exact ⟨[], by simpa using afterStart?_eq_some_iff.1 h⟩
    · obtain ⟨front, rfl⟩ := ih h
      exact ⟨c :: front, rfl⟩

theorem afterFirst?_suffix {piece text rest : Text} (h : afterFirst? piece text = some rest) :
    rest <:+ text := by
  obtain ⟨front, rfl⟩ := append_of_afterFirst? h
  exact ⟨front ++ piece, by simp⟩

theorem fromLast?_suffix {mark : Char} {text tail : Text} (h : fromLast? mark text = some tail) :
    tail <:+ text := by
  induction text with
  | nil => simp [fromLast?] at h
  | cons c t ih =>
    rw [fromLast?, Option.or_eq_some_iff] at h
    rcases h with h | ⟨-, h⟩
    · exact (ih h).trans (List.suffix_cons c t)
    · split at h
      · simp at h
        exact h ▸ List.suffix_rfl
      · simp at h

/-! ### Writing -/

/-- A separator between list items. -/
def comma : Text := [',', ' ']

/-- The items with `", "` between them. -/
def commaJoin (items : List Text) : Text := comma.intercalate items

/-- A text between two marks. -/
def between (mark : Char) (body : Text) : Text := mark :: (body ++ [mark])

/-- ASCII letters in lower case, all else as it is. -/
def folded (t : Text) : Text := t.map Char.toLower

/-- The digits of a natural number. -/
def ofNat (n : Nat) : Text := Nat.toDigits 10 n

/-- The digits of an integer, after a minus if it is negative.  The integers that are written have
at most 4300 digits: above that the conversion is refused, which is not modelled. -/
def ofInt : Int → Text
  | .ofNat n => ofNat n
  | .negSucc n => '-' :: ofNat (n + 1)

/-- The last `width` digits of `n` in a base up to sixteen, with zeros in front as needed. -/
def paddedDigits (base : Nat) : (width : Nat) → (n : Nat) → Text
  | 0, _ => []
  | width + 1, n => paddedDigits base width (n / base) ++ [Nat.digitChar (n % base)]

@[simp] theorem length_paddedDigits (base width n : Nat) :
    (paddedDigits base width n).length = width := by
  induction width generalizing n with
  | zero => rfl
  | succ width ih => simp [paddedDigits, ih]

/-- The two hexadecimal digits of a byte. -/
def hexByte (b : UInt8) : Text := paddedDigits 16 2 b.toNat

/-- The hexadecimal digits of some bytes. -/
def hexBytes (bytes : List UInt8) : Text := bytes.flatMap hexByte

@[simp] theorem length_hexBytes (bytes : List UInt8) :
    (hexBytes bytes).length = 2 * bytes.length := by
  induction bytes with
  | nil => rfl
  | cons b bytes ih => simp_all [hexBytes, hexByte]; omega

end Text

end SqlWeave
