/-
SqlWeave/Proofs/Postgres/Decoding.lean

How Postgres reads the bodies of its strings back.  With escapes, a backslash takes as many digits
as it can, or a single character; with code points, it takes four digits.  A number is written
with all the digits that its escape can take, so that no digit behind it is taken for one more.

Main results: bodies with escapes (`stands_escapeBody`) and with code points
(`stands_unicodeBody`) read back as the text they are made from, and so does a string literal, of
either kind (`quoteString_reads`).
-/
import SqlWeave.Proofs.Decoding
import SqlWeave.Proofs.Text.Digits

namespace SqlWeave.Postgres

open Text

/-! ### The rules of the server -/

/-- What a backslash and a single character behind it stand for. -/
def escapedChar (c : Char) : Char :=
  if c = 'b' then backspace
  else if c = 'f' then '\x0c'
  else if c = 'n' then '\n'
  else if c = 'r' then '\r'
  else if c = 't' then '\t'
  else c

/-- A byte in one or two hexadecimal digits behind an `x`, or in one to three octal digits, or a
single character.  Of an octal number, the lowest byte counts. -/
def readEscape : Text → Option (Text × Text)
  | [] => none
  | c :: rest =>
    let hex := leadingDigits 16 2 rest
    let octal := leadingDigits 8 3 (c :: rest)
    if c = 'x' ∧ hex ≠ [] then some ([Char.ofNat (valueOf 16 hex)], rest.drop hex.length)
    else if octal ≠ [] then
      some ([Char.ofNat (valueOf 8 octal % 256)], (c :: rest).drop octal.length)
    else some ([escapedChar c], rest)

/-- A code point in four hexadecimal digits. -/
def readCodePoint (t : Text) : Option (Text × Text) :=
  let digits := leadingDigits 16 4 t
  if digits.length = 4 then some ([Char.ofNat (valueOf 16 digits)], t.drop digits.length)
  else none

/-- What an escape takes: a character, and letters or digits behind it. -/
inductive Takes : (text rest : Text) → Prop
  | intro (c : Char) (digits rest : Text) (h : ∀ d ∈ digits, d.isAlphanum) :
      Takes (c :: (digits ++ rest)) rest

theorem Takes.suffix {text rest : Text} (h : Takes text rest) : rest <:+ text := by
  obtain ⟨c, digits, rest, -⟩ := h
  exact (List.suffix_append digits rest).trans (List.suffix_cons c _)

theorem isAlphanum_of_mem_leadingDigits {base width : Nat} (hle : base ≤ 16) {t : Text} {d : Char}
    (hd : d ∈ leadingDigits base width t) : d.isAlphanum :=
  isAlphanum_of_digitValue_lt (Nat.lt_of_lt_of_le (digitValue_lt_of_mem_leadingDigits hd) hle)

/-- A letter and the digits behind it. -/
theorem takes_cons_digits {base width : Nat} (hle : base ≤ 16) (c : Char) (t : Text) :
    Takes (c :: t) (t.drop (leadingDigits base width t).length) := by
  have htakes := Takes.intro c (leadingDigits base width t)
    (t.drop (leadingDigits base width t).length) fun _ => isAlphanum_of_mem_leadingDigits hle
  rwa [leadingDigits_append_drop] at htakes

/-- Digits and nothing before them. -/
theorem takes_digits {base width : Nat} (hle : base ≤ 16) {t : Text}
    (h : leadingDigits base width t ≠ []) :
    Takes t (t.drop (leadingDigits base width t).length) := by
  have ht := leadingDigits_append_drop base width t
  obtain ⟨c, digits, hcons⟩ := List.exists_cons_of_ne_nil h
  have hdigits : ∀ d ∈ digits, d.isAlphanum := by
    intro d hd
    have hmem : d ∈ leadingDigits base width t := by simp [hcons, hd]
    exact isAlphanum_of_mem_leadingDigits hle hmem
  rw [hcons] at ht ⊢
  have htakes := Takes.intro c digits (t.drop (c :: digits).length) hdigits
  rwa [← List.cons_append, ht] at htakes

theorem takes_of_readEscape {t meant rest : Text} (h : readEscape t = some (meant, rest)) :
    Takes t rest := by
  cases t with
  | nil => contradiction
  | cons c t =>
    simp only [readEscape] at h
    split at h
    · obtain ⟨-, rfl⟩ := Prod.ext_iff.1 (Option.some.inj h)
      exact takes_cons_digits (by decide) c t
    split at h
    · rename_i hoctal
      obtain ⟨-, rfl⟩ := Prod.ext_iff.1 (Option.some.inj h)
      exact takes_digits (by decide) hoctal
    · obtain ⟨-, rfl⟩ := Prod.ext_iff.1 (Option.some.inj h)
      exact .intro c [] t (by simp)

/-- Four digits are read as one character. -/
theorem readCodePoint_eq_some {t meant rest : Text} (h : readCodePoint t = some (meant, rest)) :
    ∃ digits, t = digits ++ rest ∧ (∀ d ∈ digits, d.isAlphanum) ∧ digits.length = 4 ∧
      meant.length = 1 := by
  simp only [readCodePoint] at h
  split at h
  · rename_i hlength
    obtain ⟨rfl, rfl⟩ := Prod.mk.inj (Option.some.inj h)
    exact ⟨_, (leadingDigits_append_drop 16 4 t).symm,
      fun d => isAlphanum_of_mem_leadingDigits (by decide), hlength, rfl⟩
  · contradiction

theorem takes_of_readCodePoint {t meant rest : Text} (h : readCodePoint t = some (meant, rest)) :
    Takes t rest := by
  obtain ⟨digits, rfl, hdigits, hlength, -⟩ := readCodePoint_eq_some h
  cases digits with
  | nil => simp at hlength
  | cons c digits => exact .intro c digits rest fun d hd => hdigits d (by simp [hd])

/-- The rule of strings with escapes. -/
def escapes : EscapeRule where
  read := readEscape
  read_suffix h := (takes_of_readEscape h).suffix

/-- The rule of strings and identifiers with code points. -/
def codePoints : EscapeRule where
  read := readCodePoint
  read_suffix h := (takes_of_readCodePoint h).suffix

/-! ### Bodies -/

variable {mark c : Char}

/-- Letters and digits stand for themselves. -/
theorem stands_of_isAlphanum {rule : EscapeRule} {t : Text} (hm : mark.isAlphanum = false)
    (h : ∀ c ∈ t, c.isAlphanum) : Stands mark rule t t := by
  have hstands : Stands mark rule (t.flatMap fun c => [c]) t :=
    .flatMap fun c hc =>
      .single (ne_of_isAlphanum (h c hc) hm) (ne_of_isAlphanum (h c hc) (by decide))
  rwa [List.flatMap_singleton'] at hstands

/-- A character that needs it is written as an escape, but an apostrophe is written twice. -/
theorem exists_escapeChar_eq (h : isMeta c) (hc : c ≠ apostrophe) :
    ∃ u, escapeChar c = backslash :: u ∧ ∀ rest, readEscape (u ++ rest) = some ([c], rest) := by
  rcases isMeta_iff.1 h with rfl | rfl | rfl | rfl | rfl | rfl | rfl | rfl | rfl | rfl
  · exact ⟨['x', '0', '0'], rfl, fun rest => rfl⟩
  · exact ⟨['b'], rfl, fun rest => rfl⟩
  · exact ⟨['t'], rfl, fun rest => rfl⟩
  · exact ⟨['n'], rfl, fun rest => rfl⟩
  · exact ⟨['r'], rfl, fun rest => rfl⟩
  · exact ⟨['x', '1', 'a'], rfl, fun rest => rfl⟩
  · exact ⟨[quotation], rfl, fun rest => rfl⟩
  · contradiction
  · exact ⟨[backslash], rfl, fun rest => rfl⟩
  · exact ⟨['$'], rfl, fun rest => rfl⟩

theorem escapeChar_of_not_isMeta (h : isMeta c = false) : escapeChar c = [c] := by
  have hnot : ¬isMeta c := by simp [h]
  simp only [isMeta_iff, not_or] at hnot
  simp [escapeChar, h, hnot]

theorem stands_escapeChar (c : Char) : Stands apostrophe escapes (escapeChar c) [c] := by
  by_cases hc : c = apostrophe
  · rw [hc]
    exact .twice
  cases h : isMeta c with
  | true =>
    obtain ⟨u, hwritten, hread⟩ := exists_escapeChar_eq h hc
    rw [hwritten]
    exact .escaped (by decide) hread
  | false =>
    rw [escapeChar_of_not_isMeta h]
    refine .single hc ?_
    rintro rfl
    contradiction

theorem stands_escapeBody (t : Text) : Stands apostrophe escapes (escapeBody t) t :=
  .flatMap fun c _ => stands_escapeChar c

/-- Four digits hold every character that is spelled out. -/
theorem toNat_lt_of_isMeta (h : isMeta c) : c.toNat < Nat.pow 16 4 := by
  rcases isMeta_iff.1 h with rfl | rfl | rfl | rfl | rfl | rfl | rfl | rfl | rfl | rfl <;> decide

theorem readCodePoint_paddedDigits (h : c.toNat < Nat.pow 16 4) (rest : Text) :
    readCodePoint (paddedDigits 16 4 c.toNat ++ rest) = some ([c], rest) := by
  have hlength := length_paddedDigits 16 4 c.toNat
  have hdigits : leadingDigits 16 4 (paddedDigits 16 4 c.toNat ++ rest) =
      paddedDigits 16 4 c.toNat :=
    leadingDigits_append hlength
      (fun _ => digitValue_lt_of_mem_paddedDigits (by decide) (by decide)) rest
  have hvalue : Char.ofNat (valueOf 16 (paddedDigits 16 4 c.toNat)) = c := by
    rw [valueOf_paddedDigits (by decide) (by decide), Nat.mod_eq_of_lt h, Char.ofNat_toNat]
  simp only [readCodePoint, hdigits, hlength, hvalue, if_true]
  rw [List.drop_left' hlength]

theorem stands_unicodeChar (hm : mark = apostrophe ∨ mark = quotation) (c : Char) :
    Stands mark codePoints (unicodeChar c) [c] := by
  have hmeta : isMeta mark := by rcases hm with rfl | rfl <;> rfl
  have hne : mark ≠ backslash := by rcases hm with rfl | rfl <;> decide
  unfold unicodeChar
  split
  · rename_i h
    exact .escaped hne (readCodePoint_paddedDigits (toNat_lt_of_isMeta h))
  · rename_i h
    apply Stands.single
    · rintro rfl
      exact h hmeta
    · rintro rfl
      exact h rfl

theorem stands_unicodeBody (hm : mark = apostrophe ∨ mark = quotation) (t : Text) :
    Stands mark codePoints (unicodeBody t) t :=
  .flatMap fun c _ => stands_unicodeChar hm c

/-! ### Literals -/

/-- A string literal is a plain one, without the zero character, or one with escapes, and reads
back by the rule of its kind. -/
theorem quoteString_reads (t : Text) :
    (∃ body, quoteString t = between apostrophe body ∧ nul ∉ body ∧
        decode apostrophe .noEscapes body = some (t, [])) ∨
      ∃ body, quoteString t = 'E' :: between apostrophe body ∧
        decode apostrophe escapes body = some (t, []) := by
  unfold quoteString
  split
  · exact .inr ⟨_, rfl, (stands_escapeBody t).decode_eq⟩
  · rename_i hneeds
    refine .inl ⟨_, rfl, ?_, (stands_doubled (by decide) t).decode_eq⟩
    intro hnul
    apply hneeds
    rw [needsEscapes, List.any_eq_true]
    exact ⟨nul, mem_doubled_iff.1 hnul, by decide⟩

end SqlWeave.Postgres
