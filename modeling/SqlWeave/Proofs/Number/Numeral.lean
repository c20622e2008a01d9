/-
SqlWeave/Proofs/Number/Numeral.lean

What the SQL text of a number looks like: a minus at most, a run of letters, digits and points,
and then at most an exponent, with one sign in front of another such run.  So no two signs ever
meet, and a number does not end in one, nor in a letter that could stand before a quote.

Main results: every number is written as such a numeral (`isNumeral_sqlText`).
-/
import SqlWeave.Number.Basic
import SqlWeave.Proofs.Text.Digits

namespace SqlWeave

open Text

/-! ### Numerals -/

/-- The characters of a numeral but its signs. -/
def isNumeralChar (c : Char) : Bool := c.isAlphanum || c = '.'

/-- The characters that a numeral ends with: digits, a point, or the last letter of a word that
stands for a number. -/
def isNumeralEnd (c : Char) : Bool := c.isDigit || c = '.' || c = 'y' || c = 'N'

/-- A run of letters, digits and points. -/
structure IsNumeralRun (t : Text) : Prop where
  ne_nil : t ≠ []
  chars : ∀ c ∈ t, isNumeralChar c

/-- The run that a numeral ends with. -/
structure IsLastRun (t : Text) : Prop extends IsNumeralRun t where
  last : ∀ c, t.getLast? = some c → isNumeralEnd c

/-- A numeral without a sign in front. -/
inductive IsUnsigned : Text → Prop
  | run {t : Text} (ht : IsLastRun t) : IsUnsigned t
  | exponent {t u : Text} {sign : Char} (hsign : sign = '+' ∨ sign = '-') (ht : IsNumeralRun t)
      (hu : IsLastRun u) : IsUnsigned (t ++ sign :: u)

/-- A numeral. -/
inductive IsNumeral : Text → Prop
  | positive {t : Text} (h : IsUnsigned t) : IsNumeral t
  | negative {t : Text} (h : IsUnsigned t) : IsNumeral ('-' :: t)

theorem isNumeralChar_of_isDigit {c : Char} (h : c.isDigit) : isNumeralChar c := by
  simp [isNumeralChar, isAlphanum_of_isDigit h]

namespace IsNumeralRun

variable {a b : Text}

theorem append_left (ha : IsNumeralRun a) (hb : ∀ c ∈ b, isNumeralChar c) :
    IsNumeralRun (a ++ b) where
  ne_nil := by simp [ha.ne_nil]
  chars c hc := (List.mem_append.1 hc).elim (ha.chars c) (hb c)

theorem append_right (ha : ∀ c ∈ a, isNumeralChar c) (hb : IsNumeralRun b) :
    IsNumeralRun (a ++ b) where
  ne_nil := by simp [hb.ne_nil]
  chars c hc := (List.mem_append.1 hc).elim (ha c) (hb.chars c)

end IsNumeralRun

namespace IsLastRun

variable {a b : Text}

/-- Digits and points end a numeral wherever it ends. -/
theorem of_forall (hne : a ≠ []) (h : ∀ c ∈ a, c.isDigit ∨ c = '.') : IsLastRun a where
  ne_nil := hne
  chars c hc := by
    rcases h c hc with hdigit | rfl
    · exact isNumeralChar_of_isDigit hdigit
    · rfl
  last c hc := by
    rcases h c (List.mem_of_getLast? hc) with hdigit | rfl
    · simp [isNumeralEnd, hdigit]
    · rfl

theorem append_right (ha : ∀ c ∈ a, isNumeralChar c) (hb : IsLastRun b) : IsLastRun (a ++ b) where
  toIsNumeralRun := .append_right ha hb.toIsNumeralRun
  last c hc := by
    obtain ⟨d, hd⟩ := Option.ne_none_iff_exists'.1 (mt List.getLast?_eq_none_iff.1 hb.ne_nil)
    rw [List.getLast?_append, hd, Option.some_or] at hc
    exact hb.last c (hd.trans hc)

theorem ofNat (n : Nat) : IsLastRun (Text.ofNat n) :=
  .of_forall (ofNat_ne_nil n) fun _ hc => .inl (isDigit_of_mem_ofNat hc)

end IsLastRun

theorem IsUnsigned.append {t u : Text} (ht : IsUnsigned t) (hu : IsLastRun u) :
    IsUnsigned (t ++ u) := by
  cases ht with
  | run ht => exact .run (hu.append_right ht.chars)
  | exponent hsign ht hv =>
    rw [List.append_assoc]
    exact .exponent hsign ht (hu.append_right hv.chars)

theorem IsUnsigned.signed {t : Text} (ht : IsUnsigned t) (negative : Bool) :
    IsNumeral (Layout.signed negative t) := by
  cases negative with
  | true => exact .negative ht
  | false => exact .positive ht

theorem IsUnsigned.mem {t : Text} {c : Char} (h : IsUnsigned t) (hc : c ∈ t) :
    isNumeralChar c ∨ c = '+' ∨ c = '-' := by
  cases h with
  | run ht => exact .inl (ht.chars c hc)
  | exponent hsign ht hu =>
    rw [List.mem_append, List.mem_cons] at hc
    rcases hc with hc | rfl | hc
    · exact .inl (ht.chars c hc)
    · exact .inr hsign
    · exact .inl (hu.chars c hc)

theorem IsNumeral.mem {t : Text} {c : Char} (h : IsNumeral t) (hc : c ∈ t) :
    isNumeralChar c ∨ c = '+' ∨ c = '-' := by
  cases h with
  | positive h => exact h.mem hc
  | negative h =>
    rcases List.mem_cons.1 hc with rfl | hc
    · exact .inr (.inr rfl)
    · exact h.mem hc

theorem IsUnsigned.ne_nil {t : Text} (h : IsUnsigned t) : t ≠ [] := by
  cases h with
  | run ht => exact ht.ne_nil
  | exponent hsign ht hu => simp

theorem IsNumeral.ne_nil {t : Text} (h : IsNumeral t) : t ≠ [] := by
  cases h with
  | positive h => exact h.ne_nil
  | negative h => simp

theorem IsUnsigned.getLast? {t : Text} {c : Char} (h : IsUnsigned t) (hc : t.getLast? = some c) :
    isNumeralEnd c := by
  cases h with
  | run ht => exact ht.last c hc
  | exponent hsign ht hu =>
    obtain ⟨d, hd⟩ := Option.ne_none_iff_exists'.1 (mt List.getLast?_eq_none_iff.1 hu.ne_nil)
    rw [List.getLast?_append, List.getLast?_cons_of_ne_nil hu.ne_nil, hd, Option.some_or] at hc
    exact hu.last c (hd.trans hc)

theorem IsNumeral.getLast? {t : Text} {c : Char} (h : IsNumeral t) (hc : t.getLast? = some c) :
    isNumeralEnd c := by
  cases h with
  | positive h => exact h.getLast? hc
  | negative h =>
    rw [List.getLast?_cons_of_ne_nil h.ne_nil] at hc
    exact h.getLast? hc

/-! ### Layouts -/

namespace Layout

theorem eq_of_mem_zeros {n : Nat} {c : Char} (h : c ∈ zeros n) : c = '0' :=
  List.eq_of_mem_replicate h

theorem mem_pointAfter {n : Nat} {digits : Text} {c : Char} (h : c ∈ pointAfter n digits) :
    c ∈ digits ∨ c = '.' := by
  unfold pointAfter at h
  split at h
  · exact .inl h
  · rw [List.mem_append, List.mem_cons] at h
    rcases h with h | rfl | h
    · exact .inl (List.mem_of_mem_take h)
    · exact .inr rfl
    · exact .inl (List.mem_of_mem_drop h)

theorem pointAfter_ne_nil {n : Nat} {digits : Text} (h : digits ≠ []) :
    pointAfter n digits ≠ [] := by
  unfold pointAfter
  split
  · exact h
  · simp

theorem isLastRun_positional {digits : Text} (hd : ∀ c ∈ digits, c.isDigit) (exponent : Int) :
    IsLastRun (positional digits exponent) := by
  cases exponent with
  | negSucc n =>
    refine .of_forall (by simp [positional]) fun c hc => ?_
    simp only [positional, List.mem_append, List.mem_cons, List.not_mem_nil, or_false] at hc
    rcases hc with ((rfl | rfl) | hc) | hc
    · exact .inl rfl
    · exact .inr rfl
    · exact .inl (eq_of_mem_zeros hc ▸ rfl)
    · exact .inl (hd c hc)
  | ofNat n =>
    -- The zeros make the digits long enough, so that there is at least one.
    have hlong : digits ++ zeros (n + 1 - digits.length) ≠ [] := by
      intro h
      obtain ⟨rfl, h⟩ := List.append_eq_nil_iff.1 h
      simp [zeros] at h
    refine .of_forall (pointAfter_ne_nil hlong) fun c hc => ?_
    rcases mem_pointAfter hc with hc | rfl
    · rcases List.mem_append.1 hc with hc | hc
      · exact .inl (hd c hc)
      · exact .inl (eq_of_mem_zeros hc ▸ rfl)
    · exact .inr rfl

theorem isUnsigned_scientific {digits : Text} {letter : Char} (hd : ∀ c ∈ digits, c.isDigit)
    (hletter : isNumeralChar letter) (width : Nat) (exponent : Int) :
    IsUnsigned (scientific letter width digits exponent) := by
  -- The digits with their point and the letter come before the sign of the exponent.
  have hpoint : ∀ c ∈ pointAfter 1 digits, isNumeralChar c := by
    intro c hc
    rcases mem_pointAfter hc with hc | rfl
    · exact isNumeralChar_of_isDigit (hd c hc)
    · rfl
  have hrun : IsNumeralRun (pointAfter 1 digits ++ [letter]) :=
    .append_right hpoint ⟨by simp, by simpa using hletter⟩
  have hsize : IsLastRun (zeros (width - (Text.ofNat exponent.natAbs).length) ++
      Text.ofNat exponent.natAbs) :=
    .append_right (fun c hc => eq_of_mem_zeros hc ▸ rfl) (.ofNat _)
  have hsign : (if exponent < 0 then '-' else '+') = '+' ∨
      (if exponent < 0 then '-' else '+') = '-' := by
    split <;> simp
  have h := IsUnsigned.exponent hsign hrun hsize
  simpa [scientific] using h

end Layout

/-! ### Numbers -/

theorem Shortest.isDigit_of_mem_digits {m : Nat} {q : Int} {c : Char}
    (h : c ∈ (digits m q).1) : c.isDigit := by
  unfold digits at h
  simp only at h
  split at h
  · rename_i n k hn
    rw [dropZeros, List.mem_reverse] at h
    have hmem : c ∈ Text.ofNat n := by
      simpa using (List.dropWhile_sublist _).subset h
    exact isDigit_of_mem_ofNat hmem
  · obtain rfl := List.mem_singleton.1 h
    rfl

theorem isNumeral_ofInt (n : Int) : IsNumeral (Text.ofInt n) := by
  cases n with
  | ofNat n => exact .positive (.run (.ofNat n))
  | negSucc n => exact .negative (.run (.ofNat (n + 1)))

/-- A word in the place of a number. -/
theorem isUnsigned_infinity : IsUnsigned "Infinity".toList :=
  .run ⟨⟨by decide, List.all_eq_true.1 (by decide)⟩, by simp [isNumeralEnd]⟩

theorem isNumeral_nan : IsNumeral "NaN".toList :=
  .positive (.run ⟨⟨by decide, List.all_eq_true.1 (by decide)⟩, by simp [isNumeralEnd]⟩)

theorem exists_binary_finiteText_eq (negative : Bool) (m : Nat) (q : Int) :
    ∃ t, IsUnsigned t ∧ Binary64.finiteText negative m q = Layout.signed negative t := by
  refine ⟨_, ?_, rfl⟩
  split
  · exact .run (.of_forall (by simp) (by simp))
  · split
    rename_i digits exponent hdigits
    have hd : ∀ c ∈ digits, c.isDigit := by
      intro c hc
      exact Shortest.isDigit_of_mem_digits (m := m) (q := q) (by rw [hdigits]; exact hc)
    split
    · exact .run (Layout.isLastRun_positional hd exponent)
    · exact Layout.isUnsigned_scientific hd (by decide) 2 exponent

theorem isNumeral_textWithPoint (negative : Bool) (m : Nat) (q : Int) :
    IsNumeral (Binary64.finite negative m q).textWithPoint := by
  obtain ⟨t, ht, he⟩ := exists_binary_finiteText_eq negative m q
  rw [Binary64.textWithPoint, he]
  split
  · exact ht.signed negative
  · have hmore : IsUnsigned (t ++ ['.', '0']) := ht.append (.of_forall (by simp) (by simp))
    have := hmore.signed negative
    cases negative <;> exact this

theorem isNumeral_decimal_finiteText (negative : Bool) (coefficient : Nat) (exponent : Int) :
    IsNumeral (Decimal.finiteText negative coefficient exponent) := by
  have hd : ∀ c ∈ Text.ofNat coefficient, c.isDigit := fun c => isDigit_of_mem_ofNat
  apply IsUnsigned.signed
  split
  · exact .run (Layout.isLastRun_positional hd _)
  · exact Layout.isUnsigned_scientific hd (by decide) 1 _

/-- Every number is written as a numeral. -/
theorem isNumeral_sqlText (n : Number) : IsNumeral n.sqlText := by
  cases n with
  | int n => exact isNumeral_ofInt n
  | binary x =>
    cases x with
    | nan => exact isNumeral_nan
    | infinite negative => exact isUnsigned_infinity.signed negative
    | finite negative m q => exact isNumeral_textWithPoint negative m q
  | decimal d =>
    cases d with
    | nan negative signaling payload => exact isNumeral_nan
    | infinite negative => exact isUnsigned_infinity.signed negative
    | finite negative coefficient exponent =>
      exact isNumeral_decimal_finiteText negative coefficient exponent

end SqlWeave
