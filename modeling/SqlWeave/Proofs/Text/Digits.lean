/-
SqlWeave/Proofs/Text/Digits.lean

The characters of written numbers and bytes.  Digits are letters or decimal digits in every
base that is used, so no rendering of a number or of bytes holds a quote or a backslash.  Digits
that a text begins with can be read as a number again.

Main results: the digits of a natural number (`isDigit_of_mem_ofNat`), of bytes
(`isAlphanum_of_mem_hexBytes`) and of bits (`isAlphanum_of_mem_bitsOfHex`); padded digits stand
for the number they are made from (`valueOf_paddedDigits`).
-/
import SqlWeave.Postgres.Literal

namespace SqlWeave

namespace Text

/-! ### The characters of digits -/

theorem isAlphanum_of_isDigit {c : Char} (h : c.isDigit) : c.isAlphanum := by
  simp [Char.isAlphanum, h]

theorem ne_of_isAlphanum {c mark : Char} (h : c.isAlphanum) (hm : mark.isAlphanum = false) :
    c ≠ mark := by
  rintro rfl
  simp [hm] at h

/-- The value of a digit in a base up to sixteen.  What is no digit has the value sixteen. -/
def digitValue (c : Char) : Nat :=
  if c.isDigit then c.toNat - '0'.toNat
  else if 'a' ≤ c ∧ c ≤ 'f' then c.toNat - 'a'.toNat + 10
  else if 'A' ≤ c ∧ c ≤ 'F' then c.toNat - 'A'.toNat + 10
  else 16

theorem digitValue_digitChar {d : Nat} (h : d < 16) : digitValue (Nat.digitChar d) = d := by
  have hall : ∀ d < 16, digitValue (Nat.digitChar d) = d := by decide
  exact hall d h

theorem isAlphanum_of_letter {c : Char}
    (h : 'A' ≤ c ∧ c ≤ 'Z' ∨ 'a' ≤ c ∧ c ≤ 'z') : c.isAlphanum := by
  show ((decide (c.val ≥ 'A'.val ∧ c.val ≤ 'Z'.val) ||
      (c.val ≥ 'a'.val && c.val ≤ 'z'.val)) || (c.val ≥ '0'.val && c.val ≤ '9'.val)) = true
  simp only [Bool.or_eq_true, Bool.and_eq_true, decide_eq_true_eq]
  exact .inl h

theorem isAlphanum_of_digitValue_lt {c : Char} (h : digitValue c < 16) : c.isAlphanum := by
  unfold digitValue at h
  split at h
  · rename_i hdigit
    exact isAlphanum_of_isDigit hdigit
  split at h
  · rename_i hlower
    exact isAlphanum_of_letter (.inr ⟨hlower.1, Char.le_trans hlower.2 (by decide)⟩)
  split at h
  · rename_i hupper
    exact isAlphanum_of_letter (.inl ⟨hupper.1, Char.le_trans hupper.2 (by decide)⟩)
  · contradiction

theorem digitValue_lt_of_mem_paddedDigits {base width n : Nat} {c : Char} (hpos : 0 < base)
    (hle : base ≤ 16) (h : c ∈ paddedDigits base width n) : digitValue c < base := by
  induction width generalizing n with
  | zero => simp [paddedDigits] at h
  | succ width ih =>
    rw [paddedDigits, List.mem_append, List.mem_singleton] at h
    rcases h with h | rfl
    · exact ih h
    · have hlt : n % base < base := Nat.mod_lt n hpos
      rwa [digitValue_digitChar (Nat.lt_of_lt_of_le hlt hle)]

theorem isAlphanum_of_mem_paddedDigits {base width n : Nat} {c : Char} (hpos : 0 < base)
    (hle : base ≤ 16) (h : c ∈ paddedDigits base width n) : c.isAlphanum :=
  isAlphanum_of_digitValue_lt
    (Nat.lt_of_lt_of_le (digitValue_lt_of_mem_paddedDigits hpos hle h) hle)

theorem isAlphanum_of_mem_hexBytes {data : List UInt8} {c : Char} (h : c ∈ hexBytes data) :
    c.isAlphanum := by
  obtain ⟨b, -, hc⟩ := List.mem_flatMap.1 h
  exact isAlphanum_of_mem_paddedDigits (by decide) (by decide) hc

theorem isDigit_of_mem_ofNat {n : Nat} {c : Char} (h : c ∈ ofNat n) : c.isDigit :=
  Nat.isDigit_of_mem_toDigits (by decide) (by decide) h

theorem ofNat_ne_nil (n : Nat) : ofNat n ≠ [] := Nat.toDigits_ne_nil

/-! ### Digits as numbers -/

/-- The number that some digits stand for. -/
def valueOf (base : Nat) (digits : Text) : Nat :=
  digits.foldl (fun n c => n * base + digitValue c) 0

/-- The digits that a text begins with, `width` of them at most. -/
def leadingDigits (base width : Nat) (t : Text) : Text :=
  (t.take width).takeWhile fun c => digitValue c < base

theorem valueOf_concat (base : Nat) (digits : Text) (c : Char) :
    valueOf base (digits ++ [c]) = valueOf base digits * base + digitValue c := by
  simp [valueOf]

theorem valueOf_paddedDigits {base : Nat} (hpos : 0 < base) (hle : base ≤ 16) (width n : Nat) :
    valueOf base (paddedDigits base width n) = n % Nat.pow base width := by
  induction width generalizing n with
  | zero => exact (Nat.mod_one n).symm
  | succ width ih =>
    have hdigit : n % base < 16 := Nat.lt_of_lt_of_le (Nat.mod_lt n hpos) hle
    have hpow : Nat.pow base (width + 1) = base * Nat.pow base width := Nat.mul_comm ..
    rw [paddedDigits, valueOf_concat, ih, digitValue_digitChar hdigit, hpow, Nat.mod_mul,
      Nat.mul_comm, Nat.add_comm]

theorem leadingDigits_append {base width : Nat} {digits : Text} (hlength : digits.length = width)
    (h : ∀ c ∈ digits, digitValue c < base) (rest : Text) :
    leadingDigits base width (digits ++ rest) = digits := by
  have hself : digits.takeWhile (fun c => digitValue c < base) = digits := by
    rw [← List.append_nil digits, List.takeWhile_append_of_pos (by simpa using h),
      List.takeWhile_nil]
  rw [leadingDigits, ← hlength, List.take_left, hself]

theorem digitValue_lt_of_mem_leadingDigits {base width : Nat} {t : Text} {c : Char}
    (h : c ∈ leadingDigits base width t) : digitValue c < base := by
  simpa using List.all_eq_true.1 List.all_takeWhile c h

theorem leadingDigits_append_drop (base width : Nat) (t : Text) :
    leadingDigits base width t ++ t.drop (leadingDigits base width t).length = t :=
  List.prefix_iff_eq_append.1 ((List.takeWhile_prefix _).trans (List.take_prefix _ _))

end Text

namespace Postgres

open Text

theorem isAlphanum_of_mem_bitsOfHex {digits : Text} {c : Char} (h : c ∈ bitsOfHex digits) :
    c.isAlphanum := by
  obtain ⟨d, -, hc⟩ := List.mem_flatMap.1 h
  unfold bitsOfDigit at hc
  split at hc
  · exact isAlphanum_of_mem_paddedDigits (by decide) (by decide) hc
  split at hc
  · exact isAlphanum_of_mem_paddedDigits (by decide) (by decide) hc
  · simp at hc

end Postgres

end SqlWeave
