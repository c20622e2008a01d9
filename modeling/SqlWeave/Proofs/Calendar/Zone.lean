/-
SqlWeave/Proofs/Calendar/Zone.lean

What the name of a time zone names.  The scanner of the name goes character by character; here it
is said once what it looks for: a sign and two digits, with a colon and two digits behind them or
without, and of several of these the first.

Main results: the scanner finds what the name holds (`offsetHere?_eq_some_iff`,
`firstOffset?_eq_some_iff`), and every name names one offset (`namesOffset_iff`).
-/
import Mathlib
import SqlWeave.Calendar.Zone

namespace SqlWeave.Calendar

open Text

/-! ### Digits -/

/-- Two decimal digits of any script and the number they make. -/
def IsTwoDigits (digits : Text) (n : Nat) : Prop :=
  ∃ a b tens ones, digits = [a, b] ∧ decimalDigit? a = some tens ∧ decimalDigit? b = some ones ∧
    n = 10 * tens + ones

theorem twoDigits?_eq_some_iff {text rest : Text} {n : Nat} :
    twoDigits? text = some (n, rest) ↔ ∃ digits, text = digits ++ rest ∧ IsTwoDigits digits n := by
  constructor
  · intro h
    match text with
    | [] | [_] => contradiction
    | a :: b :: more =>
      simp only [twoDigits?, Option.bind_eq_bind, Option.bind_eq_some_iff, Option.pure_def,
        Option.some.injEq, Prod.mk.injEq] at h
      obtain ⟨tens, htens, ones, hones, rfl, rfl⟩ := h
      exact ⟨[a, b], rfl, a, b, tens, ones, rfl, htens, hones, rfl⟩
  · rintro ⟨-, rfl, a, b, tens, ones, rfl, htens, hones, rfl⟩
    simp [twoDigits?, htens, hones]

/-! ### Offsets -/

/-- Whether a text begins with the minutes of an offset: two digits, behind a colon or not. -/
def StartsMinutes (text : Text) (minutes : Nat) : Prop :=
  ∃ colon digits rest, (colon = [] ∨ colon = [':']) ∧ text = colon ++ (digits ++ rest) ∧
    IsTwoDigits digits minutes

/-- Whether a text begins with an offset: a sign, the hours in two digits, and the minutes if
there are any.  White space is a sign too, and means the same as a plus. -/
def StartsOffset (text : Text) (offset : Int) : Prop :=
  ∃ sign digits rest hours minutes, text = sign :: (digits ++ rest) ∧
    (sign = '+' ∨ sign = '-' ∨ isSpace sign) ∧ IsTwoDigits digits hours ∧
    (StartsMinutes rest minutes ∨ (∀ m, ¬StartsMinutes rest m) ∧ minutes = 0) ∧
    offset = (if sign = '-' then -1 else 1) * (60 * hours + minutes)

/-- The offset in minutes that the name of a time zone stands for: none for `Z`, else the first
that the name holds, and none if it holds none. -/
def NamesOffset (zone : Text) (offset : Int) : Prop :=
  if zone = ['Z'] then offset = 0
  else
    (∃ rest, rest <:+ zone ∧ StartsOffset rest offset ∧
      ∀ rest', rest' <:+ zone → rest.length < rest'.length → ∀ o, ¬StartsOffset rest' o) ∨
    (∀ rest, rest <:+ zone → ∀ o, ¬StartsOffset rest o) ∧ offset = 0

/-- What follows the colon that a text may begin with. -/
def afterColon : Text → Text
  | ':' :: rest => rest
  | text => text

theorem afterColon_of_ne {text : Text} (h : ∀ rest, text ≠ ':' :: rest) :
    afterColon text = text := by
  unfold afterColon
  split
  · exact absurd rfl (h _)
  · rfl

theorem startsMinutes_iff {text : Text} {minutes : Nat} :
    StartsMinutes text minutes ↔ ∃ rest, twoDigits? (afterColon text) = some (minutes, rest) := by
  constructor
  · rintro ⟨colon, digits, rest, hcolon, rfl, hdigits⟩
    refine ⟨rest, twoDigits?_eq_some_iff.2 ⟨digits, ?_, hdigits⟩⟩
    rcases hcolon with rfl | rfl
    · obtain ⟨a, b, tens, ones, rfl, htens, -⟩ := hdigits
      refine afterColon_of_ne fun more h => ?_
      obtain rfl : a = ':' := (List.cons.inj h).1
      contradiction
    · rfl
  · rintro ⟨rest, h⟩
    obtain ⟨digits, htext, hdigits⟩ := twoDigits?_eq_some_iff.1 h
    unfold afterColon at htext
    split at htext
    · exact ⟨[':'], digits, rest, .inr rfl, by rw [htext]; rfl, hdigits⟩
    · exact ⟨[], digits, rest, .inl rfl, htext, hdigits⟩

theorem offsetMinutes_eq (text : Text) :
    offsetMinutes text = ((twoDigits? (afterColon text)).map Prod.fst).getD 0 := by
  unfold offsetMinutes
  split
  · rename_i rest
    have hcolon : afterColon (':' :: rest) = rest := rfl
    rw [hcolon]
    dsimp only
    cases twoDigits? rest <;> rfl
  · rename_i h
    rw [afterColon_of_ne h]
    dsimp only
    cases twoDigits? text <;> rfl

theorem offsetMinutes_eq_iff {text : Text} {minutes : Nat} :
    offsetMinutes text = minutes ↔
      StartsMinutes text minutes ∨ (∀ m, ¬StartsMinutes text m) ∧ minutes = 0 := by
  simp only [startsMinutes_iff, offsetMinutes_eq]
  cases twoDigits? (afterColon text) with
  | none => simp [eq_comm]
  | some found => simp [Prod.ext_iff]

theorem offsetHere?_eq_some_iff {text : Text} {offset : Int} :
    offsetHere? text = some offset ↔ StartsOffset text offset := by
  constructor
  · intro h
    cases text with
    | nil => contradiction
    | cons sign text =>
      rw [offsetHere?, Option.ite_none_right_eq_some, Option.map_eq_some_iff] at h
      obtain ⟨hsign, ⟨hours, rest⟩, hhours, rfl⟩ := h
      obtain ⟨digits, rfl, hdigits⟩ := twoDigits?_eq_some_iff.1 hhours
      refine ⟨sign, digits, rest, hours, _, rfl, hsign, hdigits, offsetMinutes_eq_iff.1 rfl, ?_⟩
      simp only
      split <;> ring
  · rintro ⟨sign, digits, rest, hours, minutes, rfl, hsign, hdigits, hminutes, rfl⟩
    have hhours : twoDigits? (digits ++ rest) = some (hours, rest) :=
      twoDigits?_eq_some_iff.2 ⟨digits, rfl, hdigits⟩
    rw [offsetHere?, if_pos hsign, hhours, Option.map_some]
    simp only [offsetMinutes_eq_iff.2 hminutes, Option.some.injEq]
    split <;> ring

theorem offsetHere?_eq_none_iff {text : Text} :
    offsetHere? text = none ↔ ∀ o, ¬StartsOffset text o := by
  simp only [← offsetHere?_eq_some_iff, Option.eq_none_iff_forall_ne_some, ne_eq]

theorem firstOffset?_eq_none_iff (zone : Text) :
    firstOffset? zone = none ↔ ∀ rest, rest <:+ zone → offsetHere? rest = none := by
  induction zone with
  | nil => simp [firstOffset?, offsetHere?]
  | cons c zone ih => simp [firstOffset?, ih, List.suffix_cons_iff]

/-- The scanner stops at the first place where an offset begins. -/
theorem firstOffset?_eq_some_iff (zone : Text) (offset : Int) :
    firstOffset? zone = some offset ↔
      ∃ rest, rest <:+ zone ∧ offsetHere? rest = some offset ∧
        ∀ rest', rest' <:+ zone → rest.length < rest'.length → offsetHere? rest' = none := by
  induction zone with
  | nil => simp [firstOffset?, offsetHere?]
  | cons c zone ih =>
    rw [firstOffset?, Option.or_eq_some_iff, ih]
    constructor
    · rintro (hhere | ⟨hnone, rest, hrest, hoffset, hfirst⟩)
      · refine ⟨c :: zone, List.suffix_rfl, hhere, fun rest' hrest' hlt => ?_⟩
        exact absurd hrest'.length_le (Nat.not_le_of_lt hlt)
      · refine ⟨rest, hrest.trans (List.suffix_cons c zone), hoffset, fun rest' hrest' hlt => ?_⟩
        rcases List.suffix_cons_iff.1 hrest' with rfl | hrest'
        · exact hnone
        · exact hfirst rest' hrest' hlt
    · rintro ⟨rest, hrest, hoffset, hfirst⟩
      rcases List.suffix_cons_iff.1 hrest with rfl | hrest
      · exact .inl hoffset
      · have hlt : rest.length < (c :: zone).length := Nat.lt_succ_of_le hrest.length_le
        refine .inr ⟨hfirst _ List.suffix_rfl hlt, rest, hrest, hoffset, fun rest' hrest' => ?_⟩
        exact hfirst rest' (hrest'.trans (List.suffix_cons c zone))

/-- Every name stands for one offset, which is the one that the scanner finds. -/
theorem namesOffset_iff {zone : Text} {offset : Int} :
    NamesOffset zone offset ↔ (zoneOffset? zone).getD 0 = offset := by
  have hsome := firstOffset?_eq_some_iff zone offset
  have hnone := firstOffset?_eq_none_iff zone
  simp only [offsetHere?_eq_some_iff, offsetHere?_eq_none_iff] at hsome hnone
  unfold NamesOffset zoneOffset?
  split
  · simp [eq_comm]
  · rw [← hsome, ← hnone]
    cases firstOffset? zone with
    | none => simp [eq_comm]
    | some found => simp

end SqlWeave.Calendar
