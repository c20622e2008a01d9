/-
SqlWeave/Proofs/Blobs.lean

Bytes read back.  A byte string is written in digits where a literal or an open construct of the
server holds bytes or bits, two hexadecimal or eight binary digits for each byte.  In strings of
text it is written as a text, with the character whose code is the byte for each of its bytes, and
escaped like any other text.

The table from hexadecimal to binary digits keeps the order of the digits, so eight binary digits
are those of the byte, the highest bit first.

Main results: digits read back as the bytes (`readBytes?_paddedDigits`), binary ones included
(`bitsOfHex_hexBytes`), and so do all the writings of a byte string (`blobs_read_back`).
-/
import Mathlib
import SqlWeave.Proofs.ReadBack

namespace SqlWeave

open Text

namespace Text

/-! ### Digits -/

/-- The bytes that a text stands for, with `width` digits of a base for each, the most significant
one first. -/
def readBytes? (base width : Nat) (t : Text) : Option (List UInt8) :=
  if t = [] then some []
  else
    let digits := leadingDigits base width t
    if _h : digits.length = width ∧ 0 < width then
      (readBytes? base width (t.drop width)).map (UInt8.ofNat (valueOf base digits) :: ·)
    else none
termination_by t.length
decreasing_by
  have hpos := List.length_pos_iff.2 ‹¬t = []›
  rw [List.length_drop]
  omega

theorem readBytes?_append {base width : Nat} {digits : Text} (hlength : digits.length = width)
    (hwidth : 0 < width) (h : ∀ c ∈ digits, digitValue c < base) (rest : Text) :
    readBytes? base width (digits ++ rest) =
      (readBytes? base width rest).map (UInt8.ofNat (valueOf base digits) :: ·) := by
  have hne : digits ++ rest ≠ [] := by
    rintro hnil
    simp [List.append_eq_nil_iff.1 hnil] at hlength
    omega
  rw [readBytes?, if_neg hne]
  simp only [leadingDigits_append hlength h, List.drop_left' hlength]
  rw [dif_pos ⟨hlength, hwidth⟩]

/-- Digits read back as the bytes, if there are enough of them for a byte. -/
theorem readBytes?_paddedDigits {base width : Nat} (hpos : 0 < base) (hle : base ≤ 16)
    (hwidth : 0 < width) (henough : 256 ≤ Nat.pow base width) (data : List UInt8) :
    readBytes? base width (data.flatMap fun b => paddedDigits base width b.toNat) = some data := by
  induction data with
  | nil => rw [List.flatMap_nil, readBytes?, if_pos rfl]
  | cons b data ih =>
    have hlt : b.toNat < Nat.pow base width := Nat.lt_of_lt_of_le b.toNat_lt henough
    have hdigits : ∀ c ∈ paddedDigits base width b.toNat, digitValue c < base := fun _ =>
      digitValue_lt_of_mem_paddedDigits hpos hle
    rw [List.flatMap_cons, readBytes?_append (length_paddedDigits ..) hwidth hdigits, ih,
      valueOf_paddedDigits hpos hle, Nat.mod_eq_of_lt hlt, UInt8.ofNat_toNat, Option.map_some]

/-- The last digits of a number, and those in front of them. -/
theorem paddedDigits_add (base width more n : Nat) :
    paddedDigits base (width + more) n =
      paddedDigits base width (n / Nat.pow base more) ++ paddedDigits base more n := by
  induction more generalizing n with
  | zero => simp [paddedDigits]
  | succ more ih =>
    have hpow : Nat.pow base (more + 1) = base * Nat.pow base more := Nat.mul_comm ..
    rw [← Nat.add_assoc, paddedDigits, ih, paddedDigits, hpow, Nat.div_div_eq_div_mul,
      List.append_assoc]

theorem paddedDigits_mod (base width n : Nat) :
    paddedDigits base width (n % Nat.pow base width) = paddedDigits base width n := by
  induction width generalizing n with
  | zero => rfl
  | succ width ih =>
    have hpow : Nat.pow base (width + 1) = base * Nat.pow base width := Nat.mul_comm ..
    rw [paddedDigits, paddedDigits, hpow, Nat.mod_mul_right_div_self, ih,
      Nat.mod_mul_right_mod]

theorem length_flatMap_paddedDigits (base width : Nat) (data : List UInt8) :
    (data.flatMap fun b => paddedDigits base width b.toNat).length = width * data.length := by
  induction data with
  | nil => rfl
  | cons b data ih =>
    rw [List.flatMap_cons, List.length_append, length_paddedDigits, ih, List.length_cons,
      Nat.mul_succ, Nat.add_comm]

/-! ### Characters -/

theorem toNat_ofByte (b : UInt8) : (ofByte b).toNat = b.toNat := by
  have hlt : b.toNat < 256 := b.toNat_lt
  have hvalid : b.toNat.isValidChar := .inl (by omega)
  rw [ofByte, Char.toNat_ofNat, if_pos hvalid]

theorem map_toNat_ofByte (data : List UInt8) :
    (data.map ofByte).map Char.toNat = data.map UInt8.toNat := by
  rw [List.map_map]
  exact List.map_congr_left fun b _ => toNat_ofByte b

theorem nul_mem_map_ofByte_iff {data : List UInt8} : nul ∈ data.map ofByte ↔ 0 ∈ data := by
  have hnul (b : UInt8) : ofByte b = nul ↔ b = 0 := by
    constructor
    · intro h
      have hcode := congrArg Char.toNat h
      rw [toNat_ofByte] at hcode
      exact UInt8.toNat_inj.1 hcode
    · rintro rfl
      rfl
  simp [List.mem_map, hnul]

end Text

theorem Grammar.escape_blob {σ : Type} (G : Grammar σ) (surroundings : Surroundings)
    (options : Options) (form : BlobForm) (data : List UInt8) :
    G.escape surroundings options (.blob form data) = .ok (G.quoteBlob data) := by
  rw [Grammar.escape]
  cases options.stringifyObjects <;> rfl

/-! ### Binary digits -/

namespace Postgres

theorem bitsOfDigit_digitChar {d : Nat} (h : d < 16) :
    bitsOfDigit (Nat.digitChar d) = paddedDigits 2 4 d := by
  have hall : ∀ d < 16, bitsOfDigit (Nat.digitChar d) = paddedDigits 2 4 d := by decide
  exact hall d h

theorem bitsOfHex_hexByte (b : UInt8) : bitsOfHex (hexByte b) = paddedDigits 2 8 b.toNat := by
  have hhigh : b.toNat / 16 % 16 < 16 := Nat.mod_lt _ (by decide)
  have hlow : b.toNat % 16 < 16 := Nat.mod_lt _ (by decide)
  -- Each hexadecimal digit has four binary ones, its highest bit first.
  calc bitsOfHex (hexByte b)
      = paddedDigits 2 4 (b.toNat / 16 % 16) ++ paddedDigits 2 4 (b.toNat % 16) := by
        simp [hexByte, paddedDigits, bitsOfHex, bitsOfDigit_digitChar hhigh,
          bitsOfDigit_digitChar hlow]
    _ = paddedDigits 2 4 (b.toNat / 16) ++ paddedDigits 2 4 b.toNat :=
        congr (congrArg _ (paddedDigits_mod 2 4 _)) (paddedDigits_mod 2 4 _)
    _ = paddedDigits 2 8 b.toNat := (paddedDigits_add 2 4 4 b.toNat).symm

/-- The binary digits of bytes are eight for each. -/
theorem bitsOfHex_hexBytes (data : List UInt8) :
    bitsOfHex (hexBytes data) = data.flatMap fun b => paddedDigits 2 8 b.toNat := by
  rw [bitsOfHex, hexBytes, List.flatMap_assoc]
  exact congrArg (data.flatMap ·) (funext bitsOfHex_hexByte)

theorem splice_hex (surroundings : Surroundings) (options : Options) (upper : Bool)
    (form : BlobForm) (data : List UInt8) :
    splice surroundings options (Quote.hex upper).opener (.blob form data) =
      .ok (hexBytes data) := by
  rw [splice, Place.ofDelimiter?_opener]
  rfl

theorem splice_bits (surroundings : Surroundings) (options : Options) (upper : Bool)
    (form : BlobForm) (data : List UInt8) :
    splice surroundings options (Quote.bits upper).opener (.blob form data) =
      .ok (bitsOfHex (hexBytes data)) := by
  rw [splice, Place.ofDelimiter?_opener]
  rfl

/-- In a string without escapes, bytes are refused for a zero byte, and for nothing else. -/
theorem splice_string_blob (surroundings : Surroundings) (options : Options) (form : BlobForm)
    (data : List UInt8) :
    let s : State := .quoted .string
    if 0 ∈ data then
      splice surroundings options s.opener (.blob form data) =
        .error (.unrepresentable nul s.opener)
    else
      ∃ b, splice surroundings options s.opener (.blob form data) = .ok b ∧
        s.ReadsAs b (data.map ofByte) := by
  intro s
  have htakes : s.TakesText := .inl rfl
  have hnul : nul ∈ data.map ofByte ↔ 0 ∈ data := nul_mem_map_ofByte_iff
  split
  · rename_i hzero
    exact splice_of_nul_mem htakes rfl rfl (hnul.2 hzero)
  · rename_i hzero
    have hfree : nul ∉ spliceText surroundings options (.blob form data) := fun h =>
      hzero (hnul.1 h)
    obtain ⟨b, hb⟩ := exists_splice_eq_ok htakes rfl (.inr ⟨hfree, trivial⟩)
    exact ⟨b, hb, readsAs_of_splice htakes rfl hb⟩

end Postgres

/-! ### All writings of a byte string -/

/-- Whatever is written for a byte string determines it.  The literals of both dialects and the
bit strings of Postgres hold digits, two hexadecimal or eight binary ones for each byte; what is
written into a string of text reads back, by the rule of that string, as the characters whose codes
are the bytes.  Only a string without escapes refuses a byte, which is zero. -/
theorem blobs_read_back (surroundings : Surroundings) (options : Options) (form : BlobForm)
    (data : List UInt8) :
    let v : Value := .blob form data
    (∃ digits, digits.length = 2 * data.length ∧ readBytes? 16 2 digits = some data ∧
        MySQL.grammar.escape surroundings options v = .ok ('X' :: between apostrophe digits) ∧
        Postgres.grammar.escape surroundings options v =
          .ok ("decode('".toList ++ digits ++ "', 'hex')".toList) ∧
        ∀ upper, Postgres.splice surroundings options (Postgres.Quote.hex upper).opener v =
          .ok digits) ∧
      (∃ digits, digits.length = 8 * data.length ∧ readBytes? 2 8 digits = some data ∧
        ∀ upper, Postgres.splice surroundings options (Postgres.Quote.bits upper).opener v =
          .ok digits) ∧
      ∃ t : Text, t.map Char.toNat = data.map UInt8.toNat ∧
        (∀ q : MySQL.Quote, q.IsString →
          ∃ b, MySQL.splice surroundings options [q.mark] v = .ok b ∧
            decode q.mark MySQL.escapes b = some (t, [])) ∧
        (∀ s : Postgres.State, s.spellsNul →
          ∃ b, Postgres.splice surroundings options s.opener v = .ok b ∧ s.ReadsAs b t) ∧
        let s : Postgres.State := .quoted .string
        if 0 ∈ data then
          Postgres.splice surroundings options s.opener v = .error (.unrepresentable nul s.opener)
        else ∃ b, Postgres.splice surroundings options s.opener v = .ok b ∧ s.ReadsAs b t := by
  intro v
  have hhex : readBytes? 16 2 (hexBytes data) = some data :=
    readBytes?_paddedDigits (by decide) (by decide) (by decide) (by decide) data
  have hbits : readBytes? 2 8 (Postgres.bitsOfHex (hexBytes data)) = some data := by
    rw [Postgres.bitsOfHex_hexBytes]
    exact readBytes?_paddedDigits (by decide) (by decide) (by decide) (by decide) data
  have hlength : (Postgres.bitsOfHex (hexBytes data)).length = 8 * data.length := by
    rw [Postgres.bitsOfHex_hexBytes, length_flatMap_paddedDigits]
  refine ⟨⟨hexBytes data, length_hexBytes data, hhex, ?_, ?_, ?_⟩, ⟨_, hlength, hbits, ?_⟩,
    data.map ofByte, map_toNat_ofByte data, ?_, ?_, ?_⟩
  · exact Grammar.escape_blob MySQL.grammar surroundings options form data
  · exact Grammar.escape_blob Postgres.grammar surroundings options form data
  · exact fun upper => Postgres.splice_hex surroundings options upper form data
  · exact fun upper => Postgres.splice_bits surroundings options upper form data
  · exact fun q hq => ⟨_, MySQL.splice_of_isString hq, MySQL.decode_escapeBody hq _⟩
  · exact fun s hs => Postgres.exists_splice_readsAs surroundings options v hs
  · exact Postgres.splice_string_blob surroundings options form data

/-- An apostrophe, a backslash, the zero byte and the greatest one. -/
theorem blobs_read_back_apostrophe_and_zero :
    let env : Surroundings := ⟨defaultMinter.policy, .zero⟩
    let v : Value := .blob .bytes [0x27, 0x5c, 0, 0xff]
    let q : MySQL.Quote := .double
    let s : Postgres.State := .quoted (.unicode true)
    let plain : Postgres.State := .quoted .string
    q.IsString ∧ s.spellsNul ∧
      (∃ digits, digits.length = 8 ∧
        Postgres.splice env .default (Postgres.Quote.hex true).opener v = .ok digits) ∧
      ∃ t : Text, t.map Char.toNat = [39, 92, 0, 255] ∧
        (∃ b, MySQL.splice env .default [q.mark] v = .ok b ∧
          decode q.mark MySQL.escapes b = some (t, [])) ∧
        (∃ b, Postgres.splice env .default s.opener v = .ok b ∧ s.ReadsAs b t) ∧
        Postgres.splice env .default plain.opener v =
          .error (.unrepresentable nul plain.opener) := by
  intro env v q s plain
  have hq : q.IsString := by decide
  obtain ⟨⟨digits, hlength, -, -, -, hhex⟩, -, t, hcodes, hmysql, hspelled, hplain⟩ :=
    blobs_read_back env .default .bytes [0x27, 0x5c, 0, 0xff]
  rw [if_pos (by decide)] at hplain
  exact ⟨hq, rfl, ⟨digits, hlength, hhex true⟩, t, hcodes, hmysql q hq, hspelled s rfl, hplain⟩

end SqlWeave
