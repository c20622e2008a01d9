/-
SqlWeave/Proofs/NamesAccepted.lean

Quoted names as trusted SQL.  What is written for a name has the shape that a trusted fragment must
have in the place of an identifier, so it can be certified and used there again.  The shape does not
allow for an identifier without a character, and a name with two dots in a row, or with a dot at
one of its ends, is written with such a piece.

No such piece can be taken for anything else: a quote doubles only with one right behind it, and
behind the two quotes of an empty piece there is a dot or the end of the text.

Main results: a path of quoted pieces has the shape of one exactly if no piece is empty
(`isPath_intercalate`), and so a written name is accepted as it stands, or else refused, by its
pieces alone (`written_name_accepted`).
-/
import Mathlib
import SqlWeave.Proofs.Postgres.FragmentNames

namespace SqlWeave

open Text

namespace NameForm

variable {form : NameForm} {part? : Text → Option Text} {piece rest : Text}

/-- Whether `part?` takes the identifiers of the form: behind the opener it goes on to the quote at
which the body ends that is read back. -/
def TakenBy (form : NameForm) (part? : Text → Option Text) : Prop :=
  ∃ escapes, (∀ body, part? (form.opener ++ body) = Name.afterPart? form.mark escapes body) ∧
    ∀ {body x rest}, decode form.mark form.rule body = some (x, rest) →
      readBody form.mark escapes body = endOf rest

theorem write_ne_nil (form : NameForm) (c : Char) : form.write c ≠ [] := by
  intro h
  have hstands := form.stands c []
  rw [h, List.append_nil, decode_nil] at hstands
  simp [prepend] at hstands

/-- A quoted piece is taken up to its closing quote, unless it is empty. -/
theorem TakenBy.part?_quoted (h : form.TakenBy part?) (piece : Text)
    (hrest : rest.head? ≠ some form.mark) :
    part? (form.quoted piece ++ rest) = if piece = [] then none else some rest := by
  obtain ⟨escapes, hpart, hread⟩ := h
  have hbody : Stands form.mark form.rule (piece.flatMap form.write) piece :=
    .flatMap fun c _ => form.stands c
  have hclosed := hread (hbody.decode_append_mark hrest)
  rw [quoted, List.append_assoc, List.append_assoc, List.singleton_append, hpart, Name.afterPart?,
    hclosed]
  cases piece with
  | nil => simp [endOf]
  | cons c piece =>
    -- The scan has moved past a character at least, so the body is not empty.
    have hpos := List.length_pos_iff.2 (form.write_ne_nil c)
    simp only [endOf, List.flatMap_cons, List.length_append, List.length_cons]
    rw [if_pos (by omega), if_neg (List.cons_ne_nil c piece)]

theorem TakenBy.part?_quoted_nil (h : form.TakenBy part?) (piece : Text) :
    part? (form.quoted piece) = if piece = [] then none else some [] := by
  have htaken : part? (form.quoted piece ++ []) = _ := h.part?_quoted piece (by simp)
  rwa [List.append_nil] at htaken

/-- Quoted pieces with dots between them are taken for identifiers exactly if none is empty. -/
theorem TakenBy.isPath_intercalate (h : form.TakenBy part?) {parts : List Text}
    (hne : parts ≠ []) :
    Name.isPath part? (['.'].intercalate (parts.map form.quoted)) ↔ [] ∉ parts := by
  induction parts with
  | nil => contradiction
  | cons p parts ih =>
    by_cases hparts : parts = []
    · rw [hparts, List.map_singleton, List.intercalate_singleton, Name.isPath,
        h.part?_quoted_nil]
      by_cases hp : p = [] <;> simp [hp, eq_comm]
    -- Behind any piece but the last there is a dot, never a quote that doubles its closing one.
    · have hdot (t : Text) : ('.' :: t).head? ≠ some form.mark := by simp [form.mark_ne_dot.symm]
      rw [List.map_cons, intercalate_cons_of_ne_nil _ _ (by simpa using hparts), Name.isPath,
        List.singleton_append, h.part?_quoted p (hdot _)]
      by_cases hp : p = []
      · simp [hp]
      · simp [hp, Ne.symm hp, ih hparts]
        omega

/-- The shape of what is written for a name, as one piece or in all its pieces. -/
theorem TakenBy.isQuoted_quotedPath {style : NameStyle} (h : form.TakenBy style.part?)
    (splits : Bool) (name : Text) :
    style.isQuoted splits (Name.quotedPath form.quoted splits name) ↔
      [] ∉ if splits then name.splitOn '.' else [name] := by
  rw [NameStyle.isQuoted, Name.quotedPath]
  cases splits with
  | true =>
    simp only [if_true, Name.pieces_eq_splitOn]
    exact h.isPath_intercalate (List.splitOn_ne_nil '.' name)
  | false =>
    simp only [Bool.false_eq_true, if_false, List.map_singleton, List.intercalate_singleton,
      h.part?_quoted_nil]
    by_cases hname : name = [] <;> simp [hname, eq_comm]

end NameForm

/-! ### The forms of the dialects -/

theorem Family.takenBy_part? (f : Family) (unicode unicode' : Bool) :
    (f.nameForm unicode).TakenBy (f.nameStyle unicode').part? := by
  cases f with
  | mysql =>
    -- No character escapes another here, so the body ends at the first lone backtick.
    refine ⟨false, fun body => rfl, readBody_of_decode ?_⟩
    intro text meant rest hread
    obtain ⟨-, rfl⟩ := Prod.mk.inj (Option.some.inj hread)
    have hmark : backslash ≠ backtick := by decide
    exact readBody_cons_of_ne hmark (by simp)
  | postgres =>
    have hpart : (postgres.nameStyle unicode').part? = Postgres.namePart? := by
      cases unicode' <;> rfl
    rw [hpart]
    cases unicode with
    | false => exact ⟨_, fun body => rfl, Postgres.readBody_of_decode_name (q := .name) rfl⟩
    | true =>
      exact ⟨_, fun body => rfl, Postgres.readBody_of_decode_name (q := .unicodeName false) rfl⟩

/-- A trusted fragment stays as it stands if it has the shape of identifiers, and is refused
otherwise. -/
theorem NameStyle.escape_mint (style : NameStyle) (m : Minter) (forbidQualified : Bool)
    (x : Text) :
    style.escape m.policy forbidQualified (.fragment (m.mint x)) =
      if style.isQuoted (!forbidQualified) x then .ok x
      else .error (.malformedIdentifier x forbidQualified) := by
  have htrusted : m.policy.trustsFragment (m.mint x) := m.trusts_mint x
  rw [NameStyle.escape, Series.flat_of_not_isSeries rfl, NameStyle.escapeOne, if_pos htrusted]
  rfl

/-- What is written for a text in the place of a name is accepted as a trusted fragment, and stays
as it is, unless one of its pieces is empty, or the name itself where it is not split; then it is
refused. -/
theorem written_name_accepted (f : Family) (unicode unicode' forbidQualified : Bool)
    (trust : TrustPolicy) (m : Minter) {v : Value} {x : Text} (hv : v.kind trust = .text)
    (h : (f.nameStyle unicode).escape trust forbidQualified v = .ok x) :
    (f.nameStyle unicode').escape m.policy forbidQualified (.fragment (m.mint x)) =
      if [] ∈ if forbidQualified then [v.plain] else v.plain.splitOn '.' then
        .error (.malformedIdentifier x forbidQualified)
      else .ok x := by
  have hname : v.IsName trust := ⟨by simp [hv], by simp [hv]⟩
  rw [NameStyle.escape_eq_quote _ _ hname, f.quote_eq] at h
  split at h
  · contradiction
  · have hx : Name.quotedPath (f.nameForm unicode).quoted (!forbidQualified) v.plain = x := by
      simpa [hv] using Except.ok.inj h
    have htaken := f.takenBy_part? unicode unicode'
    have hquoted := htaken.isQuoted_quotedPath (!forbidQualified) v.plain
    rw [hx] at hquoted
    rw [NameStyle.escape_mint]
    cases forbidQualified with
    | true => exact (if_congr hquoted rfl rfl).trans (ite_not ..)
    | false => exact (if_congr hquoted rfl rfl).trans (ite_not ..)

/-- A name made of a quote, a dot and a backslash, in the two dialects and with code points; and a
name with an empty piece, which is refused where it is split and accepted where it is not. -/
theorem written_name_accepted_quote_and_backslash :
    let trust := defaultMinter.policy
    let minted (t : Text) : Value := .fragment (defaultMinter.mint t)
    let mysql := Family.mysql.nameStyle false
    let plain := Family.postgres.nameStyle false
    let ticks : Value := .ofText [backtick, '.', backslash]
    let marks : Value := .ofText [quotation, '.', backslash]
    let empty : Value := .ofText ['a', '.']
    let ticked : Text := "````.`\\`".toList
    let spelled : Text := "u&\"\\0022\".u&\"\\005c\"".toList
    let split : Text := "\"a\".\"\"".toList
    let whole : Text := "\"a.\"".toList
    ticks.kind trust = .text ∧ mysql.escape trust false ticks = .ok ticked ∧
      mysql.escape trust false (minted ticked) = .ok ticked ∧
      marks.kind trust = .text ∧
      (Family.postgres.nameStyle true).escape trust false marks = .ok spelled ∧
      plain.escape trust false (minted spelled) = .ok spelled ∧
      empty.kind trust = .text ∧ plain.escape trust false empty = .ok split ∧
      plain.escape trust false (minted split) = .error (.malformedIdentifier split false) ∧
      plain.escape trust true empty = .ok whole ∧
      plain.escape trust true (minted whole) = .ok whole := by
  intro trust minted mysql plain ticks marks empty ticked spelled split whole
  have hticked : mysql.escape trust false ticks = .ok ticked := by cbv
  have hspelled : (Family.postgres.nameStyle true).escape trust false marks = .ok spelled := by cbv
  have hsplit : plain.escape trust false empty = .ok split := by cbv
  have hwhole : plain.escape trust true empty = .ok whole := by cbv
  refine ⟨rfl, hticked, ?_, rfl, hspelled, ?_, rfl, hsplit, ?_, hwhole, ?_⟩
  · exact written_name_accepted .mysql false false false trust defaultMinter rfl hticked
  · exact written_name_accepted .postgres true false false trust defaultMinter rfl hspelled
  · exact written_name_accepted .postgres false false false trust defaultMinter rfl hsplit
  · exact written_name_accepted .postgres false false true trust defaultMinter rfl hwhole

end SqlWeave
