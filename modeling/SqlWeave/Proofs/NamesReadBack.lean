/-
SqlWeave/Proofs/NamesReadBack.lean

Identifiers read back.  A name is written as quoted pieces with dots between them, and the pieces
can be read off the text again: a dot between two closed quotes separates, and any other dot is
part of a piece.  So no quote of a name and no dot of it can be taken for one of those around
them, even where pieces are empty or made of quotes alone.

A dialect has few forms of quoted identifiers, and all of them write character by character.
What a form has to keep for its names to read back is in the structure `NameForm`.

Main results: quoting a name piece by piece is writing out its characters and then replacing the
dots (`NameForm.quotedPath_eq_replaceDots`), and names of either dialect read back as their
pieces (`names_read_back`).
-/
import Mathlib
import SqlWeave.Dialect
import SqlWeave.Proofs.ReadBack

namespace SqlWeave

open Text

/-! ### Pieces -/

/-- The pieces of a name are what the library's split gives. -/
theorem Name.pieces_eq_splitOn (name : Text) : Name.pieces name = name.splitOn '.' := by
  induction name with
  | nil => simp [Name.pieces]
  | cons c rest ih =>
    rw [Name.pieces, List.splitOn_cons_eq_if_modifyHead, ih]
    by_cases hc : c = '.'
    · simp [hc]
    · obtain ⟨p, ps, hp⟩ := List.exists_cons_of_ne_nil (List.splitOn_ne_nil '.' rest)
      simp [hc, hp]

theorem Text.intercalate_append_cons (separator a b : Text) (items : List Text) :
    separator.intercalate ((a ++ b) :: items) = a ++ separator.intercalate (b :: items) := by
  cases items <;> simp [List.intercalate, List.intersperse]

/-! ### Reading identifiers -/

/-- The text of an identifier and what follows it, where `read` came to the quote that closes
it. -/
def closing (read : Text × Text) : Option (Text × Text) :=
  match read with
  | (_, []) => none
  | (piece, _ :: rest) => some (piece, rest)

/-- The texts of quoted identifiers with dots between them, where `part?` reads one.  The text
must be read to its end. -/
def readPath (part? : Text → Option (Text × Text)) (text : Text) : Option (List Text) :=
  match part? text with
  | none => none
  | some (piece, []) => some [piece]
  | some (piece, c :: rest) =>
    if c = '.' then
      if rest.length < text.length then (readPath part? rest).map (piece :: ·) else none
    else none
termination_by text.length

/-- The identifier that a MySQL text begins with, and what follows it. -/
def MySQL.readName? (text : Text) : Option (Text × Text) :=
  match text with
  | [] => none
  | c :: body => if c = backtick then (decode backtick .noEscapes body).bind closing else none

/-- The identifier that a Postgres text begins with, plain or with code points, and what follows
it. -/
def Postgres.readName? (text : Text) : Option (Text × Text) :=
  match Quote.opened? text with
  | some (q, body) => if q.isName then (decode q.mark q.rule body).bind closing else none
  | none => none

/-! ### Forms of identifiers -/

/-- A form of quoted identifiers: what opens one, the quote that closes it, how its backslashes
are read and how a character is written in it.  No dot is written for another character. -/
structure NameForm where
  opener : Text
  mark : Char
  rule : EscapeRule
  write : Char → Text
  mark_ne_dot : mark ≠ '.'
  stands : ∀ c, Stands mark rule (write c) [c]
  write_dot : write '.' = ['.']
  dot_not_mem : ∀ {c}, c ≠ '.' → '.' ∉ write c

/-- Every dot of a text replaced. -/
def replaceDots (new t : Text) : Text := t.flatMap fun c => if c = '.' then new else [c]

theorem replaceDots_append (new a b : Text) :
    replaceDots new (a ++ b) = replaceDots new a ++ replaceDots new b := by
  simp [replaceDots]

theorem replaceDots_of_not_mem {new t : Text} (h : '.' ∉ t) : replaceDots new t = t := by
  induction t with
  | nil => rfl
  | cons c t ih =>
    obtain ⟨hc, ht⟩ : '.' ≠ c ∧ '.' ∉ t := by simpa using h
    simpa [replaceDots, hc.symm] using ih ht

namespace NameForm

/-- The form whose quote is the opener as well, and is doubled between the two. -/
def doubling (mark : Char) (hslash : mark ≠ backslash) (hdot : mark ≠ '.') : NameForm where
  opener := [mark]
  mark := mark
  rule := .noEscapes
  write c := doubled mark [c]
  mark_ne_dot := hdot
  stands c := stands_doubled hslash [c]
  write_dot := by simp [doubled, hdot.symm]
  dot_not_mem := by simp [mem_doubled_iff, eq_comm]

theorem dot_not_mem_unicodeChar {c : Char} (hc : c ≠ '.') : '.' ∉ Postgres.unicodeChar c := by
  unfold Postgres.unicodeChar
  split
  · rintro (_ | ⟨_, hmem⟩)
    have hdot : '.'.isAlphanum := isAlphanum_of_mem_paddedDigits (by decide) (by decide) hmem
    contradiction
  · simpa using hc.symm

/-- The form with code points. -/
def codePoints : NameForm where
  opener := Postgres.nameOpener true
  mark := quotation
  rule := Postgres.codePoints
  write := Postgres.unicodeChar
  mark_ne_dot := by decide
  stands := Postgres.stands_unicodeChar (.inr rfl)
  write_dot := rfl
  dot_not_mem := dot_not_mem_unicodeChar

variable (form : NameForm)

/-- A piece of a name in its quotes. -/
def quoted (piece : Text) : Text := form.opener ++ piece.flatMap form.write ++ [form.mark]

theorem quoted_cons (c : Char) (piece : Text) :
    form.quoted (c :: piece) =
      form.opener ++ form.write c ++ (piece.flatMap form.write ++ [form.mark]) := by
  simp [quoted]

/-- Writing the characters and replacing the dots keep out of each other's way: it comes to the
same if the name is split first and every piece is quoted. -/
theorem quotedPath_eq_replaceDots (name : Text) :
    Name.quotedPath form.quoted true name =
      form.opener ++ (replaceDots (form.mark :: '.' :: form.opener) (name.flatMap form.write) ++
        [form.mark]) := by
  rw [Name.quotedPath, if_pos rfl]
  induction name with
  | nil => simp [Name.pieces, quoted, replaceDots, List.intercalate]
  | cons c rest ih =>
    obtain ⟨p, ps, hp⟩ := List.exists_cons_of_ne_nil (Name.pieces_ne_nil rest)
    rw [hp] at ih
    rw [Name.pieces, hp, List.flatMap_cons, replaceDots_append]
    by_cases hc : c = '.'
    · -- The dot closes an empty piece and opens what is written for the rest.
      rw [if_pos hc, List.map_cons, intercalate_cons_of_ne_nil _ _ (by simp), ih, hc,
        form.write_dot]
      simp [quoted, replaceDots]
    · rw [List.map_cons, quoted, List.append_assoc, intercalate_append_cons,
        List.append_cancel_left_eq] at ih
      rw [if_neg hc, replaceDots_of_not_mem (form.dot_not_mem hc), List.map_cons, quoted_cons,
        intercalate_append_cons, ih]
      simp

/-! ### Paths read back -/

variable {form}

/-- A reader of the form's identifiers: behind the opener it reads as the form says. -/
def ReadBy (form : NameForm) (part? : Text → Option (Text × Text)) : Prop :=
  ∀ body, part? (form.opener ++ body) = (decode form.mark form.rule body).bind closing

variable {part? : Text → Option (Text × Text)}

theorem ReadBy.part?_quoted (h : form.ReadBy part?) (piece : Text) {rest : Text}
    (hrest : rest.head? ≠ some form.mark) :
    part? (form.quoted piece ++ rest) = some (piece, rest) := by
  have hbody : Stands form.mark form.rule (piece.flatMap form.write) piece :=
    .flatMap fun c _ => form.stands c
  rw [quoted, List.append_assoc, List.append_assoc, h, List.singleton_append,
    hbody.decode_append_mark hrest]
  rfl

/-- Quoted pieces with dots between them read back as the pieces. -/
theorem ReadBy.readPath_intercalate (h : form.ReadBy part?) {parts : List Text}
    (hne : parts ≠ []) :
    readPath part? (['.'].intercalate (parts.map form.quoted)) = some parts := by
  induction parts with
  | nil => contradiction
  | cons p parts ih =>
    by_cases hparts : parts = []
    · have hread : part? (form.quoted p ++ []) = some (p, []) := h.part?_quoted p (by simp)
      rw [List.append_nil] at hread
      rw [hparts, List.map_singleton, List.intercalate_singleton, readPath, hread]
    · have hdot (t : Text) : ('.' :: t).head? ≠ some form.mark := by simp [form.mark_ne_dot.symm]
      rw [List.map_cons, intercalate_cons_of_ne_nil _ _ (by simpa using hparts), readPath,
        List.singleton_append, h.part?_quoted p (hdot _)]
      simp [ih hparts]
      omega

theorem ReadBy.readPath_quotedPath (h : form.ReadBy part?) (splits : Bool) (name : Text) :
    readPath part? (Name.quotedPath form.quoted splits name) =
      some (if splits then name.splitOn '.' else [name]) := by
  rw [Name.quotedPath, Name.pieces_eq_splitOn]
  apply h.readPath_intercalate
  split <;> simp

end NameForm

/-! ### The forms of the dialects -/

namespace Family

/-- How a family writes identifiers: as its grammar has it, or with code points, for which only
Postgres has a form. -/
def nameStyle : Family → (unicode : Bool) → NameStyle
  | postgres, true => Postgres.nameStyle true
  | f, _ => f.grammar.nameStyle

/-- The form of the identifiers that a family writes. -/
def nameForm : Family → (unicode : Bool) → NameForm
  | mysql, _ => .doubling backtick (by decide) (by decide)
  | postgres, false => .doubling quotation (by decide) (by decide)
  | postgres, true => .codePoints

/-- How a family reads identifiers. -/
def readName? : Family → Text → Option (Text × Text)
  | mysql => MySQL.readName?
  | postgres => Postgres.readName?

/-- Whether a name holds a character that its form cannot spell. -/
def isUnspeakable (f : Family) (unicode : Bool) (name : Text) : Bool :=
  f = postgres && !unicode && name.contains nul

theorem readBy_readName? (f : Family) (unicode : Bool) :
    (f.nameForm unicode).ReadBy f.readName? := by
  intro body
  cases f with
  | mysql => rfl
  | postgres => cases unicode <;> rfl

theorem quoted_doubling {mark : Char} (hslash : mark ≠ backslash) (hdot : mark ≠ '.') :
    (NameForm.doubling mark hslash hdot).quoted = fun p => between mark (doubled mark p) := by
  funext p
  simp [NameForm.quoted, NameForm.doubling, between, doubled]

/-- A name is written in the form of its family, unless it cannot be spelled there. -/
theorem quote_eq (f : Family) (unicode splits : Bool) (name : Text) :
    (f.nameStyle unicode).quote splits name =
      if f.isUnspeakable unicode name then .error (.unrepresentable nul [quotation])
      else .ok (Name.quotedPath (f.nameForm unicode).quoted splits name) := by
  cases f with
  | mysql =>
    rw [nameForm, quoted_doubling]
    rfl
  | postgres =>
    cases unicode with
    | true => rfl
    | false =>
      show (Postgres.withoutNul [quotation] name).map _ = _
      rw [Postgres.withoutNul, isUnspeakable, nameForm, quoted_doubling]
      cases name.contains nul <;> rfl

end Family

/-! ### Names of values -/

/-- A value that is a single name in the place of an identifier: no series and no trusted
fragment. -/
def Value.IsName (trust : TrustPolicy) (v : Value) : Prop :=
  v.kind trust ≠ .sequence ∧ v.kind trust ≠ .fragment

/-- Such a value goes by its plain description, which is split unless that is forbidden or the
value is a trusted identifier. -/
theorem NameStyle.escape_eq_quote (style : NameStyle) {trust : TrustPolicy} {v : Value}
    (forbidQualified : Bool) (hv : v.IsName trust) :
    style.escape trust forbidQualified v =
      style.quote (!(forbidQualified || v.kind trust = .identifier)) v.plain := by
  obtain ⟨hsequence, hfragment⟩ := hv
  cases v with
  | series form items => exact absurd rfl hsequence
  | fragment f =>
    have hf : trust.trustsFragment f = false := by simpa [Value.kind] using hfragment
    simp [NameStyle.escape, Series.flat, NameStyle.escapeOne, hf, Value.kind, Value.plain]
  | identifier i =>
    cases hi : trust.trustsIdentifier i <;>
      simp [NameStyle.escape, Series.flat, NameStyle.escapeOne, hi, Value.kind, Value.plain]
  | _ => simp [NameStyle.escape, Series.flat, NameStyle.escapeOne, Value.kind]

variable {f : Family} {unicode forbidQualified : Bool} {trust : TrustPolicy} {v w : Value}
  {b : Text}

theorem readPath_of_escape (hv : v.IsName trust)
    (h : (f.nameStyle unicode).escape trust forbidQualified v = .ok b) :
    readPath f.readName? b =
      some (if forbidQualified ∨ v.kind trust = .identifier then [v.plain]
        else v.plain.splitOn '.') := by
  rw [NameStyle.escape_eq_quote _ _ hv, f.quote_eq] at h
  split at h
  · contradiction
  · rw [← Except.ok.inj h, (f.readBy_readName? unicode).readPath_quotedPath]
    cases forbidQualified <;> by_cases hid : v.kind trust = .identifier <;> simp [hid]

/-- The dots put back between the pieces that are read give the name. -/
theorem plain_eq_of_readPath {parts : List Text}
    (h : readPath f.readName? b = some parts) (hv : v.IsName trust)
    (hb : (f.nameStyle unicode).escape trust forbidQualified v = .ok b) :
    v.plain = ['.'].intercalate parts := by
  rw [readPath_of_escape hv hb, Option.some.injEq] at h
  rw [← h]
  split
  · exact List.intercalate_singleton.symm
  · exact (List.intercalate_splitOn '.').symm

/-- What is written for a name reads back to its end, as the pieces between its dots, or as the
name alone if splitting is forbidden or the value is a trusted identifier.  So different names
are written differently.  All names are written but those with a character that cannot be
spelled. -/
theorem names_read_back (f : Family) (unicode : Bool) (trust : TrustPolicy)
    (forbidQualified : Bool) :
    (∀ v b, v.IsName trust → (f.nameStyle unicode).escape trust forbidQualified v = .ok b →
        readPath f.readName? b =
          some (if forbidQualified ∨ v.kind trust = .identifier then [v.plain]
            else v.plain.splitOn '.')) ∧
      (∀ v w b, v.IsName trust → w.IsName trust →
        (f.nameStyle unicode).escape trust forbidQualified v = .ok b →
        (f.nameStyle unicode).escape trust forbidQualified w = .ok b → v.plain = w.plain) ∧
      ∀ v, v.IsName trust →
        if f.isUnspeakable unicode v.plain then
          (f.nameStyle unicode).escape trust forbidQualified v =
            .error (.unrepresentable nul [quotation])
        else ∃ b, (f.nameStyle unicode).escape trust forbidQualified v = .ok b := by
  refine ⟨fun v b => readPath_of_escape, fun v w b hv hw hvb hwb => ?_, fun v hv => ?_⟩
  · have hread := readPath_of_escape hv hvb
    rw [plain_eq_of_readPath hread hv hvb, plain_eq_of_readPath hread hw hwb]
  · rw [NameStyle.escape_eq_quote _ _ hv, f.quote_eq]
    split
    · rfl
    · exact ⟨_, rfl⟩

/-- Empty pieces and a piece that is one quote, in all forms; a trusted identifier with a dot; and
the zero character where it cannot be spelled. -/
theorem names_read_back_empty_pieces :
    let trust := defaultMinter.policy
    let v : Value := .ofText ['.', backtick, '.']
    let b : Text := [backtick, backtick, '.', backtick, backtick, backtick, backtick, '.',
      backtick, backtick]
    let w : Value := .ofText [quotation, '.', backslash]
    let i : Value := .identifier (defaultMinter.mintId ['a', '.'])
    let quoted : Text := [quotation, 'a', '.', quotation]
    let z : Value := .ofText [nul]
    v.IsName trust ∧ (Family.mysql.nameStyle false).escape trust false v = .ok b ∧
      readPath MySQL.readName? b = some [[], [backtick], []] ∧
      w.IsName trust ∧ (Family.postgres.nameStyle true).escape trust false w =
        .ok "u&\"\\0022\".u&\"\\005c\"".toList ∧
      readPath Postgres.readName? "u&\"\\0022\".u&\"\\005c\"".toList =
        some [[quotation], [backslash]] ∧
      i.IsName trust ∧ (Family.postgres.nameStyle false).escape trust false i = .ok quoted ∧
      readPath Postgres.readName? quoted = some [['a', '.']] ∧
      z.IsName trust ∧ (Family.postgres.nameStyle false).escape trust false z =
        .error (.unrepresentable nul [quotation]) := by
  intro trust v b w i quoted z
  have hv : v.IsName trust := ⟨nofun, nofun⟩
  have hw : w.IsName trust := ⟨nofun, nofun⟩
  have hz : z.IsName trust := ⟨nofun, nofun⟩
  have hi : i.IsName trust := by constructor <;> decide
  have hvb : (Family.mysql.nameStyle false).escape trust false v = .ok b := by cbv
  have hwb : (Family.postgres.nameStyle true).escape trust false w =
      .ok "u&\"\\0022\".u&\"\\005c\"".toList := by cbv
  have hib : (Family.postgres.nameStyle false).escape trust false i = .ok quoted := by cbv
  have hread := (names_read_back .mysql false trust false).1 v b hv hvb
  have hreadw := (names_read_back .postgres true trust false).1 w _ hw hwb
  have hreadi := (names_read_back .postgres false trust false).1 i quoted hi hib
  have hrefused := (names_read_back .postgres false trust false).2.2 z hz
  exact ⟨hv, hvb, hread, hw, hwb, hreadw, hi, hib, hreadi, hz, hrefused⟩

end SqlWeave
