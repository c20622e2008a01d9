/-
SqlWeave/Name.lean

Values in the place of identifiers.  A name is split at its dots and every piece is quoted;
a trusted identifier is one piece whatever it holds.  A trusted fragment stays as it is, if
it is shaped like quoted identifiers with dots between them.

Main results: the pieces of a name joined by dots are the name (`intercalate_pieces`).
-/
import SqlWeave.Failure
import SqlWeave.Series
import SqlWeave.Lexer.Body
import SqlWeave.Value.Describe

namespace SqlWeave

open Text

namespace Name

/-! ### Pieces -/

/-- The pieces of a name between its dots.  There is always one. -/
def pieces : Text → List Text
  | [] => [[]]
  | c :: rest =>
    if c = '.' then [] :: pieces rest
    else match pieces rest with
      | [] => [[c]]
      | p :: ps => (c :: p) :: ps

theorem pieces_ne_nil (name : Text) : pieces name ≠ [] := by
  cases name with
  | nil => simp [pieces]
  | cons c rest =>
    rw [pieces]
    split
    · simp
    · split <;> simp

theorem intercalate_pieces (name : Text) : ['.'].intercalate (pieces name) = name := by
  induction name with
  | nil => simp [pieces, List.intercalate]
  | cons c rest ih =>
    rw [pieces]
    split
    · rename_i hc
      subst hc
      obtain ⟨p, ps, hp⟩ := List.exists_cons_of_ne_nil (pieces_ne_nil rest)
      rw [hp] at ih ⊢
      simpa [List.intercalate, List.intersperse] using ih
    · split
      · rename_i hp
        exact absurd hp (pieces_ne_nil rest)
      · rename_i p ps hp
        rw [hp] at ih
        rw [← ih]
        cases ps <;> simp [List.intercalate, List.intersperse]

theorem mem_of_mem_pieces {name p : Text} {c : Char} (hp : p ∈ pieces name) (hc : c ∈ p) :
    c ∈ name := by
  induction name generalizing p with
  | nil =>
    obtain rfl : p = [] := by simpa [pieces] using hp
    exact hc
  | cons d rest ih =>
    rw [pieces] at hp
    split at hp
    · rcases List.mem_cons.1 hp with rfl | hp
      · simp at hc
      · exact List.mem_cons_of_mem d (ih hp hc)
    · split at hp
      · rename_i hnil
        exact absurd hnil (pieces_ne_nil rest)
      · rename_i q qs hq
        rcases List.mem_cons.1 hp with rfl | hp
        · rcases List.mem_cons.1 hc with rfl | hc
          · exact List.mem_cons_self
          · exact List.mem_cons_of_mem d (ih (by simp [hq]) hc)
        · exact List.mem_cons_of_mem d (ih (by simp [hq, hp]) hc)

/-- The pieces of a name, or the name as a single piece, each quoted, with dots between. -/
def quotedPath (quote : Text → Text) (splits : Bool) (name : Text) : Text :=
  ['.'].intercalate ((if splits then pieces name else [name]).map quote)

/-! ### Shapes -/

/-- What follows a quoted identifier whose opening quote has been read.  It must not be
empty. -/
def afterPart? (mark : Char) (escapes : Bool) (body : Text) : Option Text :=
  match readBody mark escapes body with
  | .closed rest => if rest.length + 1 < body.length then some rest else none
  | _ => none

/-- Whether a text is made of parts with dots between them, where `part?` reads a part. -/
def isPath (part? : Text → Option Text) (text : Text) : Bool :=
  match part? text with
  | none => false
  | some [] => true
  | some (c :: rest) =>
    c = '.' && (if rest.length < text.length then isPath part? rest else false)
termination_by text.length

end Name

/-- How a dialect writes identifiers. -/
structure NameStyle where
  /-- What follows the quoted identifier that a text begins with. -/
  part? : Text → Option Text
  /-- A name, quoted, with its pieces apart or as a single one. -/
  quote : (splits : Bool) → (name : Text) → Except Failure Text

namespace NameStyle

/-- Whether a text is a quoted identifier, or where `qualified` holds several with dots. -/
def isQuoted (style : NameStyle) (qualified : Bool) (text : Text) : Bool :=
  if qualified then Name.isPath style.part? text else style.part? text = some []

/-- A value that is no series, as an identifier. -/
def escapeOne (style : NameStyle) (trust : TrustPolicy) (forbidQualified : Bool) (v : Value) :
    Except Failure Text :=
  match v with
  | .fragment f =>
    if trust.trustsFragment f then
      if style.isQuoted (!forbidQualified) f.content then .ok f.content
      else .error (.malformedIdentifier f.content forbidQualified)
    else style.quote (!forbidQualified) f.content
  | .identifier i => style.quote (!forbidQualified && !trust.trustsIdentifier i) i.content
  | v => style.quote (!forbidQualified) v.plain

/-- A value as an identifier, or a series as a list of them. -/
def escape (style : NameStyle) (trust : TrustPolicy) (forbidQualified : Bool) (v : Value) :
    Except Failure Text :=
  Series.flat (style.escapeOne trust forbidQualified) v

end NameStyle

end SqlWeave
