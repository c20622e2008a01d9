/-
SqlWeave/Grammar.lean

What one SQL dialect contributes to the weaving of values, and the rules that all dialects
share.  A value stands free between tokens, or it is spliced into an open construct.

Standing free, a series is a list of its items, and a mapping or an object is a list of
assignments; every value inside of these is a single literal or name.
-/
import SqlWeave.Lexer.Basic
import SqlWeave.Name
import SqlWeave.Options.Basic

namespace SqlWeave

open Text

/-! ### Values as text without quotes -/

/-- The text of a truth value. -/
def boolText (b : Bool) : Text := if b then "true".toList else "false".toList

/-- The text of a value that is no series, as it is spliced into an open quote before any
escaping. -/
def spliceOne (s : Surroundings) (zone : Text) : Value → Text
  | .null => []
  | .bool b => boolText b
  | .number n _ => n.sqlText
  | .text t _ => t
  | .moment m => (m.text? s.host zone).getD []
  | .blob _ data => data.map ofByte
  | v => v.plain

/-- The text of a value as it is spliced into an open quote before any escaping. -/
def spliceText (s : Surroundings) (options : Options) (v : Value) : Text :=
  Id.run (Series.flat (fun v => pure (spliceOne s options.timeZone v)) v)

/-! ### Dialects -/

/-- A SQL dialect, whose lexer's open constructs are the values of `σ`. -/
structure Grammar (σ : Type) where
  lexer : Lexer σ
  /-- A complete string literal. -/
  quoteString : Text → Text
  /-- A complete literal for some bytes. -/
  quoteBlob : List UInt8 → Text
  nameStyle : NameStyle
  /-- The text of a value inside the construct that `delimiter` opens. -/
  splice : Surroundings → Options → (delimiter : Text) → Value → Except Failure Text
  /-- Refuses a free-standing text whose meaning hangs on the chunk that follows it, and on
  whether another value comes after that. -/
  checkFreeStanding : (escaped following : Text) → (valueFollows : Bool) → Except Failure Unit

namespace Grammar

variable {σ : Type} (G : Grammar σ)

/-! ### Values that stand free -/

/-- A value as a single literal or name. -/
def atom (s : Surroundings) (zone : Text) : Value → Except Failure Text
  | .null => .ok "NULL".toList
  | .bool b => .ok (boolText b)
  | .number n _ => .ok n.sqlText
  | .text t _ => .ok (G.quoteString t)
  | .moment m =>
    match m.text? s.host zone with
    | some t => .ok (G.quoteString t)
    | none => .ok "NULL".toList
  | .blob _ data => .ok (G.quoteBlob data)
  | .fragment f =>
    .ok (if s.trust.trustsFragment f then f.content else G.quoteString f.content)
  | .identifier i =>
    if s.trust.trustsIdentifier i then G.nameStyle.escape s.trust false (.identifier i)
    else .ok (G.quoteString i.content)
  | v => .ok (G.quoteString v.plain)

/-- A value as an atom, or a series as a list of atoms and groups of atoms. -/
def item (s : Surroundings) (zone : Text) : Value → Except Failure Text
  | .series _ items => Series.write (G.atom s zone) true items
  | v => G.atom s zone v

theorem item_of_not_isSeries {s : Surroundings} {zone : Text} {v : Value}
    (h : v.isSeries = false) : G.item s zone v = G.atom s zone v := by
  cases v <;> simp_all [item, Value.isSeries]

/-- Assignments of items to names.  What can be called is left out. -/
def assignments (s : Surroundings) (zone : Text) (pairs : List (Value × Value)) :
    Except Failure Text := do
  let kept := pairs.filter fun p => !p.2.isCallable
  let written ← kept.mapM fun (key, v) => do
    let name ← G.nameStyle.escape s.trust false key
    let t ← G.item s zone v
    return name ++ [' ', '=', ' '] ++ t
  return commaJoin written

/-- The pairs that a value is written as when it may be taken apart: the entries of a
mapping, or the public attributes of an object that has any. -/
def pairs? (v : Value) : Option (List (Value × Value)) :=
  match v with
  | .mapping .. | .record .. => some v.entries
  | _ =>
    match v.publicAttributes with
    | [] => none
    | attributes => some (attributes.map fun a => (.ofText a.1, a.2))

/-- A value as a text that can stand between tokens. -/
def escape (s : Surroundings) (options : Options) (v : Value) : Except Failure Text :=
  match if options.stringifyObjects then none else pairs? v with
  | some pairs => G.assignments s options.timeZone pairs
  | none => G.item s options.timeZone v

/-- A value as an identifier. -/
def escapeId (trust : TrustPolicy) (forbidQualified : Bool) (v : Value) : Except Failure Text :=
  G.nameStyle.escape trust forbidQualified v

end Grammar

end SqlWeave
