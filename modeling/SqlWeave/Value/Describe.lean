/-
SqlWeave/Value/Describe.lean

How values describe themselves.  The full description is the one used inside other
descriptions; the plain one is for reading, and differs from it for texts, dates, records
and a few more.

Main results: the descriptions of several values are those of each
(`fulls_eq_map`, `fullEntries_eq_map`, `fullFields_eq_map`).
-/
import SqlWeave.Value.Basic
import SqlWeave.Text.Quoted

namespace SqlWeave

open Text Calendar

/-! ### Faces -/

namespace Face

/-- A member of an enumeration. -/
def memberName (enumeration name : Text) : Text := enumeration ++ '.' :: name

/-- A member of an enumeration with the description of its value. -/
def memberFull (enumeration name item : Text) : Text :=
  '<' :: (memberName enumeration name ++ ':' :: ' ' :: (item ++ ['>']))

/-- The full description under a face, where `what` describes the value by what it is. -/
def full (what : Text) : Face → Text
  | own => what
  | masked shown => shown
  | member enumeration name => memberFull enumeration name what

/-- The plain description under a face. -/
def plain (what : Text) : Face → Text
  | own => what
  | masked shown => shown
  | member enumeration name => memberName enumeration name

end Face

namespace Value

/-! ### Parts -/

/-- A text between round brackets, after the name of a kind. -/
def ofKind (kind : String) (inner : Text) : Text := kind.toList ++ '(' :: (inner ++ [')'])

/-- Texts between braces. -/
def braced (items : List Text) : Text := '\x7b' :: (commaJoin items ++ ['\x7d'])

/-- Texts between round brackets.  A single one is followed by a comma. -/
def tupled : List Text → Text
  | [t] => '(' :: (t ++ [',', ')'])
  | items => '(' :: (commaJoin items ++ [')'])

/-- A number with a sign in front. -/
def withSign (x : Binary64) : Text :=
  match x.text with
  | '-' :: rest => '-' :: rest
  | t => '+' :: t

/-- A complex number; a real part of plus zero is left out. -/
def complexText (re im : Binary64) : Text :=
  if re = .zero false then im.text ++ ['j'] else '(' :: (re.text ++ withSign im ++ ['j', ')'])

/-- A number, with the kind in front where digits alone do not tell it. -/
def numberFull : Number → Text
  | .decimal d => ofKind "Decimal" (quoted d.text)
  | n => n.text

/-- A byte string. -/
def blobFull (form : BlobForm) (data : List UInt8) : Text :=
  match form with
  | .bytes => quotedBytes false data
  | .array => ofKind "bytearray" (quotedBytes true data)
  | .view => "<memory>".toList

/-- A series from the full descriptions of its items. -/
def seriesFull (form : SeriesForm) (items : List Text) : Text :=
  match form with
  | .list => bracketed items
  | .tuple => tupled items
  | .set => if items.isEmpty then "set()".toList else braced items
  | .generator => "<generator>".toList
  | .range start stop step =>
    ofKind "range" <| commaJoin <| [Text.ofInt start, Text.ofInt stop] ++
      if step = 1 then [] else [Text.ofInt step]
  | .keys => ofKind "dict_keys" (bracketed items)

/-- A mapping from the full descriptions of its keys and items. -/
def mappingFull (form : MappingForm) (entries : List (Text × Text)) : Text :=
  match form with
  | .ordered =>
    ofKind "OrderedDict" <|
      if entries.isEmpty then [] else bracketed (entries.map fun e => tupled [e.1, e.2])
  | _ => braced (entries.map fun e => e.1 ++ ':' :: ' ' :: e.2)

/-- Named fields with the full descriptions of their items. -/
def fieldsFull (fields : List (Text × Text)) : List Text :=
  fields.map fun f => f.1 ++ '=' :: f.2

/-! ### Descriptions -/

mutual

/-- The full description. -/
def full : Value → Text
  | null => "None".toList
  | bool b => if b then "True".toList else "False".toList
  | number n face => face.full (numberFull n)
  | complex re im => complexText re im
  | text t face => face.full (quoted t)
  | blob form data => blobFull form data
  | moment m => m.full
  | date d => d.full
  | time t => t.full
  | duration d => d.full
  | series form items => seriesFull form (fulls items)
  | mapping form entries => mappingFull form (fullEntries entries)
  | record kind fields => kind ++ '(' :: (commaJoin (fieldsFull (fullFields fields)) ++ [')'])
  | member enumeration name item => Face.memberFull enumeration name (full item)
  | object shown _ _ _ => shown
  | fragment f => ofKind "SqlFragment" ("content=".toList ++ quoted f.content)
  | identifier i => ofKind "SqlId" ("content=".toList ++ quoted i.content)

/-- The full description of each of the values. -/
def fulls : List Value → List Text
  | [] => []
  | v :: vs => full v :: fulls vs

/-- The full descriptions of each key and item. -/
def fullEntries : List (Value × Value) → List (Text × Text)
  | [] => []
  | (k, v) :: es => (full k, full v) :: fullEntries es

/-- The name and the full description of each field. -/
def fullFields : List (Text × Value) → List (Text × Text)
  | [] => []
  | (name, v) :: fs => (name, full v) :: fullFields fs

end

theorem fulls_eq_map (vs : List Value) : fulls vs = vs.map full := by
  induction vs with
  | nil => simp [fulls]
  | cons v vs ih => simp [fulls, ih]

theorem fullEntries_eq_map (es : List (Value × Value)) :
    fullEntries es = es.map fun e => (full e.1, full e.2) := by
  induction es with
  | nil => simp [fullEntries]
  | cons e es ih => simp [fullEntries, ih]

theorem fullFields_eq_map (fs : List (Text × Value)) :
    fullFields fs = fs.map fun f => (f.1, full f.2) := by
  induction fs with
  | nil => simp [fullFields]
  | cons f fs ih => simp [fullFields, ih]

/-- The plain description. -/
def plain : Value → Text
  | number n face => face.plain n.text
  | text t face => face.plain t
  | moment m => m.plain
  | date d => d.text
  | time t => t.plain
  | duration d => d.plain
  | record _ fields => [' '].intercalate (fieldsFull (fullFields fields))
  | member enumeration name _ => Face.memberName enumeration name
  | fragment f => f.content
  | identifier i => i.content
  | v => v.full

end Value

end SqlWeave
