/-
SqlWeave/Value/Same.lean

When two values are the same, which is also when they are the same key of a mapping; and how
mappings and records are built: an entry with a known key replaces the item and keeps the key
that came first.

Numbers of all kinds are compared by their value, and truth counts as one.  The order of
entries matters only between two mappings that are both ordered, and that of fields never.
Objects are compared by their identity.

Main results: an item put under a known key changes no key, and a new key comes last
(`keys_put`).
-/
import SqlWeave.Value.Basic

/-! ### Lists of keys and items -/

namespace SqlWeave.Entries

variable {κ α : Type}

/-- Puts an item under a key.  A key that is known already stays as it stands, and only its
item is replaced. -/
def put (sameKey : κ → κ → Bool) (key : κ) (item : α) : List (κ × α) → List (κ × α)
  | [] => [(key, item)]
  | (k, a) :: es =>
    if sameKey k key then (k, item) :: es else (k, a) :: put sameKey key item es

/-- The entries that are left when items are put one after the other. -/
def ofList (sameKey : κ → κ → Bool) (given : List (κ × α)) : List (κ × α) :=
  given.foldl (fun es e => put sameKey e.1 e.2 es) []

theorem keys_put (sameKey : κ → κ → Bool) (key : κ) (item : α) (es : List (κ × α)) :
    (put sameKey key item es).map Prod.fst =
      es.map Prod.fst ++ if es.any (fun e => sameKey e.1 key) then [] else [key] := by
  induction es with
  | nil => rfl
  | cons e es ih =>
    rw [List.any_cons]
    cases h : sameKey e.1 key
    · rw [Bool.false_or]
      simp [put, h, ih]
    · simp [put, h]

end SqlWeave.Entries

namespace SqlWeave.Value

open Calendar

/-- The number that a value is, where truth is one and falsehood zero. -/
def number? : Value → Option Number
  | bool b => some (.int (if b then 1 else 0))
  | number n _ => some n
  | complex re (.finite _ 0 _) => some (.binary re)
  | _ => none

/-- Whether two moments are the same.  One with an offset is never the same as one without,
and one that stands for no moment is not even the same as itself. -/
def sameMoment (a b : Moment) : Bool :=
  a.definite && b.definite && a.offset.isSome == b.offset.isSome && a.instant .zero == b.instant .zero

/-- Whether the order of the items of such a series does not matter. -/
def isUnordered : SeriesForm → Bool
  | .set | .keys => true
  | _ => false

mutual

/-- Whether two values are the same. -/
def same : Value → Value → Bool
  | null, null => true
  | complex re im, complex re' im' =>
    Number.same (.binary re) (.binary re') && Number.same (.binary im) (.binary im')
  | text t _, text t' _ => t = t'
  | blob _ data, blob _ data' => data = data'
  | moment m, moment m' => sameMoment m m'
  | date d, date d' => d = d'
  | time t, time t' => t = t'
  | duration d, duration d' => d = d'
  | series form items, series form' items' =>
    match form, form' with
    | .list, .list => sameAll items items'
    | .tuple, .tuple => sameAll items items'
    | .range .., .range .. => sameAll items items'
    | _, _ =>
      isUnordered form && isUnordered form' && items.length = items'.length &&
        allIn items items'
  | mapping form entries, mapping form' entries' =>
    entries.length = entries'.length && entriesIn entries entries' &&
      (form ≠ .ordered || form' ≠ .ordered || sameKeys entries entries')
  | record kind fields, record kind' fields' =>
    kind = kind' && fields.length = fields'.length && fieldsIn fields fields'
  | object _ _ _ identity, object _ _ _ identity' => identity.isSome && identity = identity'
  | fragment f, fragment f' => f.content = f'.content
  | identifier i, identifier i' => i.content = i'.content
  | a, b =>
    match a.number?, b.number? with
    | some m, some n => Number.same m n
    | _, _ => false

/-- Whether two lists hold the same values in the same order. -/
def sameAll : List Value → List Value → Bool
  | [], [] => true
  | v :: vs, w :: ws => same v w && sameAll vs ws
  | _, _ => false

/-- Whether each value is the same as one of the others. -/
def allIn : List Value → List Value → Bool
  | [], _ => true
  | v :: vs, ws => ws.any (fun w => same v w) && allIn vs ws

/-- Whether each entry is the same as one of the others. -/
def entriesIn : List (Value × Value) → List (Value × Value) → Bool
  | [], _ => true
  | (k, v) :: es, others =>
    others.any (fun e => same k e.1 && same v e.2) && entriesIn es others

/-- Whether two lists of entries have the same keys in the same order. -/
def sameKeys : List (Value × Value) → List (Value × Value) → Bool
  | [], [] => true
  | (k, _) :: es, (k', _) :: others => same k k' && sameKeys es others
  | _, _ => false

/-- Whether each field is the same as one of the others. -/
def fieldsIn : List (Text × Value) → List (Text × Value) → Bool
  | [], _ => true
  | (name, v) :: fs, others =>
    others.any (fun f => name = f.1 && same v f.2) && fieldsIn fs others

end

/-- The entries of a mapping that is given its items one after the other. -/
def entriesOf (given : List (Value × Value)) : List (Value × Value) := Entries.ofList same given

/-- The fields of a record that is given its items one after the other. -/
def fieldsOf (given : List (Text × Value)) : List (Text × Value) :=
  Entries.ofList (fun name name' => name = name') given

end SqlWeave.Value
