/-
SqlWeave/Value/Basic.lean

The values that can be woven into SQL text.
-/
import SqlWeave.Trust
import SqlWeave.Number.Basic
import SqlWeave.Calendar.Civil
import SqlWeave.Calendar.Describe

namespace SqlWeave

open Calendar

/-- How a number or a text speaks of itself. -/
inductive Face
  /-- By what it is. -/
  | own
  /-- By some other text. -/
  | masked (shown : Text)
  /-- As a member of an enumeration. -/
  | member (enumeration name : Text)
  deriving DecidableEq

/-- The kinds of byte strings. -/
inductive BlobForm
  | bytes
  | array
  | view
  deriving DecidableEq

/-- The kinds of sequences. -/
inductive SeriesForm
  | list
  | tuple
  | set
  | generator
  | range (start stop step : Int)
  | keys
  deriving DecidableEq

/-- The kinds of mappings. -/
inductive MappingForm
  | plain
  | ordered
  | wrapped
  deriving DecidableEq

/-- A value. -/
inductive Value
  | null
  | bool (b : Bool)
  | number (n : Number) (face : Face)
  | complex (re im : Binary64)
  | text (t : Text) (face : Face)
  | blob (form : BlobForm) (data : List UInt8)
  | moment (m : Moment)
  | date (d : Date)
  | time (t : TimeOfDay)
  | duration (d : Duration)
  /-- Items one after the other. -/
  | series (form : SeriesForm) (items : List Value)
  /-- Entries of a key and an item. -/
  | mapping (form : MappingForm) (entries : List (Value × Value))
  /-- A record of a declared kind with named fields. -/
  | record (kind : Text) (fields : List (Text × Value))
  /-- A member of an enumeration, of any value. -/
  | member (enumeration name : Text) (item : Value)
  /-- An object known by its description and its attributes; some can be called.  Two objects
  of one identity are the same; an object without is the same as no other. -/
  | object (shown : Text) (callable : Bool) (attributes : List (Text × Value))
    (identity : Option Text)
  | fragment (f : Fragment)
  | identifier (i : Identifier)

instance : Inhabited Value := ⟨.null⟩

namespace Value

/-- A text that describes itself as such. -/
def ofText (t : Text) : Value := text t .own

/-- An integer that describes itself as such. -/
def ofInt (n : Int) : Value := number (.int n) .own

/-- Whether the value can be called.  Such a value is never an item of SQL text. -/
def isCallable : Value → Bool
  | object _ callable _ _ => callable
  | _ => false

/-- The integers from `start` on in steps of `step`, as long as they stay before `stop`. -/
def rangeItems (start stop step : Int) : List Int :=
  let count := if step = 0 then 0 else ((stop - start + step - step.sign).fdiv step).toNat
  (List.range count).map fun (i : Nat) => start + i * step

/-- A range of integers. -/
def range (start stop step : Int) : Value :=
  series (.range start stop step) ((rangeItems start stop step).map ofInt)

end Value

end SqlWeave
