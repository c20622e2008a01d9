/-
SqlWeave/Options/Override.lean

Overrides of single options, and reading them from raw settings.  An option goes by its
name or by its alias; the alias is read first, and then the name counts as unknown.

Main results: overriding twice is overriding by the merged overrides
(`applyTo_merge`).
-/
import SqlWeave.Options.Basic
import SqlWeave.Number.Binary

namespace SqlWeave

/-- The options that can be set. -/
inductive OptionField
  | stringifyObjects
  | timeZone
  | forbidQualified
  deriving DecidableEq

namespace OptionField

/-- All options, in the order in which they are read. -/
def all : List OptionField := [stringifyObjects, timeZone, forbidQualified]

/-- The name of an option. -/
def name : OptionField → Text
  | stringifyObjects => "stringify_objects".toList
  | timeZone => "time_zone".toList
  | forbidQualified => "forbid_qualified".toList

/-- The other name of an option. -/
def otherName : OptionField → Text
  | stringifyObjects => "stringifyObjects".toList
  | timeZone => "timeZone".toList
  | forbidQualified => "forbidQualified".toList

end OptionField

/-- New values for some of the options. -/
structure Overrides where
  stringifyObjects : Option Bool
  timeZone : Option Text
  forbidQualified : Option Bool
  deriving DecidableEq

namespace Overrides

/-- No override. -/
def none : Overrides := ⟨.none, .none, .none⟩

/-- The options after overriding. -/
def applyTo (o : Options) (new : Overrides) : Options :=
  ⟨new.stringifyObjects.getD o.stringifyObjects, new.timeZone.getD o.timeZone,
    new.forbidQualified.getD o.forbidQualified⟩

/-- The overrides of `old` and `new`, of which the new ones win. -/
def merge (old new : Overrides) : Overrides :=
  ⟨new.stringifyObjects.or old.stringifyObjects, new.timeZone.or old.timeZone,
    new.forbidQualified.or old.forbidQualified⟩

/-- The options that are overridden, by name in alphabetical order. -/
def fields (o : Overrides) : List OptionField :=
  (if o.forbidQualified.isSome then [.forbidQualified] else []) ++
    (if o.stringifyObjects.isSome then [.stringifyObjects] else []) ++
    (if o.timeZone.isSome then [.timeZone] else [])

theorem applyTo_merge (o : Options) (old new : Overrides) :
    (old.merge new).applyTo o = new.applyTo (old.applyTo o) := by
  obtain ⟨a, b, c⟩ := old
  obtain ⟨a', b', c'⟩ := new
  cases a' <;> cases b' <;> cases c' <;> simp [applyTo, merge]

end Overrides

/-! ### Raw settings -/

/-- The value that is given for an option. -/
inductive RawSetting
  | flag (b : Bool)
  | int (n : Int)
  | real (x : Binary64)
  | text (t : Text)
  | other
  deriving DecidableEq

/-- What is wrong with a setting. -/
inductive SettingFault
  /-- It is of no kind that could be a truth value. -/
  | notBool
  /-- It could be a truth value, but is not one. -/
  | unreadableBool
  /-- It is no text. -/
  | notText
  /-- There is no such option. -/
  | unknown
  /-- Options cannot be changed in place. -/
  | frozen
  deriving DecidableEq

namespace SettingFault

/-- The code of a fault. -/
def code : SettingFault → Text
  | notBool => "bool_type".toList
  | unreadableBool => "bool_parsing".toList
  | notText => "string_type".toList
  | unknown => "extra_forbidden".toList
  | frozen => "frozen_instance".toList

/-- The wording of a fault. -/
def message : SettingFault → Text
  | notBool => "Input should be a valid boolean".toList
  | unreadableBool => "Input should be a valid boolean, unable to interpret input".toList
  | notText => "Input should be a valid string".toList
  | unknown => "Extra inputs are not permitted".toList
  | frozen => "Instance is frozen".toList

end SettingFault

namespace RawSetting

/-- The words for falsehood. -/
def falseWords : List Text := ["0", "off", "f", "false", "n", "no"].map String.toList

/-- The words for truth. -/
def trueWords : List Text := ["1", "on", "t", "true", "y", "yes"].map String.toList

/-- A truth value from an integer.  One that does not fit into 64 bits cannot be meant. -/
def boolOfInt (n : Int) : Except SettingFault Bool :=
  if n = 0 then .ok false
  else if n = 1 then .ok true
  else if -power 2 63 ≤ n ∧ n < power 2 63 then .error .unreadableBool
  else .error .notBool

/-- The integer that a floating point number is. -/
def wholeNumber? : Binary64 → Option Int
  | .finite negative m q =>
    let den := power 2 (-q)
    let n := m * power 2 q / den
    if m % den = 0 then some (if negative then -n else n) else .none
  | _ => .none

/-- The truth value of a setting. -/
def bool? : RawSetting → Except SettingFault Bool
  | flag b => .ok b
  | int n => boolOfInt n
  | real x =>
    match wholeNumber? x with
    | some n => boolOfInt n
    | .none => .error .notBool
  | text t =>
    if t.folded ∈ falseWords then .ok false
    else if t.folded ∈ trueWords then .ok true
    else .error .unreadableBool
  | other => .error .notBool

/-- The text of a setting. -/
def text? : RawSetting → Except SettingFault Text
  | text t => .ok t
  | _ => .error .notText

end RawSetting

namespace Overrides

/-- The setting of one option and the key it was found under. -/
def find? (given : List (Text × RawSetting)) (f : OptionField) : Option (Text × RawSetting) :=
  (given.find? fun s => s.1 = f.otherName).or (given.find? fun s => s.1 = f.name)

/-- The value of one option by the rule `read`, or what is wrong with it. -/
def readField {α : Type} (read : RawSetting → Except SettingFault α)
    (given : List (Text × RawSetting)) (f : OptionField) :
    Option α × List (Text × SettingFault) :=
  match find? given f with
  | .none => (.none, [])
  | some (key, setting) =>
    match read setting with
    | .ok x => (some x, [])
    | .error fault => (.none, [(key, fault)])

/-- Whether some option is read from the key. -/
def isRead (given : List (Text × RawSetting)) (key : Text) : Bool :=
  OptionField.all.any fun f => (find? given f).any fun s => s.1 = key

/-- Reads overrides.  All faults are reported: those of the options in their order, then the
unknown keys as they were given. -/
def ofSettings (given : List (Text × RawSetting)) :
    Except (List (Text × SettingFault)) Overrides :=
  let (stringify, faults₁) := readField RawSetting.bool? given .stringifyObjects
  let (zone, faults₂) := readField RawSetting.text? given .timeZone
  let (forbid, faults₃) := readField RawSetting.bool? given .forbidQualified
  let unread := (given.filter fun s => !isRead given s.1).map fun s => (s.1, SettingFault.unknown)
  match faults₁ ++ faults₂ ++ faults₃ ++ unread with
  | [] => .ok ⟨stringify, zone, forbid⟩
  | faults => .error faults

end Overrides

end SqlWeave
