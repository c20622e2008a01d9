/-
SqlWeave/Options/Basic.lean

The options that steer how values are written.
-/
import SqlWeave.Text.Quoted
import SqlWeave.Trust
import SqlWeave.Calendar.Civil

namespace SqlWeave

/-- The options of one weaving. -/
structure Options where
  /-- Whether mappings and objects are written as one string instead of assignments. -/
  stringifyObjects : Bool
  /-- The time zone from which moments are seen. -/
  timeZone : Text
  /-- Whether a dot is an ordinary character of an identifier. -/
  forbidQualified : Bool
  deriving DecidableEq

namespace Options

/-- The options where none are given. -/
def default : Options := ⟨false, "local".toList, false⟩

/-- The description of a truth value. -/
def flagText (b : Bool) : Text := if b then "True".toList else "False".toList

/-- The full description. -/
def full (o : Options) : Text :=
  "EscapeOptions(stringify_objects=".toList ++ flagText o.stringifyObjects ++
    ", time_zone=".toList ++ o.timeZone.quoted ++
    ", forbid_qualified=".toList ++ flagText o.forbidQualified ++ [')']

end Options

/-- What the writing of a value depends on besides the options: whom to trust, and what the
host's clock shows. -/
structure Surroundings where
  trust : TrustPolicy
  host : Calendar.Clock

end SqlWeave
