/-
SqlWeave/Template/Tag.lean

Templates, and the tags that turn them into trusted SQL.  A weaver knows a dialect, whom the
dialect trusts, and who certifies the finished text; a tag adds options.
-/
import SqlWeave.Dialect
import SqlWeave.Template.Weave
import SqlWeave.Options.Override

namespace SqlWeave

/-- A template, in one of the forms that a tag takes. -/
inductive Template
  /-- A single literal. -/
  | literal (text : Text)
  /-- Literal chunks, whose values are given apart. -/
  | chunks (chunks : List Value)
  /-- Literal chunks together with their values. -/
  | carrying (chunks values : List Value)

/-- The chunks and the values of a template that is given further values. -/
def Template.split (template : Template) (given : List Value) :
    Except Failure (List Value × List Value) :=
  match template with
  | literal text => .ok ([.ofText text], given)
  | chunks cs => .ok (cs, given)
  | carrying cs values => if given.isEmpty then .ok (cs, values) else .error .valuesGivenTwice

/-- A dialect at work. -/
structure Weaver where
  dialect : Dialect
  /-- Tells trusted values from others. -/
  trust : TrustPolicy
  /-- Certifies the finished text. -/
  minter : TrustPolicy

namespace Weaver

/-- The weaver for a dialect.  Where no policy is given, the dialect trusts the default minter,
and the finished text is certified by whom the dialect trusts. -/
def ofDialect (dialect : Dialect) (trust minter : Option TrustPolicy) : Weaver :=
  let trust := trust.getD defaultMinter.policy
  ⟨dialect, trust, minter.getD trust⟩

/-- The text of values between chunks, certified. -/
def weave (w : Weaver) (host : Calendar.Clock) (options : Options) (chunks values : List Value) :
    Except Failure Fragment :=
  (Template.weave w.dialect.family.grammar ⟨w.trust, host⟩ options (chunks.map Value.plain)
    values).map w.minter.mint

end Weaver

/-- A weaver with options. -/
structure Tag extends Weaver where
  options : Options

namespace Tag

/-- The tag for a dialect that may come with a trust policy of its own.  Where no minter is
given, the default minter certifies the finished text. -/
def ofDialect (dialect : Dialect) (trust : Option TrustPolicy) (options : Options)
    (minter : Option TrustPolicy) : Tag :=
  ⟨.ofDialect dialect trust (minter.getD defaultMinter.policy), options⟩

/-- The tag for a registered dialect, which trusts whoever certifies the finished text. -/
def ofName (r : Registry Dialect) (name : Text) (options : Options)
    (minter : Option TrustPolicy) : Except Failure Tag :=
  (r.resolve name).map fun dialect => ofDialect dialect minter options minter

/-- The tag with some options overridden. -/
def withOverrides (t : Tag) (new : Overrides) : Tag := { t with options := new.applyTo t.options }

/-- The trusted SQL of a template. -/
def render (t : Tag) (host : Calendar.Clock) (template : Template) (given : List Value) :
    Except Failure Fragment := do
  let (chunks, values) ← template.split given
  t.weave host t.options chunks values

/-- A value that stands free. -/
def escape (t : Tag) (host : Calendar.Clock) (v : Value) : Except Failure Text :=
  t.dialect.family.grammar.escape ⟨t.trust, host⟩ t.options v

/-- A value as an identifier. -/
def escapeId (t : Tag) (v : Value) : Except Failure Text :=
  t.dialect.family.grammar.escapeId t.trust t.options.forbidQualified v

/-- The full description. -/
def full (t : Tag) : Text :=
  "SqlTag(".toList ++ t.dialect.name.quoted ++ [',', ' '] ++ t.options.full ++ [')']

/-- The tag as a value that can be woven itself: an object that can be called. -/
def toValue (t : Tag) (identity : Text) : Value := .object t.full true [] (some identity)

end Tag

end SqlWeave
