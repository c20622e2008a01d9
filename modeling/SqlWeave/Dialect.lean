/-
SqlWeave/Dialect.lean

The dialects that templates can be written in: the two families, and variants of them that
go by names of their own.
-/
import SqlWeave.MySQL.Grammar
import SqlWeave.Postgres.Grammar
import SqlWeave.Registry

namespace SqlWeave

/-- The families of dialects. -/
inductive Family
  | mysql
  | postgres
  deriving DecidableEq

namespace Family

/-- The open constructs of a family. -/
abbrev Open : Family → Type
  | mysql => MySQL.Quote
  | postgres => Postgres.State

/-- The grammar of a family. -/
def grammar : (f : Family) → Grammar f.Open
  | mysql => MySQL.grammar
  | postgres => Postgres.grammar

/-- The name of a family. -/
def name : Family → Text
  | mysql => "mysql".toList
  | postgres => "postgres".toList

end Family

/-- A dialect. -/
inductive Dialect
  | builtIn (family : Family)
  /-- A dialect that differs from its family in nothing but the name. -/
  | variant (name : Text) (family : Family)
  deriving DecidableEq

namespace Dialect

/-- The family whose rules the dialect follows. -/
def family : Dialect → Family
  | builtIn f => f
  | variant _ f => f

/-- The name that the dialect gives itself. -/
def name : Dialect → Text
  | builtIn f => f.name
  | variant n _ => n

/-- The dialects that are known from the start. -/
def registry : Registry Dialect :=
  (Registry.empty.register Family.mysql.name (builtIn .mysql) []).register
    Family.postgres.name (builtIn .postgres) ["pg".toList]

end Dialect

end SqlWeave
