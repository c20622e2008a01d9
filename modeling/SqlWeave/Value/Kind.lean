/-
SqlWeave/Value/Kind.lean

The kinds of values that escaping tells apart, and what a value offers to it: its items,
its entries, its public attributes.

Main results: a series is a sequence under every policy
(`kind_series`), and an untrusted fragment or identifier is of no
kind of its own (`kind_fragment_eq_other_iff`, `kind_identifier_eq_other_iff`).
-/
import SqlWeave.Value.Basic

namespace SqlWeave

/-- The kinds of values that escaping tells apart. -/
inductive ValueKind
  | null
  | bool
  | number
  | text
  | moment
  | blob
  | sequence
  | mapping
  | fragment
  | identifier
  | other
  deriving DecidableEq

namespace Value

/-- Whether the value is written as a list of its items. -/
def isSeries : Value → Bool
  | series .. => true
  | _ => false

theorem exists_of_isSeries {v : Value} (h : v.isSeries) :
    ∃ form items, v = series form items := by
  cases v <;> simp_all [isSeries]

/-- What a value yields when it is gone through one by one: a series its items, a text its
characters, some bytes their numbers, a mapping its keys, a record its fields with their
names. -/
def elements : Value → List Value
  | series _ items => items
  | text t _ => t.map fun c => ofText [c]
  | blob _ data => data.map fun b => ofInt b.toNat
  | mapping _ es => es.map Prod.fst
  | record _ fs => fs.map fun f => series .tuple [ofText f.1, f.2]
  | _ => []

/-- The kind of a value, by what the policy trusts. -/
def kind (trust : TrustPolicy) : Value → ValueKind
  | null => .null
  | bool _ => .bool
  | number .. => .number
  | text .. => .text
  | moment _ => .moment
  | blob .. => .blob
  | series .. => .sequence
  | mapping .. => .mapping
  | record .. => .mapping
  | fragment f => if trust.trustsFragment f then .fragment else .other
  | identifier i => if trust.trustsIdentifier i then .identifier else .other
  | complex .. | date _ | time _ | duration _ | member .. | object .. => .other

@[simp] theorem kind_series (trust : TrustPolicy) (form : SeriesForm) (vs : List Value) :
    kind trust (series form vs) = .sequence := rfl

theorem kind_fragment_eq_other_iff {trust : TrustPolicy} {f : Fragment} :
    kind trust (fragment f) = .other ↔ trust.trustsFragment f = false := by
  simp [kind]

theorem kind_identifier_eq_other_iff {trust : TrustPolicy} {i : Identifier} :
    kind trust (identifier i) = .other ↔ trust.trustsIdentifier i = false := by
  simp [kind]

/-- The keys and items of a mapping or record. -/
def entries : Value → List (Value × Value)
  | mapping _ es => es
  | record _ fs => fs.map fun f => (ofText f.1, f.2)
  | _ => []

/-- The attributes that an object offers: those whose name does not start with an underscore
and that cannot be called.  An object that can be called offers none. -/
def publicAttributes : Value → List (Text × Value)
  | object _ callable attributes _ =>
    if callable then []
    else attributes.filter fun a => a.1.head? != some '_' && !a.2.isCallable
  | _ => []

end Value

end SqlWeave
