/-
SqlWeave/Trust.lean

Trusted SQL values.  A fragment is spliced as it stands, an identifier is quoted as
exactly one name.  Whether either may be trusted is up to a policy.  A minter brands what
it certifies, so that a value made without it is not taken for a certified one.

Main results: a minter trusts what it mints (`Minter.trusts_mint`,
`Minter.trusts_mintId`) and nothing that another minter made
(`Minter.trusts_mint_iff`).
-/
import SqlWeave.Text.Basic

namespace SqlWeave

/-- The brand of one minter. -/
structure Brand where
  serial : Nat
  deriving DecidableEq

/-- SQL text.  One without brand was made by no minter. -/
structure Fragment where
  content : Text
  brand : Option Brand
  deriving DecidableEq

/-- One identifier, unquoted. -/
structure Identifier where
  content : Text
  brand : Option Brand
  deriving DecidableEq

/-- What the escaping of values needs to know about trust. -/
structure TrustPolicy where
  trustsFragment : Fragment → Bool
  trustsIdentifier : Identifier → Bool
  /-- Certifies a text as trusted SQL. -/
  mint : Text → Fragment

/-- A policy that trusts the values of its own brand. -/
structure Minter where
  brand : Brand
  deriving DecidableEq

namespace Minter

/-- Certifies a text as trusted SQL. -/
def mint (m : Minter) (text : Text) : Fragment := ⟨text, some m.brand⟩

/-- Certifies a text as a single identifier.  Dots in it do not split it. -/
def mintId (m : Minter) (name : Text) : Identifier := ⟨name, some m.brand⟩

/-- The policy of a minter. -/
def policy (m : Minter) : TrustPolicy where
  trustsFragment f := f.brand = some m.brand
  trustsIdentifier i := i.brand = some m.brand
  mint := m.mint

@[simp] theorem trusts_mint (m : Minter) (text : Text) :
    m.policy.trustsFragment (m.policy.mint text) = true := by
  simp [policy, mint]

@[simp] theorem trusts_mintId (m : Minter) (name : Text) :
    m.policy.trustsIdentifier (m.mintId name) = true := by
  simp [policy, mintId]

theorem trusts_mint_iff (m n : Minter) (text : Text) :
    m.policy.trustsFragment (n.mint text) = true ↔ n = m := by
  cases m
  cases n
  simp [policy, mint]

end Minter

/-- The minter that is used where no other is named. -/
def defaultMinter : Minter := ⟨⟨0⟩⟩

/-- A trusted identifier with the given name. -/
def Identifier.certify (name : Text) (minter : Option Minter) : Identifier :=
  (minter.getD defaultMinter).mintId name

end SqlWeave
