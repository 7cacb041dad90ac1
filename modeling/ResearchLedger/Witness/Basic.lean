import ResearchLedger.Asset.Basic
import ResearchLedger.PublicKey
/-!
Witnesses and what they propose for the chain.
-/

namespace ResearchLedger

/-- The chain properties that a witness proposes. -/
structure ChainProperties where
  accountCreationFee : Asset := .primary 1000
  maximumBlockSize : Nat := 131072
deriving DecidableEq

/-- A registered witness and the votes for it. -/
structure Witness where
  owner : AccountName
  url : String
  signingKey : PublicKey
  properties : ChainProperties
  votes : Amount
  created : Seconds
deriving DecidableEq

/-- A witness without votes, and nothing said of its site. -/
def Witness.fresh (owner : AccountName) (signingKey : PublicKey) (created : Seconds) : Witness :=
  ⟨owner, "", signingKey, {}, 0, created⟩

end ResearchLedger
