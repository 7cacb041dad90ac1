import ResearchLedger.Authority
/-!
What the ledger keeps for the recovery of accounts.
-/

namespace ResearchLedger

/-- An owner authority that was replaced. -/
structure ReplacedOwner where
  account : AccountName
  authority : Authority
  /-- When it was replaced. -/
  lastValid : Seconds
deriving DecidableEq

/-- A recovery partner's wish to give an account a new owner authority. -/
structure RecoveryRequest where
  account : AccountName
  newOwner : Authority
  expires : Seconds
deriving DecidableEq

/-- A new recovery partner that waits to take effect. -/
structure PartnerChange where
  account : AccountName
  partner : AccountName
  effective : Seconds
deriving DecidableEq

end ResearchLedger
