import ResearchLedger.AccountName
import ResearchLedger.Quantity
/-!
Grants: money held for the active contents of a discipline.
-/

namespace ResearchLedger

/-- A grant with what is left of its money. -/
structure Grant where
  id : GrantId
  owner : AccountName
  discipline : DisciplineId
  /-- The money still held. -/
  amount : Amount
  perBlock : Amount
  startBlock : Nat
  endBlock : Nat
deriving DecidableEq

end ResearchLedger
