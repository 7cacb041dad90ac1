import ResearchLedger.AccountName
import ResearchLedger.Quantity
/-!
Proposals on which the members of a research group vote.
-/

namespace ResearchLedger

/-- How far a proposal has come; the last two are final. -/
inductive ProposalStatus where
  | active
  | approved
  | expired
deriving DecidableEq

/-- A proposal and the votes for it. -/
structure Proposal where
  id : ProposalId
  group : GroupId
  creator : AccountName
  data : String
  quorumPercent : Nat
  status : ProposalStatus
  voters : SortedSet AccountName
  /-- The group tokens of all voters. -/
  totalVoted : Nat
  created : Seconds
  expiration : Seconds
deriving DecidableEq

end ResearchLedger
