import ResearchLedger.AccountName
import ResearchLedger.Quantity
/-!
What the ledger reports of its transitions. Events are handed to the caller and not stored.
-/

namespace ResearchLedger

/-- Something that a transition brought about. -/
inductive Event where
  | withdrawFilled (source target : AccountName) (withdrawn deposited : Amount) (asCommonTokens : Bool)
  | delegationReturned (account : AccountName) (amount : Amount)
  | contentRewarded (content : ContentId) (discipline : DisciplineId) (reward : Amount)
  | curatorRewarded (curator : AccountName) (content : ContentId) (reward : Amount)
  | reviewRewarded (author : AccountName) (review : ReviewId) (reward : Amount)
  | reviewVoterRewarded (voter : AccountName) (review : ReviewId) (reward : Amount)
  | groupRewarded (group : GroupId) (research : ResearchId) (reward : Amount)
  | tokenHolderRewarded (account : AccountName) (research : ResearchId) (reward : Amount)
  | expertiseRewarded (account : AccountName) (discipline : DisciplineId) (amount : Amount)
  | grantPaid (grant : GrantId) (group : GroupId) (amount : Amount)
  | grantFinished (grant : GrantId) (owner : AccountName) (refunded : Amount)
  | proposalApproved (proposal : ProposalId) (group : GroupId)
  | proposalExpired (proposal : ProposalId)
  | contentDeactivated (content : ContentId)
deriving DecidableEq

end ResearchLedger
