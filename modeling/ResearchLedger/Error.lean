import ResearchLedger.AccountName
import ResearchLedger.Quantity
import ResearchLedger.Symbol
/-!
The reasons why the ledger refuses something, and the text of each.
-/

namespace ResearchLedger

/-- A computation whose result has to fit its range. -/
inductive Computation where
  | assetAdd
  | assetSub
  | assetNeg
  | assetParse
  | priceConvert
  | rewardCurve
  | curveDelta
  | share
  | commonTokens
  | expertTokenAmount
  | usedTokens
  | totalWeight
  | totalResearchWeight
  | totalActiveWeight
  | totalActiveResearchWeight
  | totalCuratorsWeight
  | totalActiveCuratorsWeight
  | activeDisciplinesWeight
  | disciplineWeight
  | disciplineResearchWeight
  | disciplineReviewWeight
  | reviewWeight
  | reviewCurationWeight
  | rewardBalance
  | distributed
  | groupReward
  | expertiseReward
  | proposalVotes
deriving DecidableEq

/-- What a computation is called in an error text. -/
def Computation.label : Computation → String
  | assetAdd => "asset add"
  | assetSub => "asset sub"
  | assetNeg => "asset neg"
  | assetParse => "asset parse"
  | priceConvert => "price convert"
  | rewardCurve => "reward curve"
  | curveDelta => "curve delta"
  | share => "calculate_share"
  | commonTokens => "common tokens"
  | expertTokenAmount => "expert token amount"
  | usedTokens => "abs_used_tokens"
  | totalWeight => "total_weight"
  | totalResearchWeight => "total_research_reward_weight"
  | totalActiveWeight => "total_active_weight"
  | totalActiveResearchWeight => "total_active_research_reward_weight"
  | totalCuratorsWeight => "total_curators_reward_weight"
  | totalActiveCuratorsWeight => "total_active_curators_reward_weight"
  | activeDisciplinesWeight => "total_active_disciplines_reward_weight"
  | disciplineWeight => "discipline reward weight"
  | disciplineResearchWeight => "discipline research reward weight"
  | disciplineReviewWeight => "discipline review reward weight"
  | reviewWeight => "review reward weight"
  | reviewCurationWeight => "review curation weight"
  | rewardBalance => "reward balance"
  | distributed => "distributed"
  | groupReward => "group reward"
  | expertiseReward => "expertise reward"
  | proposalVotes => "proposal total_voted"

/-- What makes a configuration unusable. -/
inductive ConfigFault where
  | zeroVoteRegeneration
  | zeroReverseAuctionWindow
  | nonPositiveVotePowerCostDivisor
  | zeroWithdrawIntervals
  | proposalLifetimesReversed
  | contentSharesExceedWhole
  | reviewVotersShareExceedsWhole
deriving DecidableEq

def ConfigFault.message : ConfigFault → String
  | zeroVoteRegeneration => "vote_regeneration_seconds must be > 0"
  | zeroReverseAuctionWindow => "reverse_auction_window_seconds must be > 0"
  | nonPositiveVotePowerCostDivisor => "vote_power_cost_divisor must be > 0"
  | zeroWithdrawIntervals => "common_tokens_withdraw_intervals must be > 0"
  | proposalLifetimesReversed => "proposal_min_lifetime exceeds proposal_max_lifetime"
  | contentSharesExceedWhole => "references + curators reward share exceeds 100%"
  | reviewVotersShareExceedsWhole => "review_voters_reward_share exceeds 100%"

/-- Why an operation does not make sense as a whole. -/
inductive OperationFault where
  | malformed
  | contentNotInResearch (content : ContentId) (research : ResearchId)
  | researchWithoutDiscipline
  | contentWithoutAuthor
  | researchTokensToSelf
  | proposalNotInGroup (proposal : ProposalId) (group : GroupId)
deriving DecidableEq

def OperationFault.message : OperationFault → String
  | malformed => "malformed"
  | contentNotInResearch content research =>
    s!"content {content} does not belong to research {research}"
  | researchWithoutDiscipline => "research must have at least one discipline"
  | contentWithoutAuthor => "research content must have at least one author"
  | researchTokensToSelf => "cannot transfer research tokens to self"
  | proposalNotInGroup proposal group =>
    s!"proposal {proposal} does not belong to research group {group}"

/-- Why a price is refused. -/
inductive PriceFault where
  | sharedSymbol
  | nonPositiveLeg
deriving DecidableEq

def PriceFault.message : PriceFault → String
  | sharedSymbol => "base and quote share a symbol"
  | nonPositiveLeg => "price legs must be positive"

/-- Why the ledger refuses something. -/
inductive LedgerError where
  | invalidSymbol (expected actual : Symbol)
  | invalidSymbolName (name : String)
  | invalidAssetString (text : String)
  | invalidPrice (fault : PriceFault)
  | overflow (what : Computation)
  | invalidAccountName (text : String)
  | invalidPublicKey (text : String)
  | nonPositiveAmount
  | invalidPercent (percent : Nat)
  | invalidOperation (fault : OperationFault)
  | invalidConfig (fault : ConfigFault)
  | accountNotFound (account : AccountName)
  | accountAlreadyExists (account : AccountName)
  | insufficientBalance (account : AccountName) (required available : Amount)
  | insufficientFee (required provided : Amount)
  | votingDeclined (account : AccountName)
  | ownerUpdateTooSoon (limit : Seconds)
  | insufficientCommonTokens (account : AccountName) (required available : Amount)
  | withdrawRateUnchanged
  | powerDownFloor (floor : Amount)
  | zeroPercentRoute
  | tooManyWithdrawRoutes (limit : Nat)
  | withdrawRoutesExceedLimit
  | selfDelegation
  | delegationUnchanged
  | proxyUnchanged
  | proxyLoop
  | proxyChainTooLong
  | proxyIsSet
  | witnessNotFound (witness : AccountName)
  | tooManyWitnessVotes (limit : Nat)
  | witnessVoteNotFound
  | witnessVoteExists
  | witnessUrlTooLong
  | impossibleAuthority
  | openAuthority
  | notRecoveryPartner (account : AccountName)
  | recoveryRequestNotFound
  | recoveryAuthorityMismatch
  | recentAuthorityNotFound
  | noTopWitness
  | expertTokenNotFound (account : AccountName) (discipline : DisciplineId)
  | insufficientVotingPower
  | invalidVoteWeight
  | zeroWeightVote
  | duplicateVote
  | disciplineNotInResearch (discipline : DisciplineId)
  | insufficientExpertise
  | notRegistrar
  | disciplineNotFound (discipline : DisciplineId)
  | researchNotFound (research : ResearchId)
  | contentNotFound (content : ContentId)
  | reviewNotFound (review : ReviewId)
  | researchGroupNotFound (group : GroupId)
  | notGroupMember (account : AccountName) (group : GroupId)
  | duplicatePermlink (permlink : String)
  | invalidPermlink (permlink : String)
  | insufficientResearchTokens (required available : Nat)
  | grantNotFound (grant : GrantId)
  | invalidGrantRange (first last : Nat)
  | proposalLifetimeOutOfRange (least greatest actual : Seconds)
  | proposalNotFound (proposal : ProposalId)
  | proposalNotActive (proposal : ProposalId)
  | proposalExpired (proposal : ProposalId)
  | alreadyVotedProposal (account : AccountName)
deriving DecidableEq

/-- The text of an error. -/
def LedgerError.message : LedgerError → String
  | invalidSymbol expected actual =>
    s!"invalid asset symbol: expected {expected.name}, got {actual.name}"
  | invalidSymbolName name => s!"invalid symbol name: {name}"
  | invalidAssetString text => s!"invalid asset string: {text}"
  | invalidPrice fault => s!"invalid price: {fault.message}"
  | overflow what => s!"arithmetic overflow in {what.label}"
  | invalidAccountName text => s!"invalid account name: {text}"
  | invalidPublicKey text => s!"invalid public key: {text}"
  | nonPositiveAmount => "amount must be positive"
  | invalidPercent percent => s!"percent {percent} exceeds 100%"
  | invalidOperation fault => s!"invalid operation: {fault.message}"
  | invalidConfig fault => s!"invalid protocol config: {fault.message}"
  | accountNotFound account => s!"account not found: {account}"
  | accountAlreadyExists account => s!"account already exists: {account}"
  | insufficientBalance account required available =>
    s!"insufficient balance on {account}: required {required}, available {available}"
  | insufficientFee required provided =>
    s!"insufficient fee: required {required}, provided {provided}"
  | votingDeclined account => s!"account {account} has declined its voting rights"
  | ownerUpdateTooSoon limit => s!"owner authority can only be updated once per {limit} seconds"
  | insufficientCommonTokens account required available =>
    s!"insufficient common tokens on {account}: required {required}, available {available}"
  | withdrawRateUnchanged => "this operation would not change the withdraw rate"
  | powerDownFloor floor =>
    s!"account requires more than {floor} common tokens before it can power down"
  | zeroPercentRoute => "cannot create a 0% withdraw route"
  | tooManyWithdrawRoutes limit => s!"account already has the maximum of {limit} withdraw routes"
  | withdrawRoutesExceedLimit => "withdraw routes exceed 100%"
  | selfDelegation => "cannot delegate to self"
  | delegationUnchanged => "delegation does not change"
  | proxyUnchanged => "proxy must change"
  | proxyLoop => "this proxy would create a proxy loop"
  | proxyChainTooLong => "proxy chain is too long"
  | proxyIsSet => "a proxy is currently set, clear the proxy before voting for a witness"
  | witnessNotFound witness => s!"witness not found: {witness}"
  | tooManyWitnessVotes limit => s!"account has voted for the maximum of {limit} witnesses"
  | witnessVoteNotFound => "witness vote does not exist"
  | witnessVoteExists => "witness vote already exists"
  | witnessUrlTooLong => "witness url is too long"
  | impossibleAuthority => "cannot recover using an impossible authority"
  | openAuthority => "cannot recover using an open authority"
  | notRecoveryPartner account => s!"{account} is not the recovery partner of this account"
  | recoveryRequestNotFound => "there are no active recovery requests for this account"
  | recoveryAuthorityMismatch => "new owner authority does not match recovery request"
  | recentAuthorityNotFound => "recent authority not found in authority history"
  | noTopWitness => "no witness is available to act as recovery partner"
  | expertTokenNotFound account discipline =>
    s!"expert token not found for {account} in discipline {discipline}"
  | insufficientVotingPower => "account currently does not have voting power"
  | invalidVoteWeight => "vote weight cannot be 0"
  | zeroWeightVote => "cannot vote with 0 tokens"
  | duplicateVote => "already voted with this discipline for this target"
  | disciplineNotInResearch discipline => s!"research is not in discipline {discipline}"
  | insufficientExpertise => "reviewer does not have enough expertise to make review"
  | notRegistrar => "only the registrar may add expertise tokens"
  | disciplineNotFound discipline => s!"discipline not found: {discipline}"
  | researchNotFound research => s!"research not found: {research}"
  | contentNotFound content => s!"research content not found: {content}"
  | reviewNotFound review => s!"review not found: {review}"
  | researchGroupNotFound group => s!"research group not found: {group}"
  | notGroupMember account group => s!"{account} is not a member of research group {group}"
  | duplicatePermlink permlink => s!"permlink already used: {permlink}"
  | invalidPermlink permlink => s!"invalid permlink: {permlink}"
  | insufficientResearchTokens required available =>
    s!"not enough research tokens: required {required}, available {available}"
  | grantNotFound grant => s!"grant not found: {grant}"
  | invalidGrantRange first last => s!"invalid grant block range {first}..={last}"
  | proposalLifetimeOutOfRange least greatest actual =>
    s!"proposal lifetime {actual}s is not in range {least}..={greatest}"
  | proposalNotFound proposal => s!"proposal not found: {proposal}"
  | proposalNotActive proposal => s!"proposal {proposal} is not active"
  | proposalExpired proposal => s!"proposal {proposal} has expired"
  | alreadyVotedProposal account => s!"{account} has already voted for this proposal"

end ResearchLedger
