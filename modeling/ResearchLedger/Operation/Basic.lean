import ResearchLedger.Asset.Basic
import ResearchLedger.Authority
import ResearchLedger.Research.Basic
import ResearchLedger.Witness.Basic
/-!
The operations that accounts ask the ledger to carry out, and who has to sign each.
-/

namespace ResearchLedger

structure AccountCreate where
  fee : Asset
  creator : AccountName
  name : AccountName
  owner : Authority
  active : Authority
  posting : Authority
  memoKey : PublicKey
  metadata : String
deriving DecidableEq

structure AccountUpdate where
  account : AccountName
  owner : Option Authority
  active : Option Authority
  posting : Option Authority
  memoKey : PublicKey
  metadata : String
deriving DecidableEq

structure Transfer where
  sender : AccountName
  recipient : AccountName
  amount : Asset
  memo : String
deriving DecidableEq

/-- Turns balance into common tokens, of the sender unless a recipient is named. -/
structure TransferToCommonTokens where
  sender : AccountName
  recipient : Option AccountName
  amount : Asset
deriving DecidableEq

/-- Starts a power-down over a total; a total of zero stops the one under way. -/
structure WithdrawCommonTokens where
  account : AccountName
  total : Amount
deriving DecidableEq

/-- Sets the part of each power-down payment that goes to the target; zero removes the route. -/
structure SetWithdrawRoute where
  source : AccountName
  target : AccountName
  percent : Nat
  asCommonTokens : Bool
deriving DecidableEq

/-- Sets how much stake the delegatee has on loan; zero ends the loan. -/
structure DelegateCommonTokens where
  delegator : AccountName
  delegatee : AccountName
  amount : Amount
deriving DecidableEq

/-- Names who votes for witnesses in the account's place, or nobody. -/
structure SetWitnessProxy where
  account : AccountName
  proxy : Option AccountName
deriving DecidableEq

structure WitnessUpdate where
  owner : AccountName
  url : String
  signingKey : PublicKey
  properties : ChainProperties
deriving DecidableEq

structure WitnessVote where
  account : AccountName
  witness : AccountName
  approve : Bool
deriving DecidableEq

/-- Asks for a new owner authority of an account; an open authority withdraws the request. -/
structure RequestRecovery where
  partner : AccountName
  account : AccountName
  newOwner : Authority
deriving DecidableEq

structure RecoverAccount where
  account : AccountName
  newOwner : Authority
  recentOwner : Authority
deriving DecidableEq

structure ChangeRecoveryPartner where
  account : AccountName
  partner : AccountName
deriving DecidableEq

structure VoteForContent where
  voter : AccountName
  discipline : DisciplineId
  /-- The part of the voting power to use, in hundredths of a percent with a sign. -/
  weight : Int
  research : ResearchId
  content : ContentId
deriving DecidableEq

structure VoteForReview where
  voter : AccountName
  discipline : DisciplineId
  weight : Int
  review : ReviewId
deriving DecidableEq

structure MakeReview where
  author : AccountName
  content : ContentId
  text : String
  isPositive : Bool
  references : List ContentId
  externalReferences : List String
deriving DecidableEq

structure CreateGroup where
  creator : AccountName
  name : String
  permlink : String
  description : String
  quorumPercent : Nat
deriving DecidableEq

structure CreateResearch where
  creator : AccountName
  group : GroupId
  title : String
  abstractText : String
  permlink : String
  reviewSharePercent : Nat
  disciplines : List DisciplineId
deriving DecidableEq

structure CreateContent where
  creator : AccountName
  research : ResearchId
  type : ContentType
  title : String
  text : String
  permlink : String
  authors : List AccountName
  references : List ContentId
  externalReferences : List String
deriving DecidableEq

/-- Moves research tokens, of the group if they are still its own, otherwise of the sender. -/
structure TransferResearchTokens where
  research : ResearchId
  sender : AccountName
  receiver : AccountName
  amount : Nat
  fromGroup : Bool
deriving DecidableEq

structure AddExpertise where
  owner : AccountName
  account : AccountName
  additions : List (DisciplineId × Amount)
deriving DecidableEq

structure CreateGrant where
  owner : AccountName
  discipline : DisciplineId
  amount : Asset
  startBlock : Nat
  endBlock : Nat
deriving DecidableEq

structure CreateProposal where
  creator : AccountName
  group : GroupId
  data : String
  expiration : Seconds
deriving DecidableEq

structure VoteForProposal where
  voter : AccountName
  proposal : ProposalId
  group : GroupId
deriving DecidableEq

/-- Something that an account asks the ledger to carry out. -/
inductive Operation where
  | accountCreate (op : AccountCreate)
  | accountUpdate (op : AccountUpdate)
  | transfer (op : Transfer)
  | transferToCommonTokens (op : TransferToCommonTokens)
  | withdrawCommonTokens (op : WithdrawCommonTokens)
  | setWithdrawRoute (op : SetWithdrawRoute)
  | delegateCommonTokens (op : DelegateCommonTokens)
  | setWitnessProxy (op : SetWitnessProxy)
  | witnessUpdate (op : WitnessUpdate)
  | witnessVote (op : WitnessVote)
  | requestRecovery (op : RequestRecovery)
  | recoverAccount (op : RecoverAccount)
  | changeRecoveryPartner (op : ChangeRecoveryPartner)
  | voteForContent (op : VoteForContent)
  | voteForReview (op : VoteForReview)
  | makeReview (op : MakeReview)
  | createGroup (op : CreateGroup)
  | createResearch (op : CreateResearch)
  | createContent (op : CreateContent)
  | transferResearchTokens (op : TransferResearchTokens)
  | addExpertise (op : AddExpertise)
  | createGrant (op : CreateGrant)
  | createProposal (op : CreateProposal)
  | voteForProposal (op : VoteForProposal)
deriving DecidableEq

/-- Who has to sign an operation: accounts by the authority they sign with, and authorities that
are named themselves. -/
structure Signers where
  owner : List AccountName := []
  active : List AccountName := []
  posting : List AccountName := []
  other : List Authority := []
deriving DecidableEq

namespace Operation

/-- The name of an operation's kind. -/
def name : Operation → String
  | accountCreate _ => "account_create"
  | accountUpdate _ => "account_update"
  | transfer _ => "transfer"
  | transferToCommonTokens _ => "transfer_to_common_tokens"
  | withdrawCommonTokens _ => "withdraw_common_tokens"
  | setWithdrawRoute _ => "set_withdraw_common_tokens_route"
  | delegateCommonTokens _ => "delegate_common_tokens"
  | setWitnessProxy _ => "account_witness_proxy"
  | witnessUpdate _ => "witness_update"
  | witnessVote _ => "account_witness_vote"
  | requestRecovery _ => "request_account_recovery"
  | recoverAccount _ => "recover_account"
  | changeRecoveryPartner _ => "change_recovery_account"
  | voteForContent _ => "vote"
  | voteForReview _ => "vote_for_review"
  | makeReview _ => "make_review"
  | createGroup _ => "create_research_group"
  | createResearch _ => "create_research"
  | createContent _ => "create_research_content"
  | transferResearchTokens _ => "transfer_research_tokens"
  | addExpertise _ => "add_expertise_tokens"
  | createGrant _ => "create_grant"
  | createProposal _ => "create_proposal"
  | voteForProposal _ => "vote_proposal"

/-- Who has to sign an operation. -/
def signers : Operation → Signers
  | accountCreate op => { active := [op.creator] }
  | accountUpdate op =>
    if op.owner.isSome then { owner := [op.account] } else { active := [op.account] }
  | transfer op => { active := [op.sender] }
  | transferToCommonTokens op => { active := [op.sender] }
  | withdrawCommonTokens op => { active := [op.account] }
  | setWithdrawRoute op => { active := [op.source] }
  | delegateCommonTokens op => { active := [op.delegator] }
  | setWitnessProxy op => { active := [op.account] }
  | witnessUpdate op => { active := [op.owner] }
  | witnessVote op => { active := [op.account] }
  | requestRecovery op => { active := [op.partner] }
  | recoverAccount op => { other := [op.newOwner, op.recentOwner] }
  | changeRecoveryPartner op => { owner := [op.account] }
  | voteForContent op => { posting := [op.voter] }
  | voteForReview op => { posting := [op.voter] }
  | makeReview op => { posting := [op.author] }
  | createGroup op => { active := [op.creator] }
  | createResearch op => { active := [op.creator] }
  | createContent op => { posting := [op.creator] }
  | transferResearchTokens op => { active := [op.sender] }
  | addExpertise op => { active := [op.owner] }
  | createGrant op => { active := [op.owner] }
  | createProposal op => { posting := [op.creator] }
  | voteForProposal op => { posting := [op.voter] }

end Operation

end ResearchLedger
