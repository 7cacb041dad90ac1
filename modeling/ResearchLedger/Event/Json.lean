import ResearchLedger.Event.Basic
import ResearchLedger.Json.Record
/-!
Events as JSON: an object whose only member is named for the kind of the event.
-/

namespace ResearchLedger.Event

/-- The name of an event's kind. -/
def name : Event → String
  | withdrawFilled .. => "fill_common_tokens_withdraw"
  | delegationReturned .. => "return_common_tokens_delegation"
  | contentRewarded .. => "research_content_reward"
  | curatorRewarded .. => "curation_reward"
  | reviewRewarded .. => "review_reward"
  | reviewVoterRewarded .. => "review_voter_reward"
  | groupRewarded .. => "research_group_reward"
  | tokenHolderRewarded .. => "research_token_holder_reward"
  | expertiseRewarded .. => "expertise_reward"
  | grantPaid .. => "grant_payout"
  | grantFinished .. => "grant_finished"
  | proposalApproved .. => "proposal_approved"
  | proposalExpired .. => "proposal_expired"
  | contentDeactivated .. => "research_content_deactivated"

/-- The fields of an event. -/
def fields : Event → List (String × Json)
  | withdrawFilled source target withdrawn deposited asCommonTokens =>
    [("from_account", source.toJson), ("to_account", target.toJson), ("withdrawn", .int withdrawn),
      ("deposited", .int deposited), ("to_common_tokens", .bool asCommonTokens)]
  | delegationReturned account amount =>
    [("account", account.toJson), ("common_tokens", .int amount)]
  | contentRewarded content discipline reward =>
    [("research_content_id", .nat content), ("discipline_id", .nat discipline),
      ("reward", .int reward)]
  | curatorRewarded curator content reward =>
    [("curator", curator.toJson), ("research_content_id", .nat content), ("reward", .int reward)]
  | reviewRewarded author review reward =>
    [("author", author.toJson), ("review_id", .nat review), ("reward", .int reward)]
  | reviewVoterRewarded voter review reward =>
    [("voter", voter.toJson), ("review_id", .nat review), ("reward", .int reward)]
  | groupRewarded group research reward =>
    [("research_group_id", .nat group), ("research_id", .nat research), ("reward", .int reward)]
  | tokenHolderRewarded account research reward =>
    [("account", account.toJson), ("research_id", .nat research), ("reward", .int reward)]
  | expertiseRewarded account discipline amount =>
    [("account", account.toJson), ("discipline_id", .nat discipline), ("amount", .int amount)]
  | grantPaid grant group amount =>
    [("grant_id", .nat grant), ("research_group_id", .nat group), ("amount", .int amount)]
  | grantFinished grant owner refunded =>
    [("grant_id", .nat grant), ("owner", owner.toJson), ("refunded", .int refunded)]
  | proposalApproved proposal group =>
    [("proposal_id", .nat proposal), ("research_group_id", .nat group)]
  | proposalExpired proposal => [("proposal_id", .nat proposal)]
  | contentDeactivated content => [("research_content_id", .nat content)]

def toJson (e : Event) : Json := .object [(e.name, .object e.fields)]

end ResearchLedger.Event
