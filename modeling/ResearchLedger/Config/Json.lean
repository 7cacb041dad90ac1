import ResearchLedger.Config.Basic
import ResearchLedger.Json.Record
/-!
The parameters as JSON. A parameter that is missing has its default.
-/

namespace ResearchLedger.Config

open Json (withDefault)

/-- The names of the parameters. -/
def fieldNames : List String :=
  ["vote_regeneration_seconds", "reverse_auction_window_seconds", "vote_power_cost_divisor",
    "common_tokens_withdraw_intervals", "common_tokens_withdraw_interval_seconds",
    "max_withdraw_routes", "max_account_witness_votes", "max_witness_url_length",
    "owner_update_limit_seconds", "account_recovery_request_expiration_period",
    "owner_auth_recovery_period", "delegation_return_period", "content_activity_window_seconds",
    "proposal_min_lifetime", "proposal_max_lifetime", "min_account_creation_fee",
    "power_down_floor_multiplier", "references_reward_share", "curators_reward_share",
    "review_voters_reward_share", "registrar"]

/-- The values of the parameters in the order of their names. -/
def fieldValues (c : Config) : List Json :=
  [.nat c.voteRegeneration, .nat c.reverseAuctionWindow, .int c.votePowerCostDivisor,
    .nat c.withdrawIntervals, .nat c.withdrawIntervalSeconds, .nat c.maxWithdrawRoutes,
    .nat c.maxWitnessVotes, .nat c.maxWitnessUrlLength, .nat c.ownerUpdateLimit,
    .nat c.recoveryRequestLifetime, .nat c.ownerRecoveryPeriod, .nat c.delegationReturnPeriod,
    .nat c.contentActivityWindow, .nat c.proposalMinLifetime, .nat c.proposalMaxLifetime,
    .int c.minAccountCreationFee, .int c.powerDownFloorMultiplier, .nat c.referencesShare,
    .nat c.curatorsShare, .nat c.reviewVotersShare, c.registrar.toJson]

def toJson (c : Config) : Json := .object (fieldNames.zip c.fieldValues)

def ofJson? (j : Json) : Option Config := do
  let [voteRegeneration, reverseAuctionWindow, votePowerCostDivisor, withdrawIntervals,
    withdrawIntervalSeconds, maxWithdrawRoutes, maxWitnessVotes, maxWitnessUrlLength,
    ownerUpdateLimit, recoveryRequestLifetime, ownerRecoveryPeriod, delegationReturnPeriod,
    contentActivityWindow, proposalMinLifetime, proposalMaxLifetime, minAccountCreationFee,
    powerDownFloorMultiplier, referencesShare, curatorsShare, reviewVotersShare, registrar] ←
    j.fields? fieldNames | none
  let d : Config := {}
  return {
    voteRegeneration := ← withDefault d.voteRegeneration Json.word? voteRegeneration
    reverseAuctionWindow := ← withDefault d.reverseAuctionWindow Json.word? reverseAuctionWindow
    votePowerCostDivisor := ← withDefault d.votePowerCostDivisor Json.amount? votePowerCostDivisor
    withdrawIntervals := ← withDefault d.withdrawIntervals Json.word32? withdrawIntervals
    withdrawIntervalSeconds :=
      ← withDefault d.withdrawIntervalSeconds Json.word? withdrawIntervalSeconds
    maxWithdrawRoutes := ← withDefault d.maxWithdrawRoutes Json.word16? maxWithdrawRoutes
    maxWitnessVotes := ← withDefault d.maxWitnessVotes Json.word16? maxWitnessVotes
    maxWitnessUrlLength := ← withDefault d.maxWitnessUrlLength Json.word? maxWitnessUrlLength
    ownerUpdateLimit := ← withDefault d.ownerUpdateLimit Json.word? ownerUpdateLimit
    recoveryRequestLifetime :=
      ← withDefault d.recoveryRequestLifetime Json.word? recoveryRequestLifetime
    ownerRecoveryPeriod := ← withDefault d.ownerRecoveryPeriod Json.word? ownerRecoveryPeriod
    delegationReturnPeriod :=
      ← withDefault d.delegationReturnPeriod Json.word? delegationReturnPeriod
    contentActivityWindow := ← withDefault d.contentActivityWindow Json.word? contentActivityWindow
    proposalMinLifetime := ← withDefault d.proposalMinLifetime Json.word? proposalMinLifetime
    proposalMaxLifetime := ← withDefault d.proposalMaxLifetime Json.word? proposalMaxLifetime
    minAccountCreationFee := ← withDefault d.minAccountCreationFee Json.amount? minAccountCreationFee
    powerDownFloorMultiplier :=
      ← withDefault d.powerDownFloorMultiplier Json.amount? powerDownFloorMultiplier
    referencesShare := ← withDefault d.referencesShare Json.word16? referencesShare
    curatorsShare := ← withDefault d.curatorsShare Json.word16? curatorsShare
    reviewVotersShare := ← withDefault d.reviewVotersShare Json.word16? reviewVotersShare
    registrar := ← withDefault d.registrar AccountName.ofJson? registrar }

end ResearchLedger.Config
