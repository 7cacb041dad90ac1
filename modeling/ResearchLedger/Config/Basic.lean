import ResearchLedger.Error
/-!
The parameters of the protocol, their defaults, and which values are accepted.
-/

namespace ResearchLedger

/-- The parameters of the protocol. All nodes of one network have to agree on them. -/
structure Config where
  /-- How long voting power takes to regain a whole. -/
  voteRegeneration : Seconds := 432000
  /-- How long the weight of an early vote is reduced. -/
  reverseAuctionWindow : Seconds := 86400
  /-- The part of the used voting power that a vote costs, as a divisor. -/
  votePowerCostDivisor : Int := 10
  /-- Into how many payments a power-down is divided. -/
  withdrawIntervals : Nat := 13
  withdrawIntervalSeconds : Seconds := 604800
  maxWithdrawRoutes : Nat := 10
  maxWitnessVotes : Nat := 30
  maxWitnessUrlLength : Nat := 2048
  /-- How long an owner authority has to stay before it may change again. -/
  ownerUpdateLimit : Seconds := 3600
  recoveryRequestLifetime : Seconds := 86400
  /-- The delay of a new recovery partner, and how long a replaced owner authority is remembered. -/
  ownerRecoveryPeriod : Seconds := 2592000
  delegationReturnPeriod : Seconds := 432000
  contentActivityWindow : Seconds := 1209600
  proposalMinLifetime : Seconds := 86400
  proposalMaxLifetime : Seconds := 864000
  minAccountCreationFee : Amount := 1000
  /-- A created account may power down only above this multiple of the creation fee. -/
  powerDownFloorMultiplier : Int := 10
  referencesShare : Nat := 1000
  curatorsShare : Nat := 500
  reviewVotersShare : Nat := 1000
  /-- The account that may add expertise. -/
  registrar : AccountName := .registrar
deriving DecidableEq

namespace Config

instance : Inhabited Config := ⟨{}⟩

/-- Refuses parameters under which the ledger would divide by zero or share out more than a whole;
the first fault in the order of the parameters counts. -/
def validate (c : Config) : Except ConfigFault Unit := do
  if c.voteRegeneration = 0 then throw .zeroVoteRegeneration
  if c.reverseAuctionWindow = 0 then throw .zeroReverseAuctionWindow
  if c.votePowerCostDivisor ≤ 0 then throw .nonPositiveVotePowerCostDivisor
  if c.withdrawIntervals = 0 then throw .zeroWithdrawIntervals
  if c.proposalMaxLifetime < c.proposalMinLifetime then throw .proposalLifetimesReversed
  if wholePercent < c.referencesShare + c.curatorsShare then throw .contentSharesExceedWhole
  if wholePercent < c.reviewVotersShare then throw .reviewVotersShareExceedsWhole

end Config

end ResearchLedger
