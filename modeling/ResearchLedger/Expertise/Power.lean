import ResearchLedger.Curve
import ResearchLedger.State.Basic
/-!
Voting power and the amounts of expert tokens.

Power returns with time and is brought up to date only when the token is used. A vote uses a part
of the power and costs a smaller part of it for good.
-/

namespace ResearchLedger

/-- What one vote takes of an expert token. -/
structure PowerUse where
  /-- The part of the power that the vote uses. -/
  used : Nat
  /-- The power left after the vote. -/
  remaining : Nat
  /-- The tokens that stand behind the vote. -/
  tokens : Nat
deriving DecidableEq

/-- The power of a token at a time. -/
def ExpertToken.powerAt (t : ExpertToken) (c : Config) (now : Seconds) : Nat :=
  regeneratedPower t.votingPower t.lastVoteTime now c.voteRegeneration

/-- What a vote of a signed percentage takes of a token. -/
def ExpertToken.use (t : ExpertToken) (c : Config) (weight : Int) (now : Seconds) :
    Except LedgerError PowerUse := do
  let power := t.powerAt c now
  if power = 0 then throw .insufficientVotingPower
  if weight = 0 ∨ wholePercent < weight.natAbs then throw .invalidVoteWeight
  let used := power * weight.natAbs / wholePercent
  let cost := (used : Int).tdiv c.votePowerCostDivisor
  let tokens := t.amount.toNat * used / wholePercent
  if maxWord < tokens then throw (.overflow .usedTokens)
  if tokens = 0 then throw .zeroWeightVote
  return ⟨used, ((power : Int) - cost).toNat, tokens⟩

namespace State

/-- Changes an expert token, if it exists. -/
def modifyExpertToken (s : State) (account : AccountName) (discipline : DisciplineId)
    (f : ExpertToken → ExpertToken) : State :=
  { s with expertTokens := s.expertTokens.modify account (·.modify discipline f) }

/-- Notes the power that a vote has left. -/
def spendPower (s : State) (account : AccountName) (discipline : DisciplineId) (remaining : Nat)
    (now : Seconds) : State :=
  s.modifyExpertToken account discipline
    (fun t => { t with votingPower := remaining, lastVoteTime := now })

/-- Adds expertise; the token is made if it is missing, and its amount stops at the end of its
range. -/
def creditExpertise (s : State) (account : AccountName) (discipline : DisciplineId)
    (amount : Amount) (now : Seconds) : State :=
  let tokens := s.expertTokens.getD account ∅
  let token := tokens.getD discipline (.fresh account discipline now)
  let token := { token with amount := Amount.clamp (token.amount + amount) }
  { s with expertTokens := s.expertTokens.insert account (tokens.insert discipline token) }

/-- Takes expertise away, down to none. -/
def debitExpertise (s : State) (account : AccountName) (discipline : DisciplineId)
    (amount : Amount) : State :=
  s.modifyExpertToken account discipline (fun t => { t with amount := max (t.amount - amount) 0 })

end State

end ResearchLedger
