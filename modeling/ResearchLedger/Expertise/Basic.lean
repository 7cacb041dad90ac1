import ResearchLedger.AccountName
import ResearchLedger.Quantity
/-!
Expert tokens: how much an account's word counts in a discipline.
-/

namespace ResearchLedger

/-- The expertise of an account in a discipline, and the power it has left for votes. -/
structure ExpertToken where
  account : AccountName
  discipline : DisciplineId
  amount : Amount
  /-- The power after the last vote, in hundredths of a percent. -/
  votingPower : Nat
  lastVoteTime : Seconds
deriving DecidableEq

/-- A token without expertise and with all its voting power. -/
def ExpertToken.fresh (account : AccountName) (discipline : DisciplineId) (now : Seconds) :
    ExpertToken :=
  ⟨account, discipline, 0, wholePercent, now⟩

end ResearchLedger
