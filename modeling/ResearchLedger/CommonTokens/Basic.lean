import ResearchLedger.AccountName
import ResearchLedger.Quantity
/-!
Where power-downs flow and to whom stake is lent.
-/

namespace ResearchLedger

/-- A part of each power-down payment that goes to a certain account. -/
structure WithdrawRoute where
  source : AccountName
  target : AccountName
  percent : Nat
  /-- Whether the part arrives as stake rather than as balance. -/
  asCommonTokens : Bool
deriving DecidableEq

/-- Stake lent by one account to another. -/
structure Delegation where
  delegator : AccountName
  delegatee : AccountName
  amount : Amount
  since : Seconds
deriving DecidableEq

/-- Stake called back that has not yet returned to its owner. -/
structure ExpiringDelegation where
  delegator : AccountName
  amount : Amount
  expiration : Seconds
deriving DecidableEq

end ResearchLedger
