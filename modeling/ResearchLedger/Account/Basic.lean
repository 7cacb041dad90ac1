import ResearchLedger.Asset.Basic
import ResearchLedger.Authority
/-!
Accounts and their authorities.
-/

namespace ResearchLedger

/-- The schedule by which an account turns common tokens back into balance. -/
structure PowerDown where
  /-- What one payment takes; zero if no power-down is under way. -/
  rate : Amount
  /-- When the next payment is due. -/
  next : Seconds
  /-- What all payments together take. -/
  total : Amount
  /-- What the payments so far have taken. -/
  withdrawn : Amount
deriving DecidableEq

namespace PowerDown

/-- No power-down is under way. -/
def idle : PowerDown := ⟨0, never, 0, 0⟩

/-- What the payments still to come take. -/
def pending (p : PowerDown) : Amount := max (p.total - p.withdrawn) 0

end PowerDown

/-- An account. -/
structure Account where
  name : AccountName
  memoKey : PublicKey
  metadata : String
  /-- The liquid balance, in the primary symbol. -/
  balance : Asset
  /-- The stake. -/
  commonTokens : Amount
  /-- The part of the stake that is lent to others or on its way back. -/
  delegated : Amount
  /-- The stake lent by others. -/
  received : Amount
  powerDown : PowerDown
  /-- How many withdraw routes start here. -/
  withdrawRoutes : Nat
  /-- Who votes for witnesses in this account's place. -/
  proxy : Option AccountName
  /-- The stake that votes through this account, by its distance in proxies less one. -/
  proxied : Vector Amount maxProxyDepth
  witnessesVotedFor : Nat
  votingPower : Nat
  lastVoteTime : Seconds
  /-- Who may request the recovery of this account; nobody stands for the top witness. -/
  recoveryPartner : Option AccountName
  lastRecovery : Seconds
  canVote : Bool
  /-- Whether the account stood in the genesis. -/
  mined : Bool
  created : Seconds
deriving DecidableEq

namespace Account

/-- A genesis account without any tokens. -/
def fresh (name : AccountName) (memoKey : PublicKey) (created : Seconds) : Account where
  name
  memoKey
  metadata := ""
  balance := .primary 0
  commonTokens := 0
  delegated := 0
  received := 0
  powerDown := .idle
  withdrawRoutes := 0
  proxy := none
  proxied := .replicate maxProxyDepth 0
  witnessesVotedFor := 0
  votingPower := wholePercent
  lastVoteTime := created
  recoveryPartner := none
  lastRecovery := 0
  canVote := true
  mined := true
  created

/-- The stake that votes through this account. -/
def proxiedTotal (a : Account) : Amount := total a.proxied.toList

/-- The weight of the account's vote for a witness. -/
def witnessVoteWeight (a : Account) : Amount := a.commonTokens + a.proxiedTotal

/-- The stake less what is lent, plus what is borrowed. -/
def effectiveCommonTokens (a : Account) : Amount := a.commonTokens - a.delegated + a.received

/-- The balance with an amount added; it stops at the ends of its range. -/
def credit (a : Account) (amount : Amount) : Account :=
  { a with balance := ⟨Amount.clamp (a.balance.amount + amount), a.balance.symbol⟩ }

/-- The balance with an amount taken off; it stops at the ends of its range. -/
def debit (a : Account) (amount : Amount) : Account :=
  { a with balance := ⟨Amount.clamp (a.balance.amount - amount), a.balance.symbol⟩ }

/-- The stake with an amount added; it stops at the ends of its range. -/
def stake (a : Account) (amount : Amount) : Account :=
  { a with commonTokens := Amount.clamp (a.commonTokens + amount) }

end Account

/-- The three authorities of an account. -/
structure AccountAuthority where
  account : AccountName
  owner : Authority
  active : Authority
  posting : Authority
  lastOwnerUpdate : Seconds
deriving DecidableEq

end ResearchLedger
