import ResearchLedger.Account.Lifecycle
import ResearchLedger.Event.Basic
import ResearchLedger.Share
/-!
What a reward pass gives to whom. A plan gathers all payments before any of them is made, so a pass
that fails has changed nothing.
-/

namespace ResearchLedger

/-- Payments that have not been made yet. -/
structure RewardPlan where
  balances : SortedMap AccountName Amount := ∅
  groups : SortedMap GroupId Amount := ∅
  /-- Expertise by account and discipline; it is no money and not counted as distributed. -/
  expertise : SortedMap (AccountName × DisciplineId) Amount := ∅
  /-- What all payments to balances and groups come to. -/
  distributed : Amount := 0
  events : List Event := []

/-- A budget and what became of it. -/
structure RewardReport where
  budget : Amount
  distributed : Amount
  unused : Amount
  events : List Event
deriving DecidableEq

/-- An amount raised by another, if the sum can be stored. -/
def addAmount (a b : Amount) (what : Computation) : Except LedgerError Amount :=
  match Amount.checked? (a + b) with
  | some sum => .ok sum
  | none => .error (.overflow what)

namespace RewardPlan

/-- Notes what happens. -/
def report (p : RewardPlan) (e : Event) : RewardPlan := { p with events := p.events ++ [e] }

/-- Pays into an account's balance. -/
def payAccount (p : RewardPlan) (account : AccountName) (amount : Amount) :
    Except LedgerError RewardPlan := do
  let paid ← addAmount (p.balances.getD account 0) amount .rewardBalance
  let distributed ← addAmount p.distributed amount .distributed
  return { p with balances := p.balances.insert account paid, distributed }

/-- Pays into a group's balance. -/
def payGroup (p : RewardPlan) (group : GroupId) (amount : Amount) :
    Except LedgerError RewardPlan := do
  let paid ← addAmount (p.groups.getD group 0) amount .groupReward
  let distributed ← addAmount p.distributed amount .distributed
  return { p with groups := p.groups.insert group paid, distributed }

/-- Gives expertise to one author. -/
def giveExpertise (p : RewardPlan) (author : AccountName) (discipline : DisciplineId)
    (amount : Amount) : Except LedgerError RewardPlan := do
  let key := (author, discipline)
  let given ← addAmount (p.expertise.getD key 0) amount .expertiseReward
  return { p with expertise := p.expertise.insert key given }.report
    (.expertiseRewarded author discipline amount)

/-- Gives expertise to all authors alike; what rounding leaves is given to nobody. -/
def giveExpertiseTo (p : RewardPlan) (authors : List AccountName) (discipline : DisciplineId)
    (amount : Amount) : Except LedgerError RewardPlan := do
  if authors.isEmpty ∨ amount ≤ 0 then return p
  let each ← share amount 1 authors.length
  if each = 0 then return p
  authors.foldlM (fun p author => p.giveExpertise author discipline each) p

/-- The plan's outcome for a budget. -/
def toReport (p : RewardPlan) (budget : Amount) : RewardReport :=
  ⟨budget, p.distributed, budget - p.distributed, p.events⟩

end RewardPlan

namespace State

/-- Adds to a group's balance, if the group exists; the balance stops at the ends of its range. -/
def creditGroup (s : State) (group : GroupId) (amount : Amount) : State :=
  { s with
    groups := s.groups.modify group
      (fun g => { g with balance := Amount.clamp (g.balance + amount) }) }

/-- Makes the payments of a plan. -/
def applyReward (s : State) (now : Seconds) (p : RewardPlan) : State :=
  let s := p.balances.entries.foldl (fun s e => s.credit e.1 e.2) s
  let s := p.groups.entries.foldl (fun s e => s.creditGroup e.1 e.2) s
  p.expertise.entries.foldl (fun s e => s.creditExpertise e.1.1 e.1.2 e.2 now) s

end State

end ResearchLedger
