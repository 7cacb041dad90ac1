import ResearchLedger.Event.Basic
import ResearchLedger.Operation.Basic
import ResearchLedger.State.Basic
/-!
Stake on loan. A loan that grows takes effect at once; one that shrinks leaves the borrower at once
and returns to its owner after a delay.
-/

namespace ResearchLedger

namespace DelegateCommonTokens

/-- What a change of a loan comes to. -/
structure Plan where
  delegator : AccountName
  delegatee : AccountName
  /-- The loan from now on, if there is one. -/
  delegation : Option Delegation
  /-- How much more of the owner's stake is bound. -/
  delegatedDelta : Amount
  /-- How much more stake the borrower has. -/
  receivedDelta : Amount
  /-- What is on its way back. -/
  expiring : Option ExpiringDelegation

variable (op : DelegateCommonTokens)

def plan (now : Seconds) (s : State) : Except LedgerError Plan := do
  if op.delegator = op.delegatee then throw .selfDelegation
  if op.amount < 0 then throw .nonPositiveAmount
  let a ← s.account op.delegator
  s.checkAccount op.delegatee
  let available := a.commonTokens - a.delegated - a.powerDown.pending
  let present := match s.delegation? op.delegator op.delegatee with
    | some d => d.amount
    | none => 0
  if op.amount = present then throw .delegationUnchanged
  let delegation : Delegation := ⟨op.delegator, op.delegatee, op.amount, now⟩
  if present < op.amount then
    let delta := op.amount - present
    if available < delta then
      throw (.insufficientCommonTokens op.delegator delta available)
    return ⟨op.delegator, op.delegatee, some delegation, delta, delta, none⟩
  else
    let delta := present - op.amount
    return {
      delegator := op.delegator
      delegatee := op.delegatee
      delegation := if 0 < op.amount then some delegation else none
      delegatedDelta := 0
      receivedDelta := -delta
      expiring := some ⟨op.delegator, delta, now.after s.config.delegationReturnPeriod⟩ }

namespace Plan

/-- Puts called-back stake in the queue under the next free number. -/
def enqueue (e : ExpiringDelegation) (s : State) : State :=
  let number := s.nextIds.expiringDelegation
  { s with
    expiringDelegations := s.expiringDelegations.insert (e.expiration, number) e
    nextIds := { s.nextIds with expiringDelegation := number + 1 } }

def commit (p : Plan) (s : State) : State :=
  let key := (p.delegator, p.delegatee)
  let s := match p.delegation with
    | some d => { s with delegations := s.delegations.insert key d }
    | none => { s with delegations := s.delegations.erase key }
  let s := s.modifyAccount p.delegator
    (fun a => { a with delegated := a.delegated + p.delegatedDelta })
  let s := s.modifyAccount p.delegatee
    (fun a => { a with received := a.received + p.receivedDelta })
  match p.expiring with
  | some e => enqueue e s
  | none => s

end Plan

end DelegateCommonTokens

namespace State

/-- Gives back one loan. -/
def returnDelegation (s : State) (key : Seconds × Nat) (e : ExpiringDelegation) : State :=
  let s := { s with expiringDelegations := s.expiringDelegations.erase key }
  s.modifyAccount e.delegator (fun a => { a with delegated := max (a.delegated - e.amount) 0 })

/-- The loans that are due to return. -/
def dueDelegations (s : State) (now : Seconds) : List ((Seconds × Nat) × ExpiringDelegation) :=
  s.expiringDelegations.entries.filter (·.1.1 ≤ now)

/-- Gives back all loans that are due. -/
def returnDelegations (s : State) (now : Seconds) : State × List Event :=
  let due := s.dueDelegations now
  (due.foldl (fun s e => s.returnDelegation e.1 e.2) s,
    due.map (fun e => .delegationReturned e.2.delegator e.2.amount))

end State

end ResearchLedger
