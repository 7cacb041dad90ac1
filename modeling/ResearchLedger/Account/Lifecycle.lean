import ResearchLedger.Expertise.Power
import ResearchLedger.Operation.Basic
import ResearchLedger.Proxy
/-!
Creation and update of accounts, transfers, and the way from balance to stake.
-/

namespace ResearchLedger

namespace State

/-- Refuses to take more from an account than its balance. -/
def checkBalance (s : State) (account : AccountName) (amount : Asset) : Except LedgerError Unit := do
  let a ← s.account account
  if !(← a.balance.atLeast amount) then
    throw (.insufficientBalance account amount.amount a.balance.amount)

/-- Adds to a balance. -/
def credit (s : State) (account : AccountName) (amount : Amount) : State :=
  s.modifyAccount account (·.credit amount)

/-- Takes from a balance. -/
def debit (s : State) (account : AccountName) (amount : Amount) : State :=
  s.modifyAccount account (·.debit amount)

/-- Puts a new owner authority in place and keeps the old one in the history. -/
def replaceOwner (s : State) (now : Seconds) (account : AccountName) (owner : Authority) : State :=
  match s.authorities.get? account with
  | none => s
  | some a =>
    let entry : ReplacedOwner := ⟨account, a.owner, now⟩
    { s with
      authorities := s.authorities.insert account { a with owner, lastOwnerUpdate := now }
      ownerHistory :=
        s.ownerHistory.insert account (s.ownerHistory.getD account [] ++ [entry]) }

end State

namespace AccountCreate

variable (op : AccountCreate)

def check (s : State) : Except LedgerError Unit := do
  op.fee.ensureSymbol .primary
  if op.fee.amount < s.config.minAccountCreationFee then
    throw (.insufficientFee s.config.minAccountCreationFee op.fee.amount)
  s.checkBalance op.creator op.fee
  if s.accounts.contains op.name then throw (.accountAlreadyExists op.name)
  s.checkAuthority op.owner
  s.checkAuthority op.active
  s.checkAuthority op.posting

/-- The new account: its creator is its recovery partner. -/
def account (now : Seconds) : Account :=
  { Account.fresh op.name op.memoKey now with
    metadata := op.metadata
    recoveryPartner := some op.creator
    mined := false }

/-- The fee leaves the creator's balance and becomes common expertise of the new account. -/
def commit (now : Seconds) (s : State) : State :=
  let s := s.debit op.creator op.fee.amount
  let s := { s with
    accounts := s.accounts.insert op.name (op.account now)
    authorities := s.authorities.insert op.name ⟨op.name, op.owner, op.active, op.posting, 0⟩ }
  if 0 < op.fee.amount then s.creditExpertise op.name commonDiscipline op.fee.amount now else s

end AccountCreate

namespace AccountUpdate

variable (op : AccountUpdate)

def check (now : Seconds) (s : State) : Except LedgerError Unit := do
  let present ← s.authority op.account
  if let some owner := op.owner then
    if now - present.lastOwnerUpdate ≤ s.config.ownerUpdateLimit then
      throw (.ownerUpdateTooSoon s.config.ownerUpdateLimit)
    if owner.isImpossible then throw .impossibleAuthority
    s.checkAuthority owner
  if let some active := op.active then s.checkAuthority active
  if let some posting := op.posting then s.checkAuthority posting

def commit (now : Seconds) (s : State) : State :=
  let s := match op.owner with
    | some owner => s.replaceOwner now op.account owner
    | none => s
  let s := { s with
    authorities := s.authorities.modify op.account (fun a =>
      { a with active := op.active.getD a.active, posting := op.posting.getD a.posting }) }
  s.modifyAccount op.account (fun a => { a with memoKey := op.memoKey, metadata := op.metadata })

end AccountUpdate

namespace Transfer

variable (op : Transfer)

def check (s : State) : Except LedgerError Unit := do
  op.amount.ensureSymbol .primary
  if op.amount.amount ≤ 0 then throw .nonPositiveAmount
  s.checkAccount op.recipient
  s.checkBalance op.sender op.amount
  let recipient ← s.account op.recipient
  let _ ← recipient.balance.add op.amount

def commit (s : State) : State :=
  (s.debit op.sender op.amount.amount).credit op.recipient op.amount.amount

end Transfer

namespace TransferToCommonTokens

variable (op : TransferToCommonTokens)

/-- Whose stake grows. -/
def target : AccountName := op.recipient.getD op.sender

/-- What follows from the growth of the stake. -/
def plan (s : State) : Except LedgerError ProxyEffects := do
  op.amount.ensureSymbol .primary
  if op.amount.amount ≤ 0 then throw .nonPositiveAmount
  let recipient ← s.account op.target
  s.checkBalance op.sender op.amount
  if ¬ Amount.Fits (recipient.commonTokens + op.amount.amount) then
    throw (.overflow .commonTokens)
  s.stakeEffects op.target op.amount.amount

def commit (now : Seconds) (effects : ProxyEffects) (s : State) : State :=
  let s := s.debit op.sender op.amount.amount
  let s := s.modifyAccount op.target (·.stake op.amount.amount)
  let s := s.creditExpertise op.target commonDiscipline op.amount.amount now
  s.applyProxyEffects effects

end TransferToCommonTokens

end ResearchLedger
