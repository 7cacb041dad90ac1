import ResearchLedger.Account.Lifecycle
import ResearchLedger.Witness.Approval
/-!
Recovery of accounts. A recovery partner asks for a new owner authority, and whoever held the
owner authority not long ago confirms it. An account has at most one open request.
-/

namespace ResearchLedger

namespace RequestRecovery

/-- What a request comes to. -/
inductive Plan where
  | store (request : RecoveryRequest)
  | cancel (account : AccountName)

variable (op : RequestRecovery)

/-- Refuses everyone but the recovery partner, or the top witness if there is no partner. -/
def checkPartner (s : State) (a : Account) : Except LedgerError Unit := do
  let partner ← match a.recoveryPartner with
    | some partner => pure partner
    | none => Witness.owner <$> s.topWitness
  if partner ≠ op.partner then throw (.notRecoveryPartner op.partner)

def plan (now : Seconds) (s : State) : Except LedgerError Plan := do
  let a ← s.account op.account
  s.checkAccount op.partner
  op.checkPartner s a
  s.checkAuthority op.newOwner
  let request : RecoveryRequest :=
    ⟨op.account, op.newOwner, now.after s.config.recoveryRequestLifetime⟩
  if s.recoveryRequests.contains op.account then
    if op.newOwner.isOpen then return .cancel op.account
    if op.newOwner.isImpossible then throw .impossibleAuthority
    return .store request
  else
    if op.newOwner.isImpossible then throw .impossibleAuthority
    if op.newOwner.isOpen then throw .openAuthority
    return .store request

namespace Plan

def commit (p : Plan) (s : State) : State :=
  match p with
  | store request =>
    { s with recoveryRequests := s.recoveryRequests.insert request.account request }
  | cancel account => { s with recoveryRequests := s.recoveryRequests.erase account }

end Plan

end RequestRecovery

namespace RecoverAccount

variable (op : RecoverAccount)

/-- Whether an authority was replaced recently enough to vouch for the account. -/
def isRecent (now : Seconds) (s : State) : Bool :=
  (s.ownerHistory.getD op.account []).any (fun h =>
    now - s.config.ownerRecoveryPeriod ≤ h.lastValid && h.authority == op.recentOwner)

def check (now : Seconds) (s : State) : Except LedgerError Unit := do
  let a ← s.account op.account
  if now - a.lastRecovery ≤ s.config.ownerUpdateLimit then
    throw (.ownerUpdateTooSoon s.config.ownerUpdateLimit)
  let request ← State.found ((s.recoveryRequests.get? op.account).filter (now < ·.expires))
    .recoveryRequestNotFound
  if request.newOwner ≠ op.newOwner then throw .recoveryAuthorityMismatch
  if !op.isRecent now s then throw .recentAuthorityNotFound

/-- The new owner authority takes effect and the request is used up. -/
def commit (now : Seconds) (s : State) : State :=
  let s := { s with recoveryRequests := s.recoveryRequests.erase op.account }
  let s := s.replaceOwner now op.account op.newOwner
  s.modifyAccount op.account (fun a => { a with lastRecovery := now })

end RecoverAccount

namespace ChangeRecoveryPartner

/-- What a change of partner comes to. -/
inductive Plan where
  | store (change : PartnerChange)
  | cancel (account : AccountName)

variable (op : ChangeRecoveryPartner)

/-- A new wish starts the delay anew; the wish for the present partner cancels an open one. -/
def plan (now : Seconds) (s : State) : Except LedgerError Plan := do
  let a ← s.account op.account
  s.checkAccount op.partner
  if s.partnerChanges.contains op.account && a.recoveryPartner == some op.partner then
    return .cancel op.account
  return .store ⟨op.account, op.partner, now.after s.config.ownerRecoveryPeriod⟩

namespace Plan

def commit (p : Plan) (s : State) : State :=
  match p with
  | store change => { s with partnerChanges := s.partnerChanges.insert change.account change }
  | cancel account => { s with partnerChanges := s.partnerChanges.erase account }

end Plan

end ChangeRecoveryPartner

end ResearchLedger
