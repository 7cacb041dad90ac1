import ResearchLedger.CommonTokens.Lending
import ResearchLedger.CommonTokens.PowerDown
import ResearchLedger.Grant.Payout
import ResearchLedger.Proposal.Tally
/-!
The end of a block: grants pay, and then everything whose time has come is carried out.
-/

namespace ResearchLedger

namespace PartnerChange

/-- Whether the change takes effect. -/
def isDue (c : PartnerChange) (now : Seconds) : Bool := c.effective ≤ now

end PartnerChange

namespace ReplacedOwner

/-- Whether the authority is still remembered. -/
def isKept (h : ReplacedOwner) (period now : Seconds) : Bool := now ≤ h.lastValid.after period

end ReplacedOwner

namespace Content

/-- Whether the content stops earning rewards. -/
def isOverdue (c : Content) (now : Seconds) : Bool := c.isActive && c.activityEnd ≤ now

end Content

namespace VoteTotals

/-- The totals of a content that is no longer active. -/
def deactivate (t : VoteTotals) : VoteTotals :=
  { t with activeWeight := 0, activeResearchWeight := 0, activeCuratorsWeight := 0 }

end VoteTotals

namespace Discipline

/-- The discipline without the active weights of one content. -/
def withdraw (d : Discipline) (t : VoteTotals) : Discipline :=
  { d with
    activeWeight := d.activeWeight - t.activeWeight
    activeResearchWeight := d.activeResearchWeight - t.activeResearchWeight }

end Discipline

namespace State

/-- Drops the recovery requests that have expired. -/
def dropRecoveryRequests (s : State) (now : Seconds) : State :=
  { s with recoveryRequests := s.recoveryRequests.filter (fun _ r => now < r.expires) }

/-- Lets one change of recovery partner take effect. -/
def changePartner (s : State) (account : AccountName) : State :=
  match s.partnerChanges.get? account with
  | none => s
  | some c =>
    let s := { s with partnerChanges := s.partnerChanges.erase account }
    s.modifyAccount account (fun a => { a with recoveryPartner := some c.partner })

/-- Lets the changes of recovery partners take effect whose delay is over. -/
def changePartners (s : State) (now : Seconds) : State :=
  ((s.partnerChanges.values.filter (·.isDue now)).map (·.account)).foldl changePartner s

/-- Forgets the owner authorities that were replaced too long ago. -/
def pruneOwnerHistory (s : State) (now : Seconds) : State :=
  let period := s.config.ownerRecoveryPeriod
  { s with
    ownerHistory :=
      (s.ownerHistory.mapValues (fun _ history => history.filter (·.isKept period now))).filter
        (fun _ history => !history.isEmpty) }

/-- The contents whose time to earn rewards is over. -/
def overdueContents (s : State) (now : Seconds) : List ContentId :=
  (s.contents.values.filter (·.isOverdue now)).map (·.id)

/-- The totals of a content by discipline. -/
def totalsOf (s : State) (content : ContentId) : List (DisciplineId × VoteTotals) :=
  (s.voteTotals.entries.filter (·.1.1 == content)).map (fun e => (e.1.2, e.2))

end State

namespace Ledger

/-- Takes the active weights of a content out of one discipline. -/
def withdrawTotals (content : ContentId) (l : Ledger) (discipline : DisciplineId) (t : VoteTotals) :
    Ledger where
  state := { l.state with
    disciplines := l.state.disciplines.modify discipline (·.withdraw t)
    voteTotals := l.state.voteTotals.insert (content, discipline) t.deactivate }
  head := { l.head with activeWeight := l.head.activeWeight - t.activeWeight }

/-- Makes a content inactive and takes its active weights out of its disciplines. -/
def deactivate (l : Ledger) (content : ContentId) : Ledger :=
  let totals := l.state.totalsOf content
  let s := { l.state with
    contents := l.state.contents.modify content (fun c => { c with activity := .inactive }) }
  totals.foldl (fun l e => l.withdrawTotals content e.1 e.2) { l with state := s }

/-- Makes the contents inactive whose time is over. -/
def expireContents (l : Ledger) : Ledger × List Event :=
  let overdue := l.state.overdueContents l.head.time
  (overdue.foldl deactivate l, overdue.map .contentDeactivated)

end Ledger

namespace LedgerM

/-- Changes the ledger and hands on what is reported. -/
def step (f : Ledger → Ledger × List Event) : LedgerM (List Event) := do
  let (l, events) := f (← get)
  set l
  return events

/-- Changes the stores and hands on what is reported. -/
def stateStep (f : State → State × List Event) : LedgerM (List Event) :=
  step (fun l => let (s, events) := f l.state; ({ l with state := s }, events))

/-- Carries out what is due: recovery requests, recovery partners, owner authorities, loans,
power-downs, contents and proposals, in this order. -/
def maintain : LedgerM (List Event) := do
  let now := (← get).head.time
  modifyState (·.dropRecoveryRequests now)
  modifyState (·.changePartners now)
  modifyState (·.pruneOwnerHistory now)
  let returned ← stateStep (·.returnDelegations now)
  let paid ← payPowerDowns
  let deactivated ← step (·.expireContents)
  let expired ← stateStep (·.expireProposals now)
  return returned ++ paid ++ deactivated ++ expired

/-- Carries out what is due, or nothing at all. -/
def processBlock : LedgerM (List Event) := atomically maintain

/-- Moves the head one block and some seconds on. -/
def advance (seconds : Seconds) : LedgerM Unit :=
  modify (fun l => { l with head := l.head.advance seconds })

/-- Ends a block after some seconds. -/
def endBlock (seconds : Seconds) : LedgerM (List Event) := do
  advance seconds
  let granted ← processGrants
  let due ← processBlock
  return granted ++ due

end LedgerM

end ResearchLedger
