import ResearchLedger.Reward.Basic
/-!
Grants. A grant holds its money from its creation on and pays an equal part of it in each of its
blocks to the groups whose contents are active in its discipline. At its last block, or when its money
is used up, it ends and what is left returns to its owner.
-/

namespace ResearchLedger

namespace CreateGrant

variable (op : CreateGrant)

/-- What one block pays: an equal part, and at least the smallest unit. -/
def perBlock : Amount :=
  max (op.amount.amount / (min (op.endBlock - op.startBlock + 1) Amount.max.toNat : Nat)) 1

/-- The new grant. -/
def plan (block : Nat) (s : State) : Except LedgerError Grant := do
  op.amount.ensureSymbol .primary
  if op.amount.amount ≤ 0 then throw .nonPositiveAmount
  let _ ← s.discipline op.discipline
  if op.endBlock < op.startBlock ∨ op.endBlock < block then
    throw (.invalidGrantRange op.startBlock op.endBlock)
  s.checkBalance op.owner op.amount
  return {
    id := s.nextIds.grant
    owner := op.owner
    discipline := op.discipline
    amount := op.amount.amount
    perBlock := op.perBlock
    startBlock := op.startBlock
    endBlock := op.endBlock }

end CreateGrant

namespace Grant

/-- Writes a new grant; its money leaves the owner's balance. -/
def commit (g : Grant) (s : State) : State :=
  let s := s.debit g.owner g.amount
  { s with
    nextIds := { s.nextIds with grant := s.nextIds.grant + 1 }
    grants := s.grants.insert g.id g }

/-- Whether the grant, once it has started, still pays in a block. -/
def pays (g : Grant) (block : Nat) : Bool := block ≤ g.endBlock ∧ 0 < g.amount

/-- What one block pays of the grant. -/
def payout (g : Grant) : Amount := min g.perBlock g.amount

/-- Whether the grant ends with a block that leaves it `remaining`. -/
def isOver (g : Grant) (block : Nat) (remaining : Amount) : Bool :=
  g.endBlock ≤ block ∨ remaining ≤ 0

end Grant

namespace State

/-- Adds the part that a content has in a payout to the parts of its group, unless the content is
inactive. -/
def addGrantShare (s : State) (d : Discipline) (payout : Amount) (shares : SortedMap GroupId Amount)
    (content : ContentId) (t : VoteTotals) : Except LedgerError (SortedMap GroupId Amount) := do
  if t.activeWeight = 0 then return shares
  let c ← s.content content
  if !c.isActive then return shares
  let part ← share payout t.activeWeight d.activeWeight
  if part = 0 then return shares
  let r ← s.research c.research
  return shares.insert r.group (shares.getD r.group 0 + part)

/-- The parts of the groups in a payout, by the active weight of their contents in the discipline.
What rounding leaves stays with the grant. -/
def grantShares (s : State) (discipline : DisciplineId) (payout : Amount) :
    Except LedgerError (SortedMap GroupId Amount) := do
  let d ← s.discipline discipline
  if d.activeWeight = 0 ∨ payout ≤ 0 then return ∅
  (s.votedIn discipline).foldlM
    (fun shares (content, t) => s.addGrantShare d payout shares content t) ∅

/-- Pays groups their parts as far as the money of the grant reaches, and gives what remains. -/
def payShares (grant : GrantId) : State → Amount → List (GroupId × Amount) →
    State × Amount × List Event
  | s, remaining, [] => (s, remaining, [])
  | s, remaining, (group, part) :: rest =>
    let amount := min part remaining
    if amount ≤ 0 then (s, remaining, [])
    else
      let (s, left, events) := payShares grant (s.creditGroup group amount) (remaining - amount) rest
      (s, left, .grantPaid grant group amount :: events)

/-- Ends a grant; what is left of its money returns to its owner. -/
def finishGrant (s : State) (id : GrantId) (owner : AccountName) (remaining : Amount) : State :=
  let s := { s with grants := s.grants.erase id }
  if 0 < remaining then s.credit owner remaining else s

/-- Notes what is left of a grant's money. -/
def keepGrant (s : State) (id : GrantId) (remaining : Amount) : State :=
  { s with grants := s.grants.modify id (fun g => { g with amount := remaining }) }

/-- Makes the payment that the grant stored under `id` owes for a block. -/
def processGrant (s : State) (block : Nat) (id : GrantId) (g : Grant) :
    Except LedgerError (State × List Event) := do
  if block < g.startBlock then return (s, [])
  let shares ← if g.pays block then s.grantShares g.discipline g.payout else pure ∅
  let (s, remaining, events) := payShares id s g.amount shares.entries
  if g.isOver block remaining then
    let finished := Event.grantFinished id g.owner (max remaining 0)
    return (s.finishGrant id g.owner remaining, events ++ [finished])
  else return (s.keepGrant id remaining, events)

end State

namespace LedgerM

/-- Makes the payment that a grant owes for the present block. -/
def processGrant (id : GrantId) : LedgerM (List Event) := do
  let l ← get
  let g ← liftM (l.state.grant id)
  let (s, events) ← liftM (l.state.processGrant l.head.block id g)
  set { l with state := s }
  return events

/-- Makes the payments that all grants owe for the present block. If one of them fails, those before
it stand. -/
def processGrants : LedgerM (List Event) := do
  collect processGrant (← get).state.grants.keys

end LedgerM

end ResearchLedger
