import ResearchLedger.Event.Basic
import ResearchLedger.Operation.Basic
import ResearchLedger.State.Basic
/-!
Proposals and their tally. A proposal is approved by the vote that brings it to its quorum, and
expires if its time comes first.
-/

namespace ResearchLedger

namespace CreateProposal

variable (op : CreateProposal)

/-- The new proposal, with the quorum that the group has now. -/
def plan (now : Seconds) (s : State) : Except LedgerError Proposal := do
  let g ← s.group op.group
  if s.groupTokensOf op.group op.creator = 0 then throw (.notGroupMember op.creator op.group)
  let lifetime := op.expiration - now
  let least := s.config.proposalMinLifetime
  let greatest := s.config.proposalMaxLifetime
  if op.expiration ≤ now ∨ lifetime < least ∨ greatest < lifetime then
    throw (.proposalLifetimeOutOfRange least greatest lifetime)
  return {
    id := s.nextIds.proposal
    group := op.group
    creator := op.creator
    data := op.data
    quorumPercent := g.quorumPercent
    status := .active
    voters := ∅
    totalVoted := 0
    created := now
    expiration := op.expiration }

end CreateProposal

namespace Proposal

/-- Writes a new proposal. -/
def commit (p : Proposal) (s : State) : State :=
  { s with
    nextIds := { s.nextIds with proposal := s.nextIds.proposal + 1 }
    proposals := s.proposals.insert p.id p }

/-- Whether a number of group tokens reaches the quorum. -/
def reachesQuorum (p : Proposal) (g : ResearchGroup) (voted : Nat) : Bool :=
  p.quorumPercent * g.totalTokens ≤ voted * wholePercent

/-- Whether the proposal is still active at the time it was to be decided by. -/
def isOverdue (p : Proposal) (now : Seconds) : Bool := p.status = .active && p.expiration ≤ now

end Proposal

namespace VoteForProposal

/-- What a vote comes to. -/
structure Plan where
  proposal : ProposalId
  voter : AccountName
  totalVoted : Nat
  approved : Bool

variable (op : VoteForProposal)

def plan (now : Seconds) (s : State) : Except LedgerError Plan := do
  let p ← s.proposal op.proposal
  if p.group ≠ op.group then
    throw (.invalidOperation (.proposalNotInGroup op.proposal op.group))
  if p.status ≠ .active then throw (.proposalNotActive op.proposal)
  if p.expiration ≤ now then throw (.proposalExpired op.proposal)
  let tokens := s.groupTokensOf op.group op.voter
  if tokens = 0 then throw (.notGroupMember op.voter op.group)
  if p.voters.contains op.voter then throw (.alreadyVotedProposal op.voter)
  let voted := p.totalVoted + tokens
  if maxWord32 < voted then throw (.overflow .proposalVotes)
  let g ← s.group op.group
  return ⟨op.proposal, op.voter, voted, p.reachesQuorum g voted⟩

namespace Plan

/-- The proposal with the vote. -/
def applyTo (plan : Plan) (p : Proposal) : Proposal :=
  { p with
    voters := SortedSet.add p.voters plan.voter
    totalVoted := plan.totalVoted
    status := if plan.approved then .approved else p.status }

def commit (plan : Plan) (s : State) : State :=
  { s with proposals := s.proposals.modify plan.proposal plan.applyTo }

/-- The approval, if the vote brought it. -/
def events (plan : Plan) (s : State) : List Event :=
  match s.proposals.get? plan.proposal with
  | some p => if plan.approved then [.proposalApproved p.id p.group] else []
  | none => []

end Plan

end VoteForProposal

namespace State

/-- Marks the overdue proposals as expired. -/
def expireProposals (s : State) (now : Seconds) : State × List Event :=
  ({ s with
    proposals := s.proposals.mapValues
      (fun _ p => if p.isOverdue now then { p with status := .expired } else p) },
    (s.proposals.values.filter (·.isOverdue now)).map (fun p => .proposalExpired p.id))

end State

end ResearchLedger
