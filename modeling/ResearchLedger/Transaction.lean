import ResearchLedger.CommonTokens.Lending
import ResearchLedger.CommonTokens.PowerDown
import ResearchLedger.Expertise.Addition
import ResearchLedger.Grant.Payout
import ResearchLedger.Proposal.Tally
import ResearchLedger.Recovery.Request
import ResearchLedger.Research.Publication
import ResearchLedger.Voting.Review
/-!
Operations applied to a ledger, one at a time or all together. Every operation is first checked in
full and then carried out by steps that cannot fail.
-/

namespace ResearchLedger

namespace Operation

/-- Checks an operation against a ledger and gives the ledger after it, with what is reported. -/
def run (l : Ledger) : Operation → Except LedgerError (Ledger × List Event)
  | accountCreate op => do
    op.check l.state
    return ({ l with state := op.commit l.head.time l.state }, [])
  | accountUpdate op => do
    op.check l.head.time l.state
    return ({ l with state := op.commit l.head.time l.state }, [])
  | transfer op => do
    op.check l.state
    return ({ l with state := op.commit l.state }, [])
  | transferToCommonTokens op => do
    let effects ← op.plan l.state
    return ({ l with state := op.commit l.head.time effects l.state }, [])
  | withdrawCommonTokens op => do
    let schedule ← op.plan l.head.time l.state
    return ({ l with state := op.commit schedule l.state }, [])
  | setWithdrawRoute op => do
    let plan ← op.plan l.state
    return ({ l with state := op.commit plan l.state }, [])
  | delegateCommonTokens op => do
    let plan ← op.plan l.head.time l.state
    return ({ l with state := plan.commit l.state }, [])
  | setWitnessProxy op => do
    let plan ← op.plan l.state
    return ({ l with state := plan.commit l.state }, [])
  | witnessUpdate op => do
    op.check l.state
    return ({ l with state := op.commit l.head.time l.state }, [])
  | witnessVote op => do
    let weight ← op.plan l.state
    return ({ l with state := op.commit weight l.state }, [])
  | requestRecovery op => do
    let plan ← op.plan l.head.time l.state
    return ({ l with state := plan.commit l.state }, [])
  | recoverAccount op => do
    op.check l.head.time l.state
    return ({ l with state := op.commit l.head.time l.state }, [])
  | changeRecoveryPartner op => do
    let plan ← op.plan l.head.time l.state
    return ({ l with state := plan.commit l.state }, [])
  | voteForContent op => do
    let plan ← op.plan l.head l.state
    return (plan.commit l, [])
  | voteForReview op => do
    let plan ← op.plan l.head.time l.state
    return ({ l with state := plan.commit l.head.time l.state }, [])
  | makeReview op => do
    let plan ← op.plan l.head l.state
    return (plan.commit l, [])
  | createGroup op => do
    op.check l.state
    return ({ l with state := op.commit l.state }, [])
  | createResearch op => do
    op.check l.state
    return ({ l with state := op.commit l.head.time l.state }, [])
  | createContent op => do
    op.check l.state
    return ({ l with state := op.commit l.head.time l.state }, [])
  | transferResearchTokens op => do
    op.check l.state
    return ({ l with state := op.commit l.state }, [])
  | addExpertise op => do
    op.check l.state
    return ({ l with state := op.commit l.head.time l.state }, [])
  | createGrant op => do
    let g ← op.plan l.head.block l.state
    return ({ l with state := g.commit l.state }, [])
  | createProposal op => do
    let p ← op.plan l.head.time l.state
    return ({ l with state := p.commit l.state }, [])
  | voteForProposal op => do
    let plan ← op.plan l.head.time l.state
    return ({ l with state := plan.commit l.state }, plan.events l.state)

/-- Applies one operation. -/
def apply (op : Operation) : LedgerM (List Event) := do
  let (l, events) ← liftM (op.run (← get))
  set l
  return events

end Operation

namespace LedgerM

/-- Applies operations in order: either all of them or none. -/
def applyTransaction (ops : List Operation) : LedgerM (List Event) :=
  atomically (collect Operation.apply ops)

end LedgerM

end ResearchLedger
