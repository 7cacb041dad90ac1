import ResearchLedger.Expertise.Power
import ResearchLedger.Operation.Basic
/-!
Votes on contents. A vote adds its tokens and their reward weight to the totals of the content in
its discipline, and earns its voter the growth of the curve over the total, reduced while the
content is young.
-/

namespace ResearchLedger

/-- A weight raised by another, if the sum fits. -/
def addWeight (a b : Nat) (what : Computation) : Except LedgerError Nat :=
  if maxWord < a + b then .error (.overflow what) else .ok (a + b)

namespace State

/-- Refuses a discipline that is neither the common one nor one of the research. -/
def checkDisciplineOf (s : State) (research : ResearchId) (discipline : DisciplineId) :
    Except LedgerError Unit := do
  if discipline = commonDiscipline then return ()
  let r ← s.research research
  if !r.disciplines.contains discipline then throw (.disciplineNotInResearch discipline)

end State

/-- A vote on a content that has been found good, with the records it leads to. -/
structure ContentVotePlan where
  vote : Vote
  remainingPower : Nat
  totals : VoteTotals
  discipline : Discipline
  /-- The total active weight of all disciplines after the vote. -/
  activeWeight : Nat

namespace VoteTotals

/-- The totals with a vote's tokens and reward weight, before the curator's weight. -/
def addTokens (t : VoteTotals) (tokens reward : Nat) (active : Bool) :
    Except LedgerError VoteTotals := do
  let weight ← addWeight t.weight tokens .totalWeight
  let researchWeight ← addWeight t.researchWeight reward .totalResearchWeight
  let t := { t with weight, researchWeight }
  if active then
    let activeWeight ← addWeight t.activeWeight tokens .totalActiveWeight
    let activeResearchWeight ←
      addWeight t.activeResearchWeight reward .totalActiveResearchWeight
    return { t with activeWeight, activeResearchWeight }
  else return t

/-- The totals with a curator's weight. -/
def addCurator (t : VoteTotals) (weight : Nat) (active : Bool) : Except LedgerError VoteTotals := do
  let curatorsWeight ← addWeight t.curatorsWeight weight .totalCuratorsWeight
  let t := { t with curatorsWeight }
  if active then
    let activeCuratorsWeight ← addWeight t.activeCuratorsWeight weight .totalActiveCuratorsWeight
    return { t with activeCuratorsWeight }
  else return t

end VoteTotals

namespace State

/-- A vote with the given use of power, when the disciplines have `activeWeight` in all. -/
def planContentVote (s : State) (now : Seconds) (activeWeight : Nat) (voter : AccountName)
    (discipline : DisciplineId) (content : ContentId) (percent : Int) (use : PowerUse) :
    Except LedgerError ContentVotePlan := do
  if (s.vote? voter discipline content).isSome then throw .duplicateVote
  let c ← s.content content
  let active := c.isActive
  let totals := (s.voteTotals? content discipline).getD (.fresh content discipline c.research)
  let d ← s.discipline discipline
  let reward ← Curve.power1Dot5.eval use.tokens
  let raised ← totals.addTokens use.tokens reward active
  let activeWeight ←
    if active then addWeight activeWeight use.tokens .activeDisciplinesWeight
    else pure activeWeight
  let disciplineWeight ←
    if active then addWeight d.activeWeight use.tokens .disciplineWeight else pure d.activeWeight
  let disciplineResearchWeight ←
    addWeight d.activeResearchWeight reward .disciplineResearchWeight
  let growth ← Curve.power1Dot5.delta totals.weight raised.weight
  let weight := decayedWeight growth (now - c.created) s.config.reverseAuctionWindow
  let raised ← raised.addCurator weight active
  return {
    vote := ⟨voter, discipline, c.research, content, percent, weight, use.used, use.tokens, now⟩
    remainingPower := use.remaining
    totals := raised
    discipline :=
      { d with activeWeight := disciplineWeight, activeResearchWeight := disciplineResearchWeight }
    activeWeight }

end State

namespace ContentVotePlan

/-- Writes the vote and the records it leads to. -/
def commit (p : ContentVotePlan) (l : Ledger) : Ledger :=
  let v := p.vote
  let key := (v.content, v.discipline)
  let s := l.state.spendPower v.voter v.discipline p.remainingPower l.head.time
  let votes := (s.votes.getD key ∅).insert v.voter v
  { state := { s with
      disciplines := s.disciplines.insert p.discipline.id p.discipline
      voteTotals := s.voteTotals.insert key p.totals
      votes := s.votes.insert key votes }
    head := { l.head with activeWeight := p.activeWeight } }

end ContentVotePlan

namespace VoteForContent

variable (op : VoteForContent)

def plan (h : Head) (s : State) : Except LedgerError ContentVotePlan := do
  let a ← s.account op.voter
  if !a.canVote then throw (.votingDeclined op.voter)
  let _ ← s.research op.research
  let _ ← s.discipline op.discipline
  let token ← s.expertToken op.voter op.discipline
  let c ← s.content op.content
  if c.research ≠ op.research then
    throw (.invalidOperation (.contentNotInResearch op.content op.research))
  s.checkDisciplineOf op.research op.discipline
  if (s.vote? op.voter op.discipline op.content).isSome then throw .duplicateVote
  let use ← token.use s.config op.weight h.time
  s.planContentVote h.time h.activeWeight op.voter op.discipline op.content op.weight use

end VoteForContent

end ResearchLedger
