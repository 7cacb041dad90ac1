import ResearchLedger.Voting.Content
/-!
Reviews and the votes on them. All reviews of a discipline share one running total; a review that
holds a large part of it weighs up to twice as much.
-/

namespace ResearchLedger

namespace VoteForReview

/-- A vote on a review that has been found good, with the records it leads to. -/
structure Plan where
  vote : ReviewVote
  remainingPower : Nat
  discipline : Discipline
  review : Review

variable (op : VoteForReview)

def plan (now : Seconds) (s : State) : Except LedgerError Plan := do
  let a ← s.account op.voter
  if !a.canVote then throw (.votingDeclined op.voter)
  let r ← s.review op.review
  let c ← s.content r.content
  let d ← s.discipline op.discipline
  let token ← s.expertToken op.voter op.discipline
  s.checkDisciplineOf c.research op.discipline
  if (s.reviewVote? op.voter op.discipline op.review).isSome then throw .duplicateVote
  let use ← token.use s.config op.weight now
  let reward ← Curve.power1Dot5.eval use.tokens
  let total ← addWeight d.activeReviewWeight reward .disciplineReviewWeight
  let reviewWeight ← addWeight (r.rewardWeights.getD op.discipline 0) reward .reviewWeight
  let growth ← Curve.power1Dot5.delta d.activeReviewWeight total
  let weight := decayedWeight growth (now - r.created) s.config.reverseAuctionWindow
  let curation ← addWeight (r.curationWeights.getD op.discipline 0) weight .reviewCurationWeight
  return {
    vote := ⟨op.voter, op.discipline, op.review, op.weight, weight, use.used, use.tokens, now⟩
    remainingPower := use.remaining
    discipline := { d with activeReviewWeight := total }
    review := { r with
      rewardWeights := r.rewardWeights.insert op.discipline reviewWeight
      curationWeights := r.curationWeights.insert op.discipline curation
      weightModifiers :=
        r.weightModifiers.insert op.discipline (reviewModifier reviewWeight total) } }

namespace Plan

/-- Writes the vote and the records it leads to. -/
def commit (p : Plan) (now : Seconds) (s : State) : State :=
  let v := p.vote
  let key := (v.review, v.discipline)
  let s := s.spendPower v.voter v.discipline p.remainingPower now
  let votes := (s.reviewVotes.getD key ∅).insert v.voter v
  { s with
    disciplines := s.disciplines.insert p.discipline.id p.discipline
    reviews := s.reviews.insert p.review.id p.review
    reviewVotes := s.reviewVotes.insert key votes }

end Plan

end VoteForReview

namespace MakeReview

/-- A review that has been found good, with the votes that a positive one casts. -/
structure Plan where
  review : Review
  votes : List ContentVotePlan

variable (op : MakeReview)

/-- The review's disciplines: those of the research in which the author has a token. -/
def reviewDisciplines (s : State) (r : Research) : List DisciplineId :=
  ((s.expertTokensOf op.author).map (·.discipline)).filter r.disciplines.contains

/-- The review before any vote on it. -/
def review (s : State) (now : Seconds) (disciplines : SortedSet DisciplineId) : Review where
  id := s.nextIds.review
  content := op.content
  author := op.author
  text := op.text
  isPositive := op.isPositive
  disciplines
  references := op.references
  externalReferences := op.externalReferences
  created := now
  rewardWeights := disciplines.mapValues (fun _ _ => 0)
  curationWeights := disciplines.mapValues (fun _ _ => 0)
  weightModifiers := disciplines.mapValues (fun _ _ => wholePercent)
  expertiseUsed := ∅

/-- The votes of a positive review, a whole one in each discipline, and the expertise behind each. -/
def planVotes (s : State) (now : Seconds) : Nat → List DisciplineId →
    Except LedgerError (List (ContentVotePlan × Amount))
  | _, [] => .ok []
  | activeWeight, d :: ds => do
    let token ← s.expertToken op.author d
    let use ← token.use s.config wholePercent now
    let vote ← s.planContentVote now activeWeight op.author d op.content wholePercent use
    return (vote, token.amount) :: (← planVotes s now vote.activeWeight ds)

def plan (h : Head) (s : State) : Except LedgerError Plan := do
  let a ← s.account op.author
  let c ← s.content op.content
  let r ← s.research c.research
  let disciplines := SortedSet.ofKeys (op.reviewDisciplines s r)
  if disciplines.isEmpty then throw .insufficientExpertise
  op.references.forM (fun id => do let _ ← s.content id)
  let review := op.review s h.time disciplines
  if op.isPositive then
    if !a.canVote then throw (.votingDeclined op.author)
    let votes ← op.planVotes s h.time h.activeWeight disciplines.keys
    let used := SortedMap.ofList (votes.map (fun v => (v.1.vote.discipline, v.2)))
    return ⟨{ review with expertiseUsed := used }, votes.map (·.1)⟩
  else return ⟨review, []⟩

namespace Plan

/-- Writes the review and its votes. -/
def commit (p : Plan) (l : Ledger) : Ledger :=
  let s := l.state
  let r := p.review
  let s := { s with
    nextIds := { s.nextIds with review := s.nextIds.review + 1 }
    reviewsByContent := SortedSet.add s.reviewsByContent (r.content, r.id)
    reviews := s.reviews.insert r.id r }
  p.votes.foldl (fun l v => v.commit l) { l with state := s }

end Plan

end MakeReview

end ResearchLedger
