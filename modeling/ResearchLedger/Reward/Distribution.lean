import ResearchLedger.Reward.Basic
/-!
Distribution of rewards. A budget is divided among the disciplines by their active weight, and the
part of a discipline among its active contents by their weight. Of the part of a content, parts go to
its reviews, to the contents it refers to and to its curators, and the rest to the holders of its
research. Every division rounds down, and what remains is reported as unused.
-/

namespace ResearchLedger

namespace State

variable (s : State)

/-- Divides an amount among the group of a research and the holders of its tokens. -/
def planHolders (id : ResearchId) (amount : Amount) (p : RewardPlan) :
    Except LedgerError RewardPlan := do
  let r ← s.research id
  let part ← percentShare amount r.ownedTokens
  let p ←
    if 0 < part then do
      let p ← p.payGroup r.group part
      pure (p.report (.groupRewarded r.group id part))
    else pure p
  (s.researchTokens.getD id ∅).entries.foldlM (fun p (holder, tokens) => do
    let part ← percentShare amount tokens
    if part = 0 then return p
    let p ← p.payAccount holder part
    return p.report (.tokenHolderRewarded holder id part)) p

/-- The weight of a review in a discipline: what its votes are worth, times its modifier. -/
def reviewWeight (r : Review) (discipline : DisciplineId) : Nat :=
  r.rewardWeights.getD discipline 0 * r.weightModifiers.getD discipline wholePercent / wholePercent

/-- The positive reviews of a content that have a weight in a discipline, with these weights. -/
def weightedReviews (content : ContentId) (discipline : DisciplineId) : List (Review × Nat) :=
  (((s.reviewsOf content).filter (·.isPositive)).map
    (fun r => (r, reviewWeight r discipline))).filter (·.2 != 0)

/-- Divides an amount among the voters of a review by the weights of their votes. -/
def planReviewVoters (r : Review) (discipline : DisciplineId) (amount : Amount) (p : RewardPlan) :
    Except LedgerError RewardPlan := do
  let total := r.curationWeights.getD discipline 0
  if total = 0 then return p
  (s.reviewVotes.getD (r.id, discipline) ∅).values.foldlM (fun p v => do
    let part ← share amount v.weight total
    if part = 0 then return p
    let p ← p.payAccount v.voter part
    return p.report (.reviewVoterRewarded v.voter r.id part)) p

/-- Divides the part of a review between its voters and its author. -/
def planReview (r : Review) (discipline : DisciplineId) (amount : Amount) (p : RewardPlan) :
    Except LedgerError RewardPlan := do
  let votersPart ← percentShare amount s.config.reviewVotersShare
  let p ← s.planReviewVoters r discipline votersPart p
  let authorPart := amount - votersPart
  let p ← p.payAccount r.author authorPart
  let p := p.report (.reviewRewarded r.author r.id authorPart)
  p.giveExpertiseTo [r.author] discipline authorPart

/-- Divides an amount among the reviews of a content by their weights. -/
def planReviews (content : ContentId) (discipline : DisciplineId) (amount : Amount)
    (p : RewardPlan) : Except LedgerError RewardPlan := do
  if amount ≤ 0 then return p
  let weighted := s.weightedReviews content discipline
  let whole := total (weighted.map (·.2))
  weighted.foldlM (fun p (r, weight) => do
    let part ← share amount weight whole
    if part = 0 then return p
    s.planReview r discipline part p) p

/-- Divides an amount evenly among the contents that a content refers to. -/
def planReferences (c : Content) (discipline : DisciplineId) (amount : Amount) (p : RewardPlan) :
    Except LedgerError RewardPlan := do
  if amount ≤ 0 ∨ c.references.isEmpty then return p
  let each ← share amount 1 c.references.length
  if each = 0 then return p
  c.references.foldlM (fun p id => do
    let reference ← s.content id
    let p ← s.planHolders reference.research each p
    p.giveExpertiseTo reference.authors discipline each) p

/-- Divides an amount among the curators of a content by the weights of their votes. -/
def planCurators (content : ContentId) (discipline : DisciplineId) (amount : Amount)
    (p : RewardPlan) : Except LedgerError RewardPlan := do
  if amount ≤ 0 then return p
  let total := match s.voteTotals? content discipline with
    | some t => t.curatorsWeight
    | none => 0
  if total = 0 then return p
  (s.votes.getD (content, discipline) ∅).values.foldlM (fun p v => do
    let part ← share amount v.weight total
    if part = 0 then return p
    let p ← p.payAccount v.voter part
    return p.report (.curatorRewarded v.voter content part)) p

/-- Divides the part of a content: reviews, references, curators, and the holders of its research,
whose part is also given to its authors as expertise. -/
def planContent (c : Content) (discipline : DisciplineId) (amount : Amount) (p : RewardPlan) :
    Except LedgerError RewardPlan := do
  let r ← s.research c.research
  let reviewsPart ← percentShare amount r.reviewSharePercent
  let referencesPart ← percentShare amount s.config.referencesShare
  let curatorsPart ← percentShare amount s.config.curatorsShare
  let holdersPart := amount - reviewsPart - referencesPart - curatorsPart
  let p ← s.planReviews c.id discipline reviewsPart p
  let p ← s.planReferences c discipline referencesPart p
  let p ← s.planCurators c.id discipline curatorsPart p
  if holdersPart ≤ 0 then return p
  let p ← s.planHolders r.id holdersPart p
  p.giveExpertiseTo c.authors discipline holdersPart

/-- Gives one content its part of what a discipline receives, unless the content is inactive. -/
def planVoted (d : Discipline) (amount : Amount) (content : ContentId) (t : VoteTotals)
    (p : RewardPlan) : Except LedgerError RewardPlan := do
  let c ← s.content content
  if !c.isActive then return p
  let part ← share amount t.researchWeight d.activeResearchWeight
  if part = 0 then return p
  s.planContent c d.id part (p.report (.contentRewarded content d.id part))

/-- Divides the part of a discipline among its contents by their weights. -/
def planDiscipline (budget : Amount) (activeWeight : Nat) (d : Discipline) (p : RewardPlan) :
    Except LedgerError RewardPlan := do
  if d.activeWeight = 0 then return p
  let amount ← share budget d.activeWeight activeWeight
  if amount = 0 ∨ d.activeResearchWeight = 0 then return p
  ((s.votedIn d.id).filter (·.2.researchWeight != 0)).foldlM
    (fun p (content, t) => s.planVoted d amount content t p) p

/-- Divides a budget among the disciplines by their active weights. -/
def planReward (budget : Amount) (activeWeight : Nat) : Except LedgerError RewardPlan :=
  if budget = 0 ∨ activeWeight = 0 then .ok {}
  else s.disciplines.values.foldlM (fun p d => s.planDiscipline budget activeWeight d p) {}

end State

/-- Refuses an amount that cannot be given away. -/
def checkBudget (budget : Asset) : Except LedgerError Unit := do
  budget.ensureSymbol .primary
  if budget.amount < 0 then throw .nonPositiveAmount

namespace LedgerM

/-- Distributes a budget over all active contents. -/
def distributeReward (budget : Asset) : LedgerM RewardReport := do
  let l ← get
  liftM (checkBudget budget)
  let plan ← liftM (l.state.planReward budget.amount l.head.activeWeight)
  modifyState (·.applyReward l.head.time plan)
  return plan.toReport budget.amount

/-- Distributes an amount over the holders of one research. -/
def rewardHolders (research : ResearchId) (amount : Asset) : LedgerM RewardReport := do
  let l ← get
  liftM (checkBudget amount)
  let plan ← liftM (l.state.planHolders research amount.amount {})
  modifyState (·.applyReward l.head.time plan)
  return plan.toReport amount.amount

end LedgerM

end ResearchLedger
