import ResearchLedger.Proofs.Casting
import ResearchLedger.Proofs.Deactivation

/-! Every change keeps the links between records. -/
namespace ResearchLedger

variable {s s' : State} {l l' : Ledger} {n : AccountName} {events : List Event}

open SortedMap

namespace State.Linked

theorem votesOf (h : s.Linked) (key : ContentId × DisciplineId) :
    (s.votes.getD key ∅).All fun n v => v.voter = n ∧ s.accounts.contains n = true :=
  All.getD (p := fun _ n (v : Vote) => v.voter = n ∧ s.accounts.contains n = true)
    fun k vs hk => (h.votes k vs hk).2

theorem reviewVotesOf (h : s.Linked) (key : ReviewId × DisciplineId) :
    (s.reviewVotes.getD key ∅).All fun n v => v.voter = n ∧ s.accounts.contains n = true :=
  All.getD (p := fun _ n (v : ReviewVote) => v.voter = n ∧ s.accounts.contains n = true)
    fun k vs hk => (h.reviewVotes k vs hk).2

theorem holdersOf (h : s.Linked) (id : ResearchId) :
    (s.researchTokens.getD id ∅).All fun n _ => s.accounts.contains n = true :=
  All.getD (p := fun _ n (_ : Nat) => s.accounts.contains n = true)
    fun k vs hk => (h.researchTokens k vs hk).2

theorem routesOf (h : s.Linked) (source : AccountName) :
    (s.withdrawRoutes.getD source ∅).All fun t r => r.target = t ∧ s.accounts.contains t = true :=
  All.getD (p := fun _ t (r : WithdrawRoute) => r.target = t ∧ s.accounts.contains t = true)
    h.withdrawRoutes

/-- Routes lead to accounts. -/
theorem routeTargets (h : s.Linked) (source : AccountName) :
    ∀ r ∈ (s.withdrawRoutes.getD source ∅).values, s.accounts.contains r.target = true := by
  intro r hr
  obtain ⟨e, he, rfl⟩ := List.mem_map.1 hr
  obtain ⟨ht, hc⟩ := h.routesOf source _ _ (mem_entries_iff.1 he)
  exact ht.symm ▸ hc

end State.Linked

/-- A cast vote stands under existing records. -/
theorem ContentVotePlan.Casts.linked {p : ContentVotePlan} {c : Content} {d : Discipline}
    {reward : Nat} (h : p.Casts l c d reward) (hl : l.state.Linked) : (p.commit l).state.Linked := by
  have hw : l.state.disciplines.Within (l.state.disciplines.insert p.discipline.id p.discipline) :=
    .insert
  refine { hl with
    disciplines := hl.disciplines.insert rfl
    voteTotals := ?_
    votes := ?_ }
  · exact (hl.voteTotals.mono fun _ _ h => ⟨h.1, hw _ h.2⟩).insert
      ⟨contains_of_get? h.content, hw _ (contains_of_get? h.discipline)⟩
  · refine All.insert (hl.votes.mono fun k vs hk => ⟨contains_insert.2 (Or.inr hk.1), hk.2⟩)
      ⟨contains_insert.2 (Or.inl rfl), ?_⟩
    exact (hl.votesOf p.key).insert ⟨rfl, h.voter⟩

theorem ContentVotePlan.CastsAll.linked {ps : List ContentVotePlan} (h : CastsAll ps l)
    (hl : l.state.Linked) : (ps.foldl (fun l v => v.commit l) l).state.Linked := by
  induction h with
  | nil => exact hl
  | cons h _ ih => exact ih (h.linked hl)

namespace VoteForReview

variable {op : VoteForReview} {plan : Plan} {now : Seconds}

/-- A vote on a review that was found good: it adds the reward weight of its tokens to the discipline and
to the review there, its own weight to the curation of the review, and renews the modifier. -/
structure Plan.Casts (plan : Plan) (op : VoteForReview) (s : State) (r : Review) (d : Discipline)
    (reward : Nat) : Prop where
  account : s.accounts.contains op.voter = true
  review : s.reviews.get? op.review = some r
  discipline : s.disciplines.get? op.discipline = some d
  fresh : (s.reviewVotes.getD (op.review, op.discipline) ∅).get? op.voter = none
  voter : plan.vote.voter = op.voter
  key : plan.vote.review = op.review ∧ plan.vote.discipline = op.discipline
  curve : Curve.power1Dot5.eval plan.vote.tokens = .ok reward
  raised : plan.discipline = { d with activeReviewWeight := d.activeReviewWeight + reward }
  revised : plan.review = { r with
    rewardWeights :=
      r.rewardWeights.insert op.discipline (r.rewardWeights.getD op.discipline 0 + reward)
    curationWeights := r.curationWeights.insert op.discipline
      (r.curationWeights.getD op.discipline 0 + plan.vote.weight)
    weightModifiers := r.weightModifiers.insert op.discipline
      (reviewModifier (r.rewardWeights.getD op.discipline 0 + reward)
        (d.activeReviewWeight + reward)) }
  reward_le : r.rewardWeights.getD op.discipline 0 + reward ≤ maxWord
  curation_le : r.curationWeights.getD op.discipline 0 + plan.vote.weight ≤ maxWord

theorem plan_casts (h : op.plan now s = .ok plan) : ∃ r d reward, plan.Casts op s r d reward := by
  unfold VoteForReview.plan at h
  obtain ⟨a, ha, h⟩ := bind_eq_ok.1 h
  obtain ⟨-, h⟩ := guard_bind_eq_ok.1 h
  obtain ⟨r, hr, h⟩ := bind_eq_ok.1 h
  obtain ⟨_, -, h⟩ := bind_eq_ok.1 h
  obtain ⟨d, hd, h⟩ := bind_eq_ok.1 h
  obtain ⟨_, -, h⟩ := bind_eq_ok.1 h
  obtain ⟨_, -, h⟩ := bind_eq_ok.1 h
  obtain ⟨hf, h⟩ := guard_bind_eq_ok.1 h
  obtain ⟨use, -, h⟩ := bind_eq_ok.1 h
  obtain ⟨reward, hcurve, h⟩ := bind_eq_ok.1 h
  obtain ⟨total, ht, h⟩ := bind_eq_ok.1 h
  obtain ⟨-, rfl⟩ := addWeight_eq_ok.1 ht
  obtain ⟨reviewWeight, hw, h⟩ := bind_eq_ok.1 h
  obtain ⟨hrw, rfl⟩ := addWeight_eq_ok.1 hw
  obtain ⟨growth, -, h⟩ := bind_eq_ok.1 h
  obtain ⟨curation, hc, h⟩ := bind_eq_ok.1 h
  obtain ⟨hcw, rfl⟩ := addWeight_eq_ok.1 hc
  cases h
  refine ⟨r, d, reward, contains_of_get? (State.account_eq_ok.1 ha), State.review_eq_ok.1 hr,
    State.discipline_eq_ok.1 hd, ?_, rfl, ⟨rfl, rfl⟩, hcurve, rfl, rfl, hrw, hcw⟩
  have hf : s.reviewVote? op.voter op.discipline op.review = none := by simpa using hf
  unfold State.reviewVote? at hf
  rw [getD_eq]
  cases hv : s.reviewVotes.get? (op.review, op.discipline) with
  | none => rfl
  | some vs => rwa [hv] at hf

namespace Plan.Casts

variable {r : Review} {d : Discipline} {reward : Nat}

theorem review_id (h : plan.Casts op s r d reward) (hs : s.Linked) : plan.review.id = op.review := by
  rw [h.revised]
  exact (hs.reviews _ _ h.review).1

theorem discipline_id (h : plan.Casts op s r d reward) (hs : s.Linked) :
    plan.discipline.id = op.discipline := by
  rw [h.raised]
  exact hs.disciplines _ d h.discipline

theorem reviews_commit (h : plan.Casts op s r d reward) (hs : s.Linked) :
    (plan.commit now s).reviews = s.reviews.insert op.review plan.review := by
  rw [← h.review_id hs]
  rfl

theorem disciplines_commit (h : plan.Casts op s r d reward) (hs : s.Linked) :
    (plan.commit now s).disciplines = s.disciplines.insert op.discipline plan.discipline := by
  rw [← h.discipline_id hs]
  rfl

theorem reviewVotes_commit (h : plan.Casts op s r d reward) :
    (plan.commit now s).reviewVotes = s.reviewVotes.insert (op.review, op.discipline)
      ((s.reviewVotes.getD (op.review, op.discipline) ∅).insert op.voter plan.vote) := by
  rw [← h.key.1, ← h.key.2, ← h.voter]
  rfl

end Plan.Casts

theorem linked (h : op.plan now s = .ok plan) (hs : s.Linked) : (plan.commit now s).Linked := by
  obtain ⟨r, d, reward, hc⟩ := plan_casts h
  have hw : s.reviews.Within (s.reviews.insert plan.review.id plan.review) := .insert
  have hwd : s.disciplines.Within (s.disciplines.insert plan.discipline.id plan.discipline) := .insert
  have hold := hs.reviews _ _ hc.review
  refine { hs with
    disciplines := hs.disciplines.insert rfl
    reviews := hs.reviews.insert ⟨rfl, ?_, ?_⟩
    voteTotals := hs.voteTotals.mono fun _ _ h => ⟨h.1, hwd _ h.2⟩
    reviewVotes := All.insert (hs.reviewVotes.mono fun _ _ h => ⟨hw _ h.1, h.2⟩) ⟨?_, ?_⟩ }
  · rw [hc.review_id hs]; exact hold.2.1
  · rw [hc.revised]; exact hold.2.2
  · rw [hc.key.1]; exact hw _ (contains_of_get? hc.review)
  · exact (hs.reviewVotesOf _).insert ⟨rfl, hc.voter ▸ hc.account⟩

end VoteForReview

theorem AccountCreate.linked {op : AccountCreate} (now : Seconds) (hs : s.Linked) :
    (op.commit now s).Linked := by
  have hd : KeepsNames s.accounts (s.debit op.creator op.fee.amount).accounts :=
    .modify_self fun _ => rfl
  have hs' : State.Linked { s with accounts :=
      (s.debit op.creator op.fee.amount).accounts.insert op.name (op.account now) } :=
    hs.withAccounts (hd.within.trans .insert) ((hs.keepsNames hd).accounts.insert rfl)
  unfold AccountCreate.commit
  dsimp only
  split <;> exact { hs' with }

namespace SetWithdrawRoute

variable {op : SetWithdrawRoute}

theorem plan_ok {plan : Plan} (h : op.plan s = .ok plan) :
    s.accounts.contains op.source = true ∧ s.accounts.contains op.target = true ∧
      op.otherPercents s + op.percent ≤ wholePercent := by
  unfold SetWithdrawRoute.plan at h
  obtain ⟨a, ha, h⟩ := bind_eq_ok.1 h
  obtain ⟨_, ht, h⟩ := bind_eq_ok.1 h
  obtain ⟨-, h⟩ := guard_bind_eq_ok.1 h
  refine ⟨contains_of_get? (State.account_eq_ok.1 ha), State.checkAccount_eq_ok.1 ht, ?_⟩
  dsimp only at h
  split at h
  · obtain ⟨_, -, h⟩ := bind_eq_ok.1 h
    exact Nat.not_lt.1 (guard_bind_eq_ok.1 h).1
  · obtain ⟨-, h⟩ := guard_bind_eq_ok.1 h
    obtain ⟨-, h⟩ := guard_bind_eq_ok.1 h
    obtain ⟨_, -, h⟩ := bind_eq_ok.1 h
    exact Nat.not_lt.1 (guard_bind_eq_ok.1 h).1

/-- The routes of the source after the operation. -/
theorem routes_commit (plan : Plan) (s : State) : (op.commit plan s).withdrawRoutes =
      s.withdrawRoutes.insert op.source ((s.withdrawRoutes.getD op.source ∅).insert op.target op.route) ∨
    (op.commit plan s).withdrawRoutes = s.withdrawRoutes.erase op.source ∨
    (op.commit plan s).withdrawRoutes =
      s.withdrawRoutes.insert op.source ((s.withdrawRoutes.getD op.source ∅).erase op.target) := by
  cases plan with
  | create => exact Or.inl rfl
  | change => exact Or.inl rfl
  | remove =>
    unfold SetWithdrawRoute.commit SetWithdrawRoute.clear
    dsimp only
    split
    · exact Or.inr (Or.inl rfl)
    · exact Or.inr (Or.inr rfl)

/-- Routes still lead to existing accounts. -/
theorem linked_routes {plan : Plan} (h : op.plan s = .ok plan) (hs : s.Linked) :
    (op.commit plan s).withdrawRoutes.All fun _ rs =>
      rs.All fun t r => r.target = t ∧ s.accounts.contains t = true := by
  have hold := hs.routesOf op.source
  rcases routes_commit plan s with he | he | he <;> rw [he]
  · exact hs.withdrawRoutes.insert (hold.insert ⟨rfl, (plan_ok h).2.1⟩)
  · exact hs.withdrawRoutes.erase
  · exact hs.withdrawRoutes.insert hold.erase

end SetWithdrawRoute

theorem CreateGroup.check_ok {op : CreateGroup} {u : Unit} (h : op.check s = .ok u) :
    s.accounts.contains op.creator = true ∧ s.groupPermlinks.contains op.permlink = false := by
  obtain ⟨_, ha, h⟩ := bind_eq_ok.1 h
  obtain ⟨_, -, h⟩ := bind_eq_ok.1 h
  obtain ⟨-, h⟩ := guard_bind_eq_ok.1 h
  exact ⟨State.checkAccount_eq_ok.1 ha, Bool.eq_false_iff.2 (guard_eq_ok.1 h).1⟩

theorem CreateGroup.linked (op : CreateGroup) (hs : s.Linked) : (op.commit s).Linked := by
  have hw : s.groups.Within (op.commit s).groups := .insert
  exact { hs with
    groups := All.insert (hs.groups.mono fun _ _ h => Nat.lt_succ_of_lt h) (Nat.lt_succ_self _)
    researches := hs.researches.mono fun _ _ h => ⟨h.1, h.2.1, hw _ h.2.2⟩ }

theorem CreateResearch.check_ok {op : CreateResearch} {u : Unit} (h : op.check s = .ok u) :
    s.groups.contains op.group = true ∧
      s.researchPermlinks.contains (op.group, op.permlink) = false ∧
      op.reviewSharePercent ≤ wholePercent - s.config.referencesShare - s.config.curatorsShare ∧
      ∀ x ∈ op.disciplines, s.disciplines.contains x = true := by
  unfold CreateResearch.check at h
  obtain ⟨_, hm, h⟩ := bind_eq_ok.1 h
  obtain ⟨_, -, h⟩ := bind_eq_ok.1 h
  obtain ⟨hnew, h⟩ := guard_bind_eq_ok.1 h
  obtain ⟨hp, h⟩ := guard_bind_eq_ok.1 h
  obtain ⟨-, h⟩ := guard_bind_eq_ok.1 h
  obtain ⟨g, hg, -⟩ := bind_eq_ok.1 hm
  refine ⟨contains_of_get? (State.group_eq_ok.1 hg), Bool.eq_false_iff.2 hnew, Nat.not_lt.1 hp, ?_⟩
  intro x hx
  obtain ⟨d, hd, -⟩ := bind_eq_ok.1 (forM_eq_ok.1 h x hx)
  exact contains_of_get? (State.discipline_eq_ok.1 hd)

theorem CreateResearch.linked {op : CreateResearch} {u : Unit} (now : Seconds)
    (h : op.check s = .ok u) (hs : s.Linked) : (op.commit now s).Linked := by
  have hw : s.researches.Within (op.commit now s).researches := .insert
  exact { hs with
    researches := All.insert (hs.researches.mono fun _ _ h => ⟨h.1, Nat.lt_succ_of_lt h.2.1, h.2.2⟩)
      ⟨rfl, Nat.lt_succ_self _, (check_ok h).1⟩
    contents := hs.contents.mono fun _ _ h => ⟨h.1, h.2.1, hw _ h.2.2.1, h.2.2.2⟩
    researchTokens := hs.researchTokens.mono fun _ _ h => ⟨hw _ h.1, h.2⟩ }

theorem CreateContent.check_ok {op : CreateContent} {u : Unit} (h : op.check s = .ok u) :
    s.researches.contains op.research = true ∧
      s.contentPermlinks.contains (op.research, op.permlink) = false ∧
      (∀ n ∈ op.authors, s.accounts.contains n = true) ∧
      ∀ x ∈ op.references, s.contents.contains x = true := by
  unfold CreateContent.check at h
  obtain ⟨r, hr, h⟩ := bind_eq_ok.1 h
  obtain ⟨_, -, h⟩ := bind_eq_ok.1 h
  obtain ⟨_, -, h⟩ := bind_eq_ok.1 h
  obtain ⟨hnew, h⟩ := guard_bind_eq_ok.1 h
  obtain ⟨-, h⟩ := guard_bind_eq_ok.1 h
  obtain ⟨_, hauthors, h⟩ := bind_eq_ok.1 h
  exact ⟨contains_of_get? (State.research_eq_ok.1 hr), Bool.eq_false_iff.2 hnew,
    fun n hn => State.checkAccount_eq_ok.1 (forM_eq_ok.1 hauthors n hn),
    fun x hx => State.checkContent_eq_ok.1 (forM_eq_ok.1 h x hx)⟩

theorem CreateContent.linked {op : CreateContent} {u : Unit} (now : Seconds)
    (h : op.check s = .ok u) (hs : s.Linked) : (op.commit now s).Linked := by
  obtain ⟨hr, -, -, hx⟩ := check_ok h
  have hw : s.contents.Within (op.commit now s).contents := .insert
  exact { hs with
    contents := All.insert
      (hs.contents.mono fun _ _ h =>
        ⟨h.1, Nat.lt_succ_of_lt h.2.1, h.2.2.1, fun x hx => hw _ (h.2.2.2 x hx)⟩)
      ⟨rfl, Nat.lt_succ_self _, hr, fun x h => hw _ (hx x h)⟩
    voteTotals := hs.voteTotals.mono fun _ _ h => ⟨hw _ h.1, h.2⟩ }

namespace TransferResearchTokens

variable {op : TransferResearchTokens}

/-- A transfer of research tokens that is admitted: the source has what it gives. -/
theorem check_ok {u : Unit} (h : op.check s = .ok u) : ∃ r, s.researches.get? op.research = some r ∧
    s.accounts.contains op.receiver = true ∧ op.amount ≠ 0 ∧ op.amount ≤
      if op.fromGroup then r.ownedTokens else s.researchTokensOf op.research op.sender := by
  unfold TransferResearchTokens.check at h
  obtain ⟨h₀, h⟩ := guard_bind_eq_ok.1 h
  obtain ⟨-, h⟩ := guard_bind_eq_ok.1 h
  obtain ⟨r, hr, h⟩ := bind_eq_ok.1 h
  obtain ⟨_, -, h⟩ := bind_eq_ok.1 h
  obtain ⟨_, ha, h⟩ := bind_eq_ok.1 h
  obtain ⟨available, hv, h⟩ := bind_eq_ok.1 h
  have hle := Nat.not_lt.1 (guard_eq_ok.1 h).1
  refine ⟨r, State.research_eq_ok.1 hr, State.checkAccount_eq_ok.1 ha, h₀, ?_⟩
  unfold TransferResearchTokens.available at hv
  split at hv
  · obtain ⟨_, -, hv⟩ := bind_eq_ok.1 hv
    cases hv
    rwa [if_pos ‹_›]
  · obtain ⟨-, hv⟩ := guard_bind_eq_ok.1 hv
    cases hv
    rwa [if_neg ‹_›]

/-- The holdings after the transfer. -/
def holdersAfter (op : TransferResearchTokens) (s : State) : SortedMap AccountName Nat :=
  let holders := s.researchTokens.getD op.research ∅
  let rest := if op.fromGroup then holders else op.takeFrom holders
  rest.insert op.receiver (rest.getD op.receiver 0 + op.amount)

theorem commit_eq (op : TransferResearchTokens) (s : State) : op.commit s = { s with
    researches := if op.fromGroup then s.researches.modify op.research
      (fun r => { r with ownedTokens := r.ownedTokens - op.amount }) else s.researches
    researchTokens := s.researchTokens.insert op.research (op.holdersAfter s) } := by
  unfold commit holdersAfter
  cases op.fromGroup <;> rfl

/-- The holders after the transfer are the holders before it and the receiver. -/
theorem all_holdersAfter {p : AccountName → Prop}
    (h : (s.researchTokens.getD op.research ∅).All fun n _ => p n) (hr : p op.receiver) :
    (op.holdersAfter s).All fun n _ => p n := by
  refine All.insert ?_ hr
  unfold takeFrom
  split
  · exact h
  · split
    · exact h
    · rename_i hsend
      have := h _ _ hsend
      split
      · exact h.erase
      · exact h.insert this

theorem linked {u : Unit} (h : op.check s = .ok u) (hs : s.Linked) : (op.commit s).Linked := by
  obtain ⟨r, hr, ha, -⟩ := check_ok h
  have hw : s.researches.Within (op.commit s).researches := by
    rw [commit_eq]
    dsimp only
    split
    · exact .modify
    · exact .refl
  have hh : (op.holdersAfter s).All fun n _ => s.accounts.contains n = true :=
    all_holdersAfter (hs.holdersOf op.research) ha
  rw [commit_eq] at hw ⊢
  refine { hs with
    researches := ?_
    contents := hs.contents.mono fun _ _ h => ⟨h.1, h.2.1, hw _ h.2.2.1, h.2.2.2⟩
    researchTokens := All.insert (hs.researchTokens.mono fun _ _ h => ⟨hw _ h.1, h.2⟩)
      ⟨hw _ (contains_of_get? hr), hh⟩ }
  dsimp only
  split
  · exact hs.researches.modify fun _ h => h
  · exact hs.researches

end TransferResearchTokens

/-- A grant that is admitted: its owner has the money. -/
theorem CreateGrant.plan_ok {op : CreateGrant} {block : Nat} {g : Grant}
    (h : op.plan block s = .ok g) : g.id = s.nextIds.grant ∧ g.owner = op.owner ∧
      0 < g.amount ∧ g.amount = op.amount.amount ∧
      ∃ a, s.accounts.get? g.owner = some a ∧ g.amount ≤ a.balance.amount := by
  unfold CreateGrant.plan at h
  obtain ⟨_, -, h⟩ := bind_eq_ok.1 h
  obtain ⟨hp, h⟩ := guard_bind_eq_ok.1 h
  obtain ⟨_, -, h⟩ := bind_eq_ok.1 h
  obtain ⟨-, h⟩ := guard_bind_eq_ok.1 h
  obtain ⟨_, hb, h⟩ := bind_eq_ok.1 h
  obtain ⟨a, ha, -, hle⟩ := State.checkBalance_eq_ok.1 hb
  cases h
  exact ⟨rfl, rfl, by lia, rfl, a, ha, hle⟩

/-- A proposal that is admitted: its group exists, and its creator is a member. -/
theorem CreateProposal.plan_ok {op : CreateProposal} {now : Seconds} {p : Proposal}
    (h : op.plan now s = .ok p) : s.groupTokensOf op.group op.creator ≠ 0 ∧
      ∃ g, s.groups.get? op.group = some g ∧ p = {
        id := s.nextIds.proposal
        group := op.group
        creator := op.creator
        data := op.data
        quorumPercent := g.quorumPercent
        status := .active
        voters := ∅
        totalVoted := 0
        created := now
        expiration := op.expiration } := by
  unfold CreateProposal.plan at h
  obtain ⟨g, hg, h⟩ := bind_eq_ok.1 h
  obtain ⟨hmember, h⟩ := guard_bind_eq_ok.1 h
  obtain ⟨-, rfl⟩ := guard_eq_ok.1 h
  exact ⟨hmember, g, State.group_eq_ok.1 hg, rfl⟩

/-- A vote for a proposal that is admitted: the voter is a member, and the votes can be counted. -/
theorem VoteForProposal.plan_ok {op : VoteForProposal} {now : Seconds} {plan : VoteForProposal.Plan}
    (h : op.plan now s = .ok plan) : s.groupTokensOf op.group op.voter ≠ 0 ∧
      plan.voter = op.voter ∧ plan.totalVoted ≤ maxWord32 := by
  unfold VoteForProposal.plan at h
  obtain ⟨p, -, h⟩ := bind_eq_ok.1 h
  obtain ⟨-, h⟩ := guard_bind_eq_ok.1 h
  obtain ⟨-, h⟩ := guard_bind_eq_ok.1 h
  obtain ⟨-, h⟩ := guard_bind_eq_ok.1 h
  obtain ⟨hmember, h⟩ := guard_bind_eq_ok.1 h
  obtain ⟨-, h⟩ := guard_bind_eq_ok.1 h
  obtain ⟨hvoted, h⟩ := guard_bind_eq_ok.1 h
  obtain ⟨_, -, h⟩ := bind_eq_ok.1 h
  cases h
  exact ⟨hmember, rfl, Nat.not_lt.1 hvoted⟩

theorem MakeReview.record_linked {op : MakeReview} {plan : MakeReview.Plan} (hl : l.state.Linked)
    (h : op.plan l.head l.state = .ok plan) : (plan.record l).state.Linked := by
  obtain ⟨⟨ds, used, hr⟩, ha, -, -⟩ := MakeReview.plan_ok hl.disciplines h
  refine { hl with reviews := ?_, reviewVotes := ?_ }
  · refine All.insert (hl.reviews.mono fun _ _ h => ⟨h.1, Nat.lt_succ_of_lt h.2.1, h.2.2⟩)
      ⟨rfl, ?_, ?_⟩
    · rw [hr]; exact Nat.lt_succ_self _
    · rw [hr]; exact ha
  · exact hl.reviewVotes.mono fun _ _ h => ⟨Within.insert _ h.1, h.2⟩

namespace Operation.Effect

variable {op : Operation}

theorem linked (h : op.Effect l l') (hl : l.state.Linked) : l'.state.Linked := by
  have hk := h.keepsNames
  cases op with
  | accountCreate op =>
    cases h
    exact AccountCreate.linked _ hl
  | setWithdrawRoute op =>
    have hk := hk (fun _ he => by cases he)
    have hroutes : l'.state.withdrawRoutes.All fun _ rs =>
        rs.All fun t r => r.target = t ∧ l.state.accounts.contains t = true := by
      cases h with | setWithdrawRoute hp =>
      exact SetWithdrawRoute.linked_routes hp hl
    cases h.footprint
    exact { hl.keepsNames hk with
      withdrawRoutes := hroutes.mono fun _ _ h => h.mono fun _ _ h => ⟨h.1, hk.within _ h.2⟩ }
  | voteForContent op =>
    cases h with | voteForContent hp =>
    obtain ⟨c, d, reward, hp, -⟩ := VoteForContent.plan_ok hp
    exact hp.linked hl
  | voteForReview op =>
    cases h with | voteForReview hp =>
    exact VoteForReview.linked hp hl
  | makeReview op =>
    cases h with | makeReview hp =>
    exact (MakeReview.plan_ok hl.disciplines hp).2.2.2.linked (MakeReview.record_linked hl hp)
  | createGroup op =>
    cases h
    exact op.linked hl
  | createResearch op =>
    cases h with | createResearch hp =>
    exact CreateResearch.linked _ hp hl
  | createContent op =>
    cases h with | createContent hp =>
    exact CreateContent.linked _ hp hl
  | transferResearchTokens op =>
    cases h with | transferResearchTokens hp =>
    exact TransferResearchTokens.linked hp hl
  | createGrant op =>
    have hk := hk (fun _ he => by cases he)
    cases h with | createGrant hp =>
    obtain ⟨hid, -, -, -, a, ha, -⟩ := CreateGrant.plan_ok hp
    have hl' := hl.keepsNames hk
    exact { hl' with
      grants := All.insert (hl'.grants.mono fun _ _ h => ⟨Nat.lt_succ_of_lt h.1, h.2⟩)
        ⟨hid ▸ Nat.lt_succ_self _, hk.within _ (contains_of_get? ha)⟩ }
  | _ =>
    have hk := hk (fun _ he => by cases he)
    cases h.footprint
    exact { hl.keepsNames hk with }

end Operation.Effect

namespace State

theorem groups_foldl_creditGroup (xs : List (GroupId × Amount)) (s : State) :
    (xs.foldl (fun s x => s.creditGroup x.1 x.2) s).groups = xs.foldl
      (fun m x => m.modify x.1 (fun g => { g with balance := Amount.clamp (g.balance + x.2) }))
      s.groups := by
  induction xs generalizing s with
  | nil => rfl
  | cons x xs ih => rw [List.foldl_cons, ih]; rfl

theorem groups_foldl_creditExpertise (now : Seconds)
    (xs : List ((AccountName × DisciplineId) × Amount)) (s : State) :
    (xs.foldl (fun s x => s.creditExpertise x.1.1 x.1.2 x.2 now) s).groups = s.groups := by
  obtain ⟨_, h⟩ := foldl_creditExpertise (α := (AccountName × DisciplineId) × Amount) (·.1.1)
    (·.1.2) (·.2) now xs s
  rw [h]

theorem groups_applyReward (s : State) (now : Seconds) (p : RewardPlan) :
    (s.applyReward now p).groups = p.groups.entries.foldl
      (fun m x => m.modify x.1 (fun g => { g with balance := Amount.clamp (g.balance + x.2) }))
      s.groups := by
  unfold applyReward credit
  rw [groups_foldl_creditExpertise, groups_foldl_creditGroup, foldl_modifyAccount]

theorem contains_groups_payShares (id : GrantId) (shares : List (GroupId × Amount)) (s : State)
    (remaining : Amount) (group : GroupId) :
    (payShares id s remaining shares).1.groups.contains group = s.groups.contains group := by
  induction shares generalizing s remaining with
  | nil => rfl
  | cons x shares ih =>
    rw [payShares]
    split
    · rfl
    · exact (ih _ _).trans contains_modify

namespace Linked

theorem applyReward (h : s.Linked) (now : Seconds) (p : RewardPlan) :
    (s.applyReward now p).Linked := by
  have hk := applyReward_keepsNames s now p
  have hg : ∀ id, (s.applyReward now p).groups.contains id = s.groups.contains id := by
    intro id
    rw [groups_applyReward]
    exact contains_foldl_modify
  obtain ⟨accounts, groups, tokens, he⟩ := applyReward_footprint s now p
  rw [he] at hk hg ⊢
  exact { (h.keepsNames hk).withGroups hg with }

theorem afterShares (h : s.Linked) (block : Nat) (id : GrantId) (g : Grant)
    (shares : SortedMap GroupId Amount) : (s.afterShares block id g shares).Linked := by
  have hg := contains_groups_payShares id shares.entries s g.amount
  obtain ⟨groups, hp⟩ := payShares_footprint id shares.entries s g.amount
  unfold State.afterShares
  generalize payShares id s g.amount shares.entries = paid at hp hg ⊢
  obtain ⟨s₁, remaining, events⟩ := paid
  subst hp
  have h₁ := h.withGroups hg
  unfold finishGrant
  dsimp only
  split
  · split
    · have hk : KeepsNames s.accounts (s.credit g.owner remaining).accounts :=
        .modify_self fun _ => rfl
      exact { h₁.keepsNames hk with grants := (h₁.keepsNames hk).grants.erase }
    · exact { h₁ with grants := h₁.grants.erase }
  · exact { h₁ with grants := h₁.grants.modify fun _ h => h }

end Linked

end State

theorem Upkeep.linked (h : Upkeep l l') (hl : l.state.Linked) : l'.state.Linked := by
  have hk : KeepsNames l.state.accounts l'.state.accounts := h.keepsStanding.map Prod.fst
  cases h with
  | grant _ h =>
    obtain rfl | ⟨shares, -, rfl⟩ := State.processGrant_ok h
    · exact hl
    · exact hl.afterShares ..
  | requests => exact { hl with }
  | partners =>
    obtain ⟨accounts, partnerChanges, he⟩ := State.changePartners_footprint l.state l.head.time
    rw [he] at hk ⊢
    exact { hl.keepsNames hk with }
  | history => exact { hl with }
  | returns =>
    obtain ⟨accounts, expiring, he⟩ := State.returnDelegations_footprint l.state l.head.time
    rw [he] at hk ⊢
    exact { hl.keepsNames hk with }
  | deactivation => exact Ledger.deactivate_linked hl
  | proposals => exact { hl with }
  | clock => exact hl

theorem Change.linked (h : Change l l') (hl : l.state.Linked) : l'.state.Linked := by
  cases h with
  | operation h => exact h.linked hl
  | reward => exact hl.applyReward _ _
  | payment h =>
    have hk := LedgerM.payPowerDown_keepsNames h
    obtain ⟨accounts, tokens, witnesses, rfl⟩ := LedgerM.payPowerDown_footprint h
    exact { hl.keepsNames hk with }
  | upkeep h => exact h.linked hl

end ResearchLedger
