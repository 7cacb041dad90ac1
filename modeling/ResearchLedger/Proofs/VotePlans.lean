import ResearchLedger.Proofs.Links

/-! Planned votes: what each takes of its voter's expert token, and what its curator earns by it. -/
namespace ResearchLedger

open SortedMap

variable {s s' : State} {l : Ledger} {now : Seconds} {p : ContentVotePlan} {u u' : PowerUse}
  {voter : AccountName} {discipline : DisciplineId} {percent : Int}

theorem State.expertToken_eq_ok {t : ExpertToken} :
    s.expertToken voter discipline = .ok t ↔ s.expertToken? voter discipline = some t := by
  unfold expertToken found
  cases s.expertToken? voter discipline <;> simp

/-- The token of a voter stands behind a vote of a percentage. -/
def State.Backs (s : State) (now : Seconds) (voter : AccountName) (discipline : DisciplineId)
    (percent : Int) (u : PowerUse) : Prop :=
  ∃ token, s.expertToken? voter discipline = some token ∧ token.use s.config percent now = .ok u

namespace State.Backs

/-- Only the voter's token in the discipline matters. -/
theorem congr (h : s.Backs now voter discipline percent u)
    (ht : s'.expertToken? voter discipline = s.expertToken? voter discipline)
    (hc : s'.config = s.config) : s'.Backs now voter discipline percent u := by
  obtain ⟨token, htoken, huse⟩ := h
  exact ⟨token, ht.trans htoken, by rw [hc]; exact huse⟩

theorem unique (h : s.Backs now voter discipline percent u)
    (h' : s.Backs now voter discipline percent u') : u = u' := by
  obtain ⟨token, htoken, huse⟩ := h
  obtain ⟨token', htoken', huse'⟩ := h'
  rw [htoken] at htoken'
  cases htoken'
  rw [huse] at huse'
  exact Except.ok.inj huse'

end State.Backs

namespace ContentVotePlan

/-- What the planned vote takes of the token behind it. -/
def use (p : ContentVotePlan) : PowerUse := ⟨p.vote.usedPower, p.remainingPower, p.vote.tokens⟩

/-- The weight of the planned vote is what it adds to the curve over the totals, reduced while the
content is young. -/
def Earns (p : ContentVotePlan) (s : State) : Prop :=
  ∃ c growth, s.contents.get? p.vote.content = some c ∧
    Curve.power1Dot5.delta (p.totals.weight - p.vote.tokens) p.totals.weight = .ok growth ∧
    p.vote.weight = decayedWeight growth (p.vote.time - c.created) s.config.reverseAuctionWindow

/-- A vote that is planned at a time: a token stands behind it, and its weight is what it earns. -/
structure Planned (p : ContentVotePlan) (s : State) (now : Seconds) : Prop where
  time : p.vote.time = now
  backed : s.Backs now p.vote.voter p.vote.discipline p.vote.percent p.use
  earns : p.Earns s

theorem Earns.congr (h : p.Earns s) (hc : s'.contents = s.contents) (hs : s'.config = s.config) :
    p.Earns s' := by
  obtain ⟨c, growth, hcontent, hgrowth, hweight⟩ := h
  exact ⟨c, growth, hc ▸ hcontent, hgrowth, hs ▸ hweight⟩

end ContentVotePlan

/-- What a plan writes down of the vote that was asked for. -/
theorem State.planContentVote_asked {active : Nat} {content : ContentId}
    (h : s.planContentVote now active voter discipline content percent u = .ok p) :
    p.vote.voter = voter ∧ p.vote.discipline = discipline ∧ p.vote.content = content ∧
      p.vote.percent = percent ∧ p.vote.time = now ∧ p.use = u ∧ p.Earns s := by
  unfold planContentVote at h
  obtain ⟨-, h⟩ := guard_bind_eq_ok.1 h
  obtain ⟨c, hc, h⟩ := bind_eq_ok.1 h
  obtain ⟨d, -, h⟩ := bind_eq_ok.1 h
  obtain ⟨reward, -, h⟩ := bind_eq_ok.1 h
  generalize (s.voteTotals? content discipline).getD (.fresh content discipline c.research) = t at h
  obtain ⟨raised, ht, h⟩ := bind_eq_ok.1 h
  have hbefore : t.weight + u.tokens - u.tokens = t.weight := Nat.add_sub_cancel ..
  obtain rfl := VoteTotals.addTokens_ok ht
  -- Active and inactive contents differ only in the weights that are raised.
  cases ha : c.isActive
  all_goals
    simp only [ha, Bool.false_eq_true, if_false, if_true] at h
    obtain ⟨_, -, h⟩ := bind_eq_ok.1 h
    obtain ⟨_, -, h⟩ := bind_eq_ok.1 h
    obtain ⟨_, -, h⟩ := bind_eq_ok.1 h
    obtain ⟨growth, hgrowth, h⟩ := bind_eq_ok.1 h
    obtain ⟨totals, hx, h⟩ := bind_eq_ok.1 h
    obtain ⟨rfl, -⟩ := VoteTotals.addCurator_ok hx
    cases h
    refine ⟨rfl, rfl, rfl, rfl, rfl, rfl, c, growth, content_eq_ok.1 hc, ?_, rfl⟩
    rw [← hgrowth]
    exact congrArg (Curve.power1Dot5.delta · (t.weight + u.tokens)) hbefore

theorem State.planContentVote_planned {active : Nat} {content : ContentId} {token : ExpertToken}
    (ht : s.expertToken voter discipline = .ok token)
    (hu : token.use s.config percent now = .ok u)
    (h : s.planContentVote now active voter discipline content percent u = .ok p) :
    p.Planned s now := by
  obtain ⟨rfl, rfl, -, rfl, htime, rfl, hearns⟩ := planContentVote_asked h
  exact ⟨htime, ⟨token, expertToken_eq_ok.1 ht, hu⟩, hearns⟩

theorem VoteForContent.plan_planned {op : VoteForContent} (h : op.plan l.head l.state = .ok p) :
    p.Planned l.state l.head.time ∧ p.vote.percent = op.weight := by
  unfold VoteForContent.plan at h
  obtain ⟨_, -, h⟩ := bind_eq_ok.1 h
  obtain ⟨-, h⟩ := guard_bind_eq_ok.1 h
  obtain ⟨_, -, h⟩ := bind_eq_ok.1 h
  obtain ⟨_, -, h⟩ := bind_eq_ok.1 h
  obtain ⟨token, htoken, h⟩ := bind_eq_ok.1 h
  obtain ⟨_, -, h⟩ := bind_eq_ok.1 h
  obtain ⟨-, h⟩ := guard_bind_eq_ok.1 h
  obtain ⟨_, -, h⟩ := bind_eq_ok.1 h
  obtain ⟨-, h⟩ := guard_bind_eq_ok.1 h
  obtain ⟨use, huse, h⟩ := bind_eq_ok.1 h
  exact ⟨State.planContentVote_planned htoken huse h, (State.planContentVote_asked h).2.2.2.1⟩

namespace MakeReview

variable {op : MakeReview} {plan : Plan}

/-- The votes of a review are cast in its disciplines, one in each. -/
theorem disciplines_planVotes {active : Nat} {ds : List DisciplineId}
    {votes : List (ContentVotePlan × Amount)} (h : op.planVotes s now active ds = .ok votes) :
    votes.map (fun v => v.1.vote.discipline) = ds := by
  induction ds generalizing active votes with
  | nil => cases h; rfl
  | cons d ds ih =>
    obtain ⟨token, -, h⟩ := bind_eq_ok.1 h
    obtain ⟨use, -, h⟩ := bind_eq_ok.1 h
    obtain ⟨p, hp, h⟩ := bind_eq_ok.1 h
    obtain ⟨rest, hr, h⟩ := bind_eq_ok.1 h
    cases h
    rw [List.map_cons, ih hr, (State.planContentVote_asked hp).2.1]

/-- The votes of a review are all planned on the stores as they are before them, each in a discipline of
its own. -/
theorem plan_planned (h : op.plan l.head l.state = .ok plan) :
    (∀ p ∈ plan.votes, p.Planned l.state l.head.time) ∧
      (plan.votes.map (·.vote.discipline)).Nodup := by
  obtain ⟨c, r, votes, -, -, -, -, -, hvotes, hv⟩ := plan_admits h
  rw [hvotes]
  rcases hv with rfl | hv
  · exact ⟨fun _ hp => absurd hp List.not_mem_nil, List.nodup_nil⟩
  · constructor
    · intro p hp
      obtain ⟨v, hmem, rfl⟩ := List.mem_map.1 hp
      obtain ⟨d, token, use, active, htoken, huse, -, hplan⟩ := planVotes_mem hv v hmem
      exact State.planContentVote_planned htoken huse hplan
    · rw [List.map_map]
      exact (disciplines_planVotes hv).symm ▸ nodup_keys _

end MakeReview

namespace VoteForReview

/-- What the planned vote takes of the token behind it. -/
def Plan.use (p : Plan) : PowerUse := ⟨p.vote.usedPower, p.remainingPower, p.vote.tokens⟩

/-- The weight of the planned vote is what it adds to the curve over the weight of all reviews of the
discipline, reduced while the review is young. -/
def Plan.Earns (p : Plan) (s : State) : Prop :=
  ∃ r d growth, s.reviews.get? p.vote.review = some r ∧
    s.disciplines.get? p.vote.discipline = some d ∧
    Curve.power1Dot5.delta d.activeReviewWeight p.discipline.activeReviewWeight = .ok growth ∧
    p.vote.weight = decayedWeight growth (p.vote.time - r.created) s.config.reverseAuctionWindow

theorem plan_planned {op : VoteForReview} {plan : Plan} (h : op.plan now s = .ok plan) :
    plan.vote.time = now ∧
      s.Backs now plan.vote.voter plan.vote.discipline plan.vote.percent plan.use ∧
      plan.Earns s := by
  unfold VoteForReview.plan at h
  obtain ⟨_, -, h⟩ := bind_eq_ok.1 h
  obtain ⟨-, h⟩ := guard_bind_eq_ok.1 h
  obtain ⟨r, hr, h⟩ := bind_eq_ok.1 h
  obtain ⟨_, -, h⟩ := bind_eq_ok.1 h
  obtain ⟨d, hd, h⟩ := bind_eq_ok.1 h
  obtain ⟨token, htoken, h⟩ := bind_eq_ok.1 h
  obtain ⟨_, -, h⟩ := bind_eq_ok.1 h
  obtain ⟨-, h⟩ := guard_bind_eq_ok.1 h
  obtain ⟨use, huse, h⟩ := bind_eq_ok.1 h
  obtain ⟨reward, -, h⟩ := bind_eq_ok.1 h
  obtain ⟨total, -, h⟩ := bind_eq_ok.1 h
  obtain ⟨_, -, h⟩ := bind_eq_ok.1 h
  obtain ⟨growth, hgrowth, h⟩ := bind_eq_ok.1 h
  obtain ⟨_, -, h⟩ := bind_eq_ok.1 h
  cases h
  exact ⟨rfl, ⟨token, State.expertToken_eq_ok.1 htoken, huse⟩, r, d, growth,
    State.review_eq_ok.1 hr, State.discipline_eq_ok.1 hd, hgrowth, rfl⟩

end VoteForReview

end ResearchLedger
