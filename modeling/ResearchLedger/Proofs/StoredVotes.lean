import ResearchLedger.Proofs.Stored

/-! Votes and reviews stay within the ranges in which they are stored: what a plan writes is in
range, and so is the state once it is written. -/
namespace ResearchLedger

open SortedMap

variable {s : State} {l : Ledger} {now : Seconds} {d : DisciplineId}

/-- What a vote takes of a token is at most all of its power. -/
structure PowerUse.InRange (u : PowerUse) : Prop where
  used : u.used ≤ wholePercent
  remaining : u.remaining ≤ wholePercent
  tokens : u.tokens ≤ maxWord

theorem Config.divisor_pos {c : Config} {u : Unit} (h : c.validate = .ok u) :
    0 < c.votePowerCostDivisor := by
  unfold validate at h
  obtain ⟨-, h⟩ := guard_bind_eq_ok.1 h
  obtain ⟨-, h⟩ := guard_bind_eq_ok.1 h
  exact Int.not_le.1 (guard_bind_eq_ok.1 h).1

theorem ExpertToken.use_ok {t : ExpertToken} {c : Config} {weight : Int} {use : PowerUse}
    (hc : c.validate = .ok ()) (h : t.use c weight now = .ok use) :
    use.InRange ∧ weight.natAbs ≤ wholePercent := by
  unfold ExpertToken.use at h
  obtain ⟨-, h⟩ := guard_bind_eq_ok.1 h
  obtain ⟨hw, h⟩ := guard_bind_eq_ok.1 h
  obtain ⟨htokens, h⟩ := guard_bind_eq_ok.1 h
  obtain ⟨-, h⟩ := guard_bind_eq_ok.1 h
  cases h
  have hpower : t.powerAt c now ≤ wholePercent := Nat.min_le_right _ _
  have hle : weight.natAbs ≤ wholePercent := Nat.not_lt.1 fun h => hw (.inr h)
  have hused : t.powerAt c now * weight.natAbs / wholePercent ≤ t.powerAt c now :=
    Nat.div_le_of_le_mul (by rw [Nat.mul_comm wholePercent]; exact Nat.mul_le_mul_left _ hle)
  have hcost : 0 ≤ Int.tdiv ((t.powerAt c now * weight.natAbs / wholePercent : Nat) : Int)
      c.votePowerCostDivisor :=
    Int.tdiv_nonneg (Int.natCast_nonneg _) (Config.divisor_pos hc).le
  exact ⟨⟨hused.trans hpower, (Int.toNat_le.2 (by lia)).trans hpower, Nat.not_lt.1 htokens⟩, hle⟩

theorem votePercent_inRange {weight : Int} (h : weight.natAbs ≤ wholePercent) :
    -0x8000 ≤ weight ∧ weight ≤ 0x7FFF := by
  unfold wholePercent at h
  constructor <;> lia

namespace VoteTotals

variable {t t' : VoteTotals} {tokens reward weight : Nat} {active : Bool}

theorem InRange.addTokens (ht : t.InRange) (h : t.addTokens tokens reward active = .ok t') :
    t'.InRange := by
  unfold VoteTotals.addTokens at h
  obtain ⟨_, hx, h⟩ := bind_eq_ok.1 h
  obtain ⟨hw, rfl⟩ := addWeight_eq_ok.1 hx
  obtain ⟨_, hx, h⟩ := bind_eq_ok.1 h
  obtain ⟨hr, rfl⟩ := addWeight_eq_ok.1 hx
  cases active with
  | false => cases h; exact { ht with weight := hw, researchWeight := hr }
  | true =>
    obtain ⟨_, hx, h⟩ := bind_eq_ok.1 h
    obtain ⟨haw, rfl⟩ := addWeight_eq_ok.1 hx
    obtain ⟨_, hx, h⟩ := bind_eq_ok.1 h
    obtain ⟨har, rfl⟩ := addWeight_eq_ok.1 hx
    cases h
    exact { ht with
      weight := hw
      researchWeight := hr
      activeWeight := haw
      activeResearchWeight := har }

theorem InRange.addCurator (ht : t.InRange) (h : t.addCurator weight active = .ok t') :
    t'.InRange ∧ weight ≤ maxWord := by
  unfold VoteTotals.addCurator at h
  obtain ⟨_, hx, h⟩ := bind_eq_ok.1 h
  obtain ⟨hw, rfl⟩ := addWeight_eq_ok.1 hx
  have hle := (Nat.le_add_left _ _).trans hw
  cases active with
  | false => cases h; exact ⟨{ ht with curatorsWeight := hw }, hle⟩
  | true =>
    obtain ⟨_, hx, h⟩ := bind_eq_ok.1 h
    obtain ⟨haw, rfl⟩ := addWeight_eq_ok.1 hx
    cases h
    exact ⟨{ ht with curatorsWeight := hw, activeCuratorsWeight := haw }, hle⟩

end VoteTotals

/-- All that a vote writes is in range. -/
structure ContentVotePlan.InRange (p : ContentVotePlan) : Prop where
  vote : p.vote.InRange
  remainingPower : p.remainingPower ≤ wholePercent
  totals : p.totals.InRange
  discipline : p.discipline.InRange

theorem State.Stored.planContentVote {active : Nat} {voter : AccountName} {content : ContentId}
    {percent : Int} {use : PowerUse} {p : ContentVotePlan} (hs : s.Stored) (ht : now ≤ maxWord)
    (hu : use.InRange) (hp : percent.natAbs ≤ wholePercent)
    (h : s.planContentVote now active voter d content percent use = .ok p) : p.InRange := by
  unfold State.planContentVote at h
  obtain ⟨-, h⟩ := guard_bind_eq_ok.1 h
  obtain ⟨c, hc, h⟩ := bind_eq_ok.1 h
  obtain ⟨disc, hd, h⟩ := bind_eq_ok.1 h
  obtain ⟨reward, -, h⟩ := bind_eq_ok.1 h
  obtain ⟨raised, hraised, h⟩ := bind_eq_ok.1 h
  have hc := hs.contents _ _ (State.content_eq_ok.1 hc)
  have hd := hs.disciplines _ _ (State.discipline_eq_ok.1 hd)
  have hbefore : ((s.voteTotals? content d).getD (.fresh content d c.research)).InRange := by
    unfold State.voteTotals?
    cases hget : s.voteTotals.get? (content, d) with
    | none =>
      exact ⟨hc.1, hd.1, hc.2.research, Nat.zero_le _, Nat.zero_le _, Nat.zero_le _,
        Nat.zero_le _, Nat.zero_le _, Nat.zero_le _⟩
    | some t => exact (hs.voteTotals _ _ hget).2.2
  obtain ⟨activeWeight, weight, curator, totals, hweight, hresearch, htotals, rfl⟩ :
      ∃ activeWeight weight curator totals, weight ≤ maxWord ∧
        disc.activeResearchWeight + reward ≤ maxWord ∧
        raised.addCurator curator c.isActive = .ok totals ∧ p = {
          vote := ⟨voter, d, c.research, content, percent, curator, use.used, use.tokens, now⟩
          remainingPower := use.remaining
          totals
          discipline := { disc with
            activeWeight := weight
            activeResearchWeight := disc.activeResearchWeight + reward }
          activeWeight } := by
    cases hactive : c.isActive with
    | false =>
      simp only [hactive, Bool.false_eq_true, if_false] at h
      obtain ⟨_, -, h⟩ := bind_eq_ok.1 h
      obtain ⟨_, hx, h⟩ := bind_eq_ok.1 h
      cases hx
      obtain ⟨_, hx, h⟩ := bind_eq_ok.1 h
      obtain ⟨hresearch, rfl⟩ := addWeight_eq_ok.1 hx
      obtain ⟨growth, -, h⟩ := bind_eq_ok.1 h
      obtain ⟨totals, htotals, h⟩ := bind_eq_ok.1 h
      cases h
      exact ⟨_, _, _, totals, hd.2.activeWeight, hresearch, htotals, rfl⟩
    | true =>
      simp only [hactive, if_true] at h
      obtain ⟨_, -, h⟩ := bind_eq_ok.1 h
      obtain ⟨_, hx, h⟩ := bind_eq_ok.1 h
      obtain ⟨hweight, rfl⟩ := addWeight_eq_ok.1 hx
      obtain ⟨_, hx, h⟩ := bind_eq_ok.1 h
      obtain ⟨hresearch, rfl⟩ := addWeight_eq_ok.1 hx
      obtain ⟨growth, -, h⟩ := bind_eq_ok.1 h
      obtain ⟨totals, htotals, h⟩ := bind_eq_ok.1 h
      cases h
      exact ⟨_, _, _, totals, hweight, hresearch, htotals, rfl⟩
  obtain ⟨htotals, hcurator⟩ := (hbefore.addTokens hraised).addCurator htotals
  exact {
    vote := ⟨hd.1, hc.2.research, hc.1, votePercent_inRange hp, hcurator,
      hu.used.trans (by decide), hu.tokens, ht⟩
    remainingPower := hu.remaining
    totals := htotals
    discipline := { hd.2 with activeWeight := hweight, activeResearchWeight := hresearch } }

theorem ContentVotePlan.InRange.stored {p : ContentVotePlan} (hp : p.InRange) (hs : l.state.Stored)
    (ht : l.head.time ≤ maxWord) : (p.commit l).state.Stored := by
  have hs := hs.spendPower (n := p.vote.voter) (d := p.vote.discipline) hp.remainingPower ht
  have hvotes : (l.state.votes.getD p.key ∅).All fun _ v => v.InRange :=
    (hs.votes.getD_of ⟨hp.vote.content, hp.vote.discipline, .empty⟩).2.2
  exact { hs with
    disciplines := hs.disciplines.insert ⟨hp.discipline.id, hp.discipline⟩
    voteTotals := hs.voteTotals.insert ⟨hp.vote.content, hp.vote.discipline, hp.totals⟩
    votes := hs.votes.insert ⟨hp.vote.content, hp.vote.discipline, hvotes.insert hp.vote⟩ }

theorem VoteForContent.plan_inRange {op : VoteForContent} {p : ContentVotePlan}
    (hs : l.state.Stored) (hc : l.state.config.validate = .ok ()) (ht : l.head.time ≤ maxWord)
    (h : op.plan l.head l.state = .ok p) : p.InRange := by
  unfold VoteForContent.plan at h
  obtain ⟨_, -, h⟩ := bind_eq_ok.1 h
  obtain ⟨-, h⟩ := guard_bind_eq_ok.1 h
  obtain ⟨_, -, h⟩ := bind_eq_ok.1 h
  obtain ⟨_, -, h⟩ := bind_eq_ok.1 h
  obtain ⟨_, -, h⟩ := bind_eq_ok.1 h
  obtain ⟨_, -, h⟩ := bind_eq_ok.1 h
  obtain ⟨-, h⟩ := guard_bind_eq_ok.1 h
  obtain ⟨_, -, h⟩ := bind_eq_ok.1 h
  obtain ⟨-, h⟩ := guard_bind_eq_ok.1 h
  obtain ⟨use, huse, h⟩ := bind_eq_ok.1 h
  obtain ⟨hu, hp⟩ := ExpertToken.use_ok hc huse
  exact hs.planContentVote ht hu hp h

namespace VoteForReview

variable {op : VoteForReview} {plan : Plan}

/-- All that a vote on a review writes is in range. -/
structure Plan.InRange (p : Plan) : Prop where
  vote : p.vote.InRange
  remainingPower : p.remainingPower ≤ wholePercent
  discipline : p.discipline.InRange
  review : p.review.InRange

theorem plan_inRange (hs : s.Stored) (hc : s.config.validate = .ok ()) (ht : now ≤ maxWord)
    (h : op.plan now s = .ok plan) : plan.InRange := by
  unfold VoteForReview.plan at h
  obtain ⟨_, -, h⟩ := bind_eq_ok.1 h
  obtain ⟨-, h⟩ := guard_bind_eq_ok.1 h
  obtain ⟨r, hr, h⟩ := bind_eq_ok.1 h
  obtain ⟨_, -, h⟩ := bind_eq_ok.1 h
  obtain ⟨d, hd, h⟩ := bind_eq_ok.1 h
  obtain ⟨_, -, h⟩ := bind_eq_ok.1 h
  obtain ⟨_, -, h⟩ := bind_eq_ok.1 h
  obtain ⟨-, h⟩ := guard_bind_eq_ok.1 h
  obtain ⟨use, huse, h⟩ := bind_eq_ok.1 h
  obtain ⟨reward, -, h⟩ := bind_eq_ok.1 h
  obtain ⟨total, hx, h⟩ := bind_eq_ok.1 h
  obtain ⟨htotal, rfl⟩ := addWeight_eq_ok.1 hx
  obtain ⟨reviewWeight, hx, h⟩ := bind_eq_ok.1 h
  obtain ⟨hweight, rfl⟩ := addWeight_eq_ok.1 hx
  obtain ⟨growth, -, h⟩ := bind_eq_ok.1 h
  obtain ⟨curation, hx, h⟩ := bind_eq_ok.1 h
  obtain ⟨hcuration, rfl⟩ := addWeight_eq_ok.1 hx
  cases h
  have hr := hs.reviews _ _ (State.review_eq_ok.1 hr)
  have hd := hs.disciplines _ _ (State.discipline_eq_ok.1 hd)
  obtain ⟨hu, hp⟩ := ExpertToken.use_ok hc huse
  exact {
    vote := ⟨hd.1, hr.1, votePercent_inRange hp, (Nat.le_add_left _ _).trans hcuration,
      hu.used.trans (by decide), hu.tokens, ht⟩
    remainingPower := hu.remaining
    discipline := { hd.2 with activeReviewWeight := htotal }
    review := { hr.2 with
      rewardWeights := hr.2.rewardWeights.insert ⟨hd.1, hweight⟩
      curationWeights := hr.2.curationWeights.insert ⟨hd.1, hcuration⟩
      weightModifiers := hr.2.weightModifiers.insert
        ⟨hd.1, (reviewModifier_le _ _).trans (by decide)⟩ } }

theorem Plan.InRange.stored (hp : plan.InRange) (hs : s.Stored) (ht : now ≤ maxWord) :
    (plan.commit now s).Stored := by
  have hs := hs.spendPower (n := plan.vote.voter) (d := plan.vote.discipline) hp.remainingPower ht
  have hvotes : (s.reviewVotes.getD (plan.vote.review, plan.vote.discipline) ∅).All
      fun _ v => v.InRange :=
    (hs.reviewVotes.getD_of ⟨hp.vote.review, hp.vote.discipline, .empty⟩).2.2
  exact { hs with
    disciplines := hs.disciplines.insert ⟨hp.discipline.id, hp.discipline⟩
    reviews := hs.reviews.insert ⟨hp.review.id, hp.review⟩
    reviewVotes := hs.reviewVotes.insert ⟨hp.vote.review, hp.vote.discipline, hvotes.insert hp.vote⟩ }

end VoteForReview

namespace MakeReview

variable {op : MakeReview} {plan : Plan}

theorem planVotes_inRange {active : Nat} {ds : List DisciplineId}
    {votes : List (ContentVotePlan × Amount)} (hs : s.Stored) (hc : s.config.validate = .ok ())
    (ht : now ≤ maxWord) (h : op.planVotes s now active ds = .ok votes) :
    ∀ v ∈ votes, v.1.InRange ∧ v.2.Fits := by
  intro v hv
  obtain ⟨d, token, use, active, htoken, huse, hamount, hp⟩ := planVotes_mem h v hv
  obtain ⟨ts, hts, ht'⟩ := Option.bind_eq_some_iff.1 (State.found_eq_ok.1 htoken)
  obtain ⟨hu, hw⟩ := ExpertToken.use_ok hc huse
  refine ⟨hs.planContentVote ht hu hw hp, ?_⟩
  rw [hamount]
  exact (hs.expertTokens _ _ hts _ _ ht').2.amount

theorem plan_inRange (hs : l.state.Stored) (hc : l.state.config.validate = .ok ())
    (ht : l.head.time ≤ maxWord) (hid : l.state.nextIds.review ≤ maxWord)
    (h : op.plan l.head l.state = .ok plan) :
    plan.review.InRange ∧ ∀ p ∈ plan.votes, p.InRange := by
  obtain ⟨c, r, votes, -, hcontent, hr, hreferences, hreview, hplan, hv⟩ := plan_admits h
  have hr := (hs.researches _ _ hr).2
  have hds : (SortedSet.ofKeys (op.reviewDisciplines l.state r)).All fun d _ => d ≤ maxWord := by
    refine SortedMap.All.ofList fun e he => ?_
    obtain ⟨d, hd, rfl⟩ := List.mem_map.1 he
    obtain ⟨u, hu⟩ := contains_iff.1 (List.mem_filter.1 hd).2
    exact hr.disciplines d u hu
  have hvotes : ∀ v ∈ votes, v.1.InRange ∧ v.2.Fits := by
    rcases hv with rfl | hv
    · exact fun v hv => absurd hv List.not_mem_nil
    · exact planVotes_inRange hs hc ht hv
  rw [hreview, hplan]
  constructor
  · exact {
      id := hid
      content := (hs.contents _ _ hcontent).1
      disciplines := hds
      references := fun x hx => by
        obtain ⟨c, hc⟩ := contains_iff.1 (hreferences x hx)
        exact (hs.contents x c hc).1
      created := ht
      rewardWeights := hds.mapValues fun _ _ h => ⟨h, Nat.zero_le _⟩
      curationWeights := hds.mapValues fun _ _ h => ⟨h, Nat.zero_le _⟩
      weightModifiers := hds.mapValues fun _ _ h => ⟨h, by decide⟩
      expertiseUsed := .ofList fun e he => by
        obtain ⟨v, hv, rfl⟩ := List.mem_map.1 he
        exact ⟨(hvotes v hv).1.vote.discipline, (hvotes v hv).2⟩ }
  · intro p hp
    obtain ⟨v, hv, rfl⟩ := List.mem_map.1 hp
    exact (hvotes v hv).1

theorem Plan.stored (hr : plan.review.InRange) (hv : ∀ p ∈ plan.votes, p.InRange)
    (hs : l.state.Stored) (ht : l.head.time ≤ maxWord) : (plan.commit l).state.Stored := by
  have hrecord : (plan.record l).state.Stored := { hs with
    reviews := hs.reviews.insert ⟨hr.id, hr⟩
    reviewsByContent := hs.reviewsByContent.insert ⟨hr.content, hr.id⟩ }
  suffices ∀ ps : List ContentVotePlan, (∀ p ∈ ps, p.InRange) → ∀ l : Ledger, l.state.Stored →
      l.head.time ≤ maxWord → (ps.foldl (fun l v => v.commit l) l).state.Stored from
    this _ hv _ hrecord ht
  intro ps hps
  induction ps with
  | nil => exact fun _ hs _ => hs
  | cons p ps ih =>
    rw [List.forall_mem_cons] at hps
    exact fun l hs ht => ih hps.2 (p.commit l) (hps.1.stored hs ht) ht

end MakeReview

end ResearchLedger
