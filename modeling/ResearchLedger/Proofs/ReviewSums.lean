import ResearchLedger.Proofs.Apportionment
import ResearchLedger.Proofs.Disciplines
import ResearchLedger.Proofs.Integrity

/-! The weights of a review are the sums over the votes on it, and the weight of all reviews of a
discipline is the sum over the reviews. -/
namespace ResearchLedger

open SortedMap

variable {s s' : State} {l l' : Ledger} {op : Operation} {config : Config} {genesis : Genesis}
  {r : Review} {x : Discipline} {reward : Nat}

/-- The weight that the tokens of a vote on a review have in rewards. -/
def ReviewVote.rewardWeight (v : ReviewVote) : Nat :=
  match Curve.power1Dot5.eval v.tokens with
  | .ok reward => reward
  | .error _ => 0

theorem ReviewVote.rewardWeight_eq {v : ReviewVote}
    (h : Curve.power1Dot5.eval v.tokens = .ok reward) : v.rewardWeight = reward := by
  rw [rewardWeight, h]

/-- The weight of a review in a discipline. -/
def Review.weightIn (r : Review) (d : DisciplineId) : Nat := r.rewardWeights.getD d 0

theorem wholePercent_le_reviewModifier (weight total : Nat) :
    wholePercent ≤ reviewModifier weight total := by
  unfold reviewModifier
  split
  · exact le_rfl
  · exact Nat.le_add_right ..

theorem reviewModifier_zero (total : Nat) : reviewModifier 0 total = wholePercent := by
  unfold reviewModifier
  split <;> simp

/-- While the weight of a review stays, its modifier falls as the total rises of which it is a part. -/
theorem reviewModifier_antitone {weight total total' : Nat} (hw : weight ≤ total)
    (h : total ≤ total') : reviewModifier weight total' ≤ reviewModifier weight total := by
  by_cases h₀ : total = 0
  · obtain rfl : weight = 0 := by omega
    rw [reviewModifier_zero, reviewModifier_zero]
  · have hdiv : weight * wholePercent / total' ≤ weight * wholePercent / total :=
      Nat.div_le_div_left h (Nat.pos_of_ne_zero h₀)
    have hmin : Nat.min (weight * wholePercent / total') wholePercent ≤
        Nat.min (weight * wholePercent / total) wholePercent := min_le_min_right _ hdiv
    rw [reviewModifier, reviewModifier, if_neg h₀, if_neg (by omega)]
    exact Nat.add_le_add_left hmin _

namespace State

/-- The votes on a review in a discipline. -/
def reviewVotesOn (s : State) (k : ReviewId × DisciplineId) : SortedMap AccountName ReviewVote :=
  s.reviewVotes.getD k ∅

/-- A modifier that was given to a review in a discipline is at least a whole, and not below what it
would be now. -/
def Modifies (s : State) (r : Review) (d : DisciplineId) (m : Nat) : Prop :=
  wholePercent ≤ m ∧
    ∀ x, s.disciplines.get? d = some x → reviewModifier (r.weightIn d) x.activeReviewWeight ≤ m

/-- The weights of reviews and of the reviews of disciplines are sums, and a modifier that is stored is
at most out of date. -/
structure ReviewsSummed (s : State) : Prop where
  votes : s.reviewVotes.All fun _ vs =>
    vs.All fun _ v => Curve.power1Dot5.eval v.tokens = .ok v.rewardWeight
  reviews : s.reviews.All fun id r => ∀ d,
    r.weightIn d = (s.reviewVotesOn (id, d)).sumOf fun _ v => v.rewardWeight
  disciplines : s.disciplines.All fun d x =>
    x.activeReviewWeight = s.reviews.sumOf fun _ r => r.weightIn d
  modifiers : s.reviews.All fun _ r => r.weightModifiers.All (s.Modifies r)

namespace ReviewsSummed

/-- Only reviews, the votes on them and their weights in the disciplines matter. -/
theorem congr (h : s.ReviewsSummed) (hr : s'.reviews = s.reviews)
    (hv : s'.reviewVotes = s.reviewVotes)
    (hd : KeepsDisciplines Discipline.activeReviewWeight s s') : s'.ReviewsSummed := by
  have hback : ∀ d x', s'.disciplines.get? d = some x' →
      ∃ x, s.disciplines.get? d = some x ∧ x.activeReviewWeight = x'.activeReviewWeight := by
    intro d x' hx'
    have hsame := hd d
    rw [hx', Option.map_some] at hsame
    exact Option.map_eq_some_iff.1 hsame.symm
  constructor
  · rw [hv]
    exact h.votes
  · unfold reviewVotesOn
    rw [hr, hv]
    exact h.reviews
  · intro d x' hx'
    obtain ⟨x, hx, hsame⟩ := hback d x' hx'
    rw [hr, ← hsame]
    exact h.disciplines d x hx
  · intro id r hget d m hm
    rw [hr] at hget
    obtain ⟨hle, hnow⟩ := h.modifiers id r hget d m hm
    refine ⟨hle, fun x' hx' => ?_⟩
    obtain ⟨x, hx, hsame⟩ := hback d x' hx'
    rw [← hsame]
    exact hnow x hx

/-- A review is a part of what all reviews weigh. -/
theorem weightIn_le (h : s.ReviewsSummed) {id : ReviewId} {d : DisciplineId}
    (hr : s.reviews.get? id = some r) (hx : s.disciplines.get? d = some x) :
    r.weightIn d ≤ x.activeReviewWeight := by
  rw [h.disciplines d x hx]
  exact le_sumOf (f := fun _ (r : Review) => r.weightIn d) (fun _ _ _ => Nat.zero_le _) hr

end ReviewsSummed

end State

namespace VoteForReview.Plan.Casts

variable {op : VoteForReview} {plan : Plan} {now : Seconds}

theorem weightIn_revised (h : plan.Casts op s r x reward) (d : DisciplineId) :
    plan.review.weightIn d = r.weightIn d + if op.discipline = d then reward else 0 := by
  unfold Review.weightIn
  rw [h.revised]
  dsimp only
  split
  · subst d
    rw [getD_insert_self]
  · rw [getD_insert_of_ne ‹_›, Nat.add_zero]

theorem reviewVotesOn_commit (h : plan.Casts op s r x reward) (k : ReviewId × DisciplineId) :
    (plan.commit now s).reviewVotesOn k = if (op.review, op.discipline) = k then
      (s.reviewVotesOn k).insert op.voter plan.vote else s.reviewVotesOn k := by
  rw [State.reviewVotesOn, h.reviewVotes_commit]
  split
  · subst k
    rw [getD_insert_self]
    rfl
  · rw [getD_insert_of_ne ‹_›]
    rfl

/-- The review of the vote gets the modifier that it has now; the other reviews of the discipline have
become smaller parts of it. -/
theorem modifiers_commit (h : plan.Casts op s r x reward) (hs : s.Linked) (hl : s.ReviewsSummed) :
    (plan.commit now s).reviews.All fun _ r =>
      r.weightModifiers.All ((plan.commit now s).Modifies r) := by
  intro id r' hr' d m hm
  rw [h.reviews_commit hs, get?_insert] at hr'
  unfold State.Modifies
  rw [h.disciplines_commit hs]
  by_cases hd : op.discipline = d
  · subst d
    rw [get?_insert_self]
    split at hr'
    · obtain rfl := Option.some.inj hr'
      rw [h.revised, get?_insert_self] at hm
      obtain rfl := Option.some.inj hm
      refine ⟨wholePercent_le_reviewModifier .., fun x' hx' => ?_⟩
      obtain rfl := Option.some.inj hx'
      rw [h.weightIn_revised, if_pos rfl, h.raised]
      exact le_rfl
    · obtain ⟨hle, hnow⟩ := hl.modifiers id r' hr' _ m hm
      refine ⟨hle, fun x' hx' => ?_⟩
      obtain rfl := Option.some.inj hx'
      have hpart : r'.weightIn op.discipline ≤ x.activeReviewWeight :=
        hl.weightIn_le hr' h.discipline
      rw [h.raised]
      exact (reviewModifier_antitone hpart (Nat.le_add_right ..)).trans (hnow x h.discipline)
  · rw [get?_insert_of_ne hd]
    split at hr'
    · obtain rfl := Option.some.inj hr'
      rw [h.weightIn_revised, if_neg hd]
      rw [h.revised, get?_insert_of_ne hd] at hm
      exact hl.modifiers _ r h.review d m hm
    · exact hl.modifiers id r' hr' d m hm

/-- A vote on a review brings its reward weight to the votes, to the review and to the discipline. -/
theorem reviewsSummed (h : plan.Casts op s r x reward) (hs : s.Linked) (hl : s.ReviewsSummed) :
    (plan.commit now s).ReviewsSummed := by
  have hvote : plan.vote.rewardWeight = reward := plan.vote.rewardWeight_eq h.curve
  refine ⟨?_, ?_, ?_, h.modifiers_commit hs hl⟩
  · rw [h.reviewVotes_commit]
    refine hl.votes.insert (All.insert hl.votes.getD ?_)
    rw [hvote]
    exact h.curve
  · intro id r' hr' d
    rw [h.reviews_commit hs, get?_insert] at hr'
    rw [h.reviewVotesOn_commit]
    by_cases hid : op.review = id
    · subst id
      rw [if_pos rfl] at hr'
      obtain rfl := Option.some.inj hr'
      have hfresh : (s.reviewVotesOn (op.review, op.discipline)).get? op.voter = none := h.fresh
      rw [h.weightIn_revised, hl.reviews _ r h.review d]
      by_cases hd : op.discipline = d
      · subst d
        rw [if_pos rfl, if_pos rfl, sumOf_insert_new hfresh, hvote, Nat.add_comm]
      · rw [if_neg hd, if_neg fun he => hd (Prod.mk.inj he).2, Nat.add_zero]
    · rw [if_neg hid] at hr'
      rw [if_neg fun he => hid (Prod.mk.inj he).1]
      exact hl.reviews id r' hr' d
  · intro d x' hx'
    have hsum := sumOf_insert_old (v := plan.review) (f := fun _ (r : Review) => r.weightIn d) h.review
    rw [h.weightIn_revised] at hsum
    rw [h.disciplines_commit hs, get?_insert] at hx'
    rw [h.reviews_commit hs]
    split at hx'
    · subst d
      obtain rfl := Option.some.inj hx'
      have hold := hl.disciplines _ x h.discipline
      rw [if_pos rfl] at hsum
      rw [h.raised]
      dsimp only
      omega
    · have hold := hl.disciplines d x' hx'
      rw [if_neg ‹_›] at hsum
      omega

end VoteForReview.Plan.Casts

/-- A new review weighs nothing, and its modifiers are wholes. -/
theorem MakeReview.record_reviewsSummed {op : MakeReview} {plan : MakeReview.Plan}
    (hs : l.state.Linked) (hl : l.state.ReviewsSummed) (h : op.plan l.head l.state = .ok plan) :
    (plan.record l).state.ReviewsSummed := by
  obtain ⟨⟨ds, used, hr⟩, -⟩ := MakeReview.plan_ok hs.disciplines h
  have hid : plan.review.id = l.state.nextIds.review := by rw [hr]; rfl
  have hnew : l.state.reviews.get? plan.review.id = none := by rw [hid]; exact hs.review_none
  have hweight : ∀ d, plan.review.weightIn d = 0 := by
    intro d
    unfold Review.weightIn
    rw [hr, MakeReview.review, getD_eq, get?_mapValues]
    cases ds.get? d <;> rfl
  have hreviews : (plan.record l).state.reviews =
    l.state.reviews.insert plan.review.id plan.review := rfl
  refine {
    votes := hl.votes
    reviews := hl.reviews.insert fun d => ?_
    disciplines := ?_
    modifiers := hl.modifiers.insert ?_ }
  · have hnone : l.state.reviewVotes.get? (plan.review.id, d) = none := by
      refine hs.reviewVotes.get?_eq_none fun _ hv => ?_
      have := hv.1
      simp [contains, hnew] at this
    have hvotes : l.state.reviewVotesOn (plan.review.id, d) = ∅ := by
      rw [State.reviewVotesOn, getD_eq, hnone, Option.getD_none]
    rw [hweight]
    exact (congrArg (sumOf _) hvotes).symm
  · intro d x hx
    rw [hreviews, sumOf_insert_new hnew, hweight, Nat.zero_add]
    exact hl.disciplines d x hx
  · intro d m hm
    rw [hr, MakeReview.review, get?_mapValues] at hm
    obtain ⟨_, -, rfl⟩ := Option.map_eq_some_iff.1 hm
    refine ⟨le_rfl, fun x _ => ?_⟩
    rw [hweight, reviewModifier_zero]

theorem Operation.Effect.reviewsSummed (h : op.Effect l l') (hs : l.state.Linked)
    (hl : l.state.ReviewsSummed) : l'.state.ReviewsSummed := by
  cases op with
  | voteForContent =>
    have hd := KeepsDisciplines.of_effect (f := Discipline.activeReviewWeight) h hs (by simp)
      fun _ _ _ _ => rfl
    cases h
    exact hl.congr rfl rfl hd
  | makeReview =>
    cases h with | @makeReview _ plan hp =>
    have hcast := (MakeReview.plan_ok hs.disciplines hp).2.2.2
    have hrecord := MakeReview.record_reviewsSummed hs hl hp
    have hd := KeepsDisciplines.castsAll (f := Discipline.activeReviewWeight) hcast
      (MakeReview.record_linked hs hp) fun _ _ _ _ => rfl
    obtain ⟨_, _, _, _, _, he⟩ := ContentVotePlan.foldl_commit plan.votes (plan.record l)
    exact hrecord.congr (congrArg (fun l => l.state.reviews) he)
      (congrArg (fun l => l.state.reviewVotes) he) hd
  | voteForReview =>
    cases h with | voteForReview hp =>
    obtain ⟨r, x, reward, hcast⟩ := VoteForReview.plan_casts hp
    exact hcast.reviewsSummed hs hl
  | _ => cases h.footprint; exact hl.congr rfl rfl (.of_eq rfl)

theorem Upkeep.reviewsSummed (h : Upkeep l l') (hl : l.state.ReviewsSummed) :
    l'.state.ReviewsSummed := by
  have hd := KeepsDisciplines.of_upkeep (f := Discipline.activeReviewWeight) h fun _ _ => rfl
  cases h.footprint with
  | deactivation content =>
    obtain ⟨_, _, _, _, he⟩ := l.deactivate_footprint content
    refine hl.congr ?_ ?_ hd
    · rw [he]
    · rw [he]
  | rest => exact hl.congr rfl rfl hd

theorem Change.reviewsSummed (h : Change l l') (hs : l.state.Linked) (hl : l.state.ReviewsSummed) :
    l'.state.ReviewsSummed := by
  cases h with
  | operation h => exact h.reviewsSummed hs hl
  | @reward _ plan =>
    obtain ⟨_, _, _, he⟩ := State.applyReward_footprint l.state l.head.time plan
    rw [he]
    exact hl.congr rfl rfl (.of_eq rfl)
  | payment h =>
    obtain ⟨_, _, _, rfl⟩ := LedgerM.payPowerDown_footprint h
    exact hl.congr rfl rfl (.of_eq rfl)
  | upkeep h => exact h.reviewsSummed hl

theorem State.ReviewsSummed.ofGenesis (h : ofGenesis config genesis = .ok s) : s.ReviewsSummed := by
  obtain ⟨hr, hv, hd⟩ : s.reviews = ∅ ∧ s.reviewVotes = ∅ ∧
      s.disciplines.All fun _ x => x.activeReviewWeight = 0 := by
    refine ofGenesis_invariant (P := fun s => s.reviews = ∅ ∧ s.reviewVotes = ∅ ∧
      s.disciplines.All fun _ x => x.activeReviewWeight = 0) h (fun _ => ?_) fun s s' hc hs => ?_
    · exact ⟨rfl, rfl, .insert .empty rfl⟩
    cases hc with
    | discipline => exact ⟨hs.1, hs.2.1, hs.2.2.insert rfl⟩
    | account => exact hs
    | witness => exact hs
  constructor
  · rw [hv]
    exact .empty
  · rw [hr]
    exact .empty
  · rw [hr]
    exact hd
  · rw [hr]
    exact .empty

namespace Ledger

theorem Reachable.reviewsSummed (h : l.Reachable config genesis) : l.state.ReviewsSummed :=
  (h.invariant (P := fun l => l.state.Linked ∧ l.state.ReviewsSummed)
    (fun _ h₀ => ⟨.ofGenesis (ofGenesis_ok h₀).1, .ofGenesis (ofGenesis_ok h₀).1⟩)
    fun _ _ hc hl => ⟨hc.linked hl.1, hc.reviewsSummed hl.1 hl.2⟩).2

/-- In every reachable ledger the weights of a review in a discipline are the sums over the votes that
are stored for it there: of the reward weights of their tokens, and of their own weights. The weight of
the reviews of a discipline is the sum of what each review weighs there. A modifier that is stored
belongs to a discipline that exists, lies between one and two wholes, and is not below what the present
weights would give. -/
theorem Reachable.review_sums_exact (h : l.Reachable config genesis) :
    (∀ id r, l.state.reviews.get? id = some r → ∀ d,
      r.weightIn d = ((l.state.reviewVotesOn (id, d)).sumOf fun _ v => v.rewardWeight) ∧
      r.curationWeights.getD d 0 = ((l.state.reviewVotesOn (id, d)).sumOf fun _ v => v.weight) ∧
      (∀ voter v, (l.state.reviewVotesOn (id, d)).get? voter = some v →
        v.review = id ∧ v.discipline = d ∧ v.voter = voter ∧
          Curve.power1Dot5.eval v.tokens = .ok v.rewardWeight) ∧
      ∀ m, r.weightModifiers.get? d = some m →
        wholePercent ≤ m ∧ m ≤ 2 * wholePercent ∧
          ∃ x, l.state.disciplines.get? d = some x ∧
            reviewModifier (r.weightIn d) x.activeReviewWeight ≤ m) ∧
    ∀ d x, l.state.disciplines.get? d = some x →
      x.activeReviewWeight = l.state.reviews.sumOf fun _ r => r.weightIn d := by
  have hsummed := h.reviewsSummed
  have hplaced := h.placed
  refine ⟨fun id r hr d => ⟨hsummed.reviews id r hr d, ?_, fun voter v hv => ?_, fun m hm => ?_⟩,
    hsummed.disciplines⟩
  · exact (h.apportioned.reviewVoters id r hr d).2
  · have hplace : (l.state.reviewVotesOn (id, d)).All (ReviewVote.Placed _ (id, d)) :=
      (hplaced.reviewVotes.mono fun _ _ hvs => hvs.2.2).getD
    obtain ⟨hreview, hdiscipline, hvoter, -⟩ := hplace voter v hv
    have hcurve : (l.state.reviewVotesOn (id, d)).All fun _ v =>
      Curve.power1Dot5.eval v.tokens = .ok v.rewardWeight := hsummed.votes.getD
    exact ⟨hreview, hdiscipline, hvoter, hcurve voter v hv⟩
  · obtain ⟨hle, hnow⟩ := hsummed.modifiers id r hr d m hm
    have hbound := (h.apportioned.reviewVoters id r hr d).1.modifier_le
    rw [getD_eq, hm, Option.getD_some] at hbound
    obtain ⟨x, hx⟩ := contains_iff.1 ((hplaced.reviews id r hr).2.weightModifiers d m hm)
    exact ⟨hle, hbound, x, hx, hnow x hx⟩

end Ledger

namespace Sample

/-- Carol reviews the content as well, and each of the two reviewers votes for the review of the other. -/
def appraise : List Step :=
  review ++ [.operation (.makeReview ⟨carol, 0, "Unsound", false, [], []⟩),
    .operation (.voteForReview ⟨carol, 0, 5000, 0⟩), .endBlock 60,
    .operation (.voteForReview ⟨bob, 0, 10000, 1⟩)]

def appraised : Ledger := (founded 1 300 20).after appraise

/-- Bob's review was all that was voted for in the discipline when its modifier was given, and keeps two
wholes though the other one outweighs it since. -/
theorem appraised_review_sums :
    (appraised.state.reviews.get? 0).map (fun r => (r.weightIn 0, r.weightModifiers.get? 0)) =
      some (31, some 20000) ∧
    (appraised.state.reviews.get? 1).map (fun r => (r.weightIn 0, r.weightModifiers.get? 0)) =
      some (4436, some 19930) ∧
    (appraised.state.disciplines.get? 0).map (·.activeReviewWeight) = some 4467 ∧
    reviewModifier 31 4467 = 10069 ∧
    (∀ r, appraised.state.reviews.get? 1 = some r →
      r.weightIn 0 = (appraised.state.reviewVotesOn (1, 0)).sumOf fun _ v => v.rewardWeight) ∧
    ∀ x, appraised.state.disciplines.get? 0 = some x →
      x.activeReviewWeight = appraised.state.reviews.sumOf fun _ r => r.weightIn 0 :=
  have h := @Ledger.Reachable.review_sums_exact appraised {} (founders 1 300 20)
    ⟨founded 1 300 20, appraise, rfl, by decide, rfl⟩
  ⟨by decide +kernel, by decide +kernel, by decide +kernel, by decide,
    fun r hr => (h.1 1 r hr 0).1, fun x hx => h.2 0 x hx⟩

end Sample

end ResearchLedger
