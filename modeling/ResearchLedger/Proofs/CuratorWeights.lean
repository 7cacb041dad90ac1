import ResearchLedger.Proofs.ReviewSums
import ResearchLedger.Proofs.Safeguards
import ResearchLedger.Proofs.VotePlans
import ResearchLedger.Proofs.VoteSums

/-! What curators earn telescopes: each vote earns at most what it adds to the curve over a running
total, so all of them earn at most the curve at the last total, and all of it if none came early. -/
namespace ResearchLedger

open SortedMap

variable {s s' : State} {l l' : Ledger} {op : Operation} {config : Config} {genesis : Genesis}
  {r : Review} {x : Discipline} {reward : Nat}

section Curves

variable {total total' earned growth elapsed window : Nat} {timely timely' : Prop}

theorem decayedWeight_le (weight elapsed window : Nat) :
    decayedWeight weight elapsed window ≤ weight := by
  unfold decayedWeight
  split
  · exact le_rfl
  · refine Nat.div_le_of_le_mul ?_
    rw [Nat.mul_comm window]
    exact Nat.mul_le_mul_left _ (Nat.min_le_right ..)

/-- Once the window is over nothing is taken off. -/
theorem decayedWeight_eq {weight : Nat} (h : window ≤ elapsed) :
    decayedWeight weight elapsed window = weight := by
  unfold decayedWeight
  split
  · rfl
  · rw [show Nat.min elapsed window = window from Nat.min_eq_right h]
    exact Nat.mul_div_cancel _ (Nat.pos_of_ne_zero ‹_›)

namespace Curve

theorem delta_ok {curve : Curve} {old new : Nat} (h : curve.delta old new = .ok growth) :
    ∃ before, curve.eval old = .ok before ∧ curve.eval new = .ok (before + growth) := by
  obtain ⟨before, hbefore, h⟩ := bind_eq_ok.1 h
  obtain ⟨after, hafter, h⟩ := bind_eq_ok.1 h
  obtain ⟨hle, rfl⟩ := guard_eq_ok.1 h
  exact ⟨before, hbefore, by rw [hafter, Nat.add_sub_cancel' (Nat.not_lt.1 hle)]⟩

/-- What was earned over a running total is at most the curve at it, and all of it if every vote was in
time. -/
def Telescopes (total earned : Nat) (timely : Prop) : Prop :=
  ∃ w, power1Dot5.eval total = .ok w ∧ earned ≤ w ∧ (timely → earned = w)

namespace Telescopes

theorem zero : Telescopes 0 0 timely := ⟨0, rfl, le_rfl, fun _ => rfl⟩

theorem mono (h : Telescopes total earned timely) (ht : timely' → timely) :
    Telescopes total earned timely' := by
  obtain ⟨w, hw, hle, heq⟩ := h
  exact ⟨w, hw, hle, fun h => heq (ht h)⟩

/-- The next vote starts from the total that the last one left. -/
theorem raise (h : Telescopes total earned timely) (hg : power1Dot5.delta total total' = .ok growth)
    (ht : timely' → timely ∧ window ≤ elapsed) :
    Telescopes total' (earned + decayedWeight growth elapsed window) timely' := by
  obtain ⟨w, hw, hle, heq⟩ := h
  obtain ⟨before, hbefore, hafter⟩ := delta_ok hg
  obtain rfl := Except.ok.inj (hbefore.symm.trans hw)
  refine ⟨_, hafter, Nat.add_le_add hle (decayedWeight_le ..), fun h => ?_⟩
  rw [heq (ht h).1, decayedWeight_eq (ht h).2]

end Telescopes

end Curve

end Curves

namespace State

/-- What the curators of all reviews have earned in a discipline. -/
def curationIn (s : State) (d : DisciplineId) : Nat :=
  s.reviews.sumOf fun _ r => r.curationWeights.getD d 0

/-- No vote on a content in a discipline came before the content was as old as the window. -/
def VotesTimely (s : State) (k : ContentId × DisciplineId) : Prop :=
  ∀ c, s.contents.get? k.1 = some c →
    (s.votesOn k).All fun _ v => c.created + s.config.reverseAuctionWindow ≤ v.time

/-- No vote on a review in a discipline came before the review was as old as the window. -/
def ReviewVotesTimely (s : State) (d : DisciplineId) : Prop :=
  s.reviews.All fun id r =>
    (s.reviewVotesOn (id, d)).All fun _ v => r.created + s.config.reverseAuctionWindow ≤ v.time

/-- The curators of contents have earned what telescopes. -/
def ContentsTelescope (s : State) : Prop :=
  s.voteTotals.All fun k t => Curve.Telescopes t.weight t.curatorsWeight (s.VotesTimely k)

/-- The curators of the reviews of each discipline have earned what telescopes. -/
def ReviewsTelescope (s : State) : Prop :=
  s.disciplines.All fun d x =>
    Curve.Telescopes x.activeReviewWeight (s.curationIn d) (s.ReviewVotesTimely d)

/-- Contents stay, and were made when they were made. -/
def KeepsCreation (s s' : State) : Prop :=
  s.contents.All fun id c => ∃ c', s'.contents.get? id = some c' ∧ c'.created = c.created

theorem KeepsCreation.of_eq (h : s'.contents = s.contents) : s.KeepsCreation s' :=
  fun _ c hc => ⟨c, h ▸ hc, rfl⟩

theorem VotesTimely.before {k : ContentId × DisciplineId} (h : s'.VotesTimely k)
    (hk : s.KeepsCreation s') (hc : s'.config = s.config)
    (hv : ∀ voter v, (s.votesOn k).get? voter = some v → (s'.votesOn k).get? voter = some v) :
    s.VotesTimely k := by
  intro c hcontent voter v hvote
  obtain ⟨c', hc', hcreated⟩ := hk _ c hcontent
  rw [← hcreated, ← hc]
  exact h c' hc' voter v (hv voter v hvote)

theorem ContentsTelescope.congr (h : s.ContentsTelescope) (hk : s.KeepsCreation s')
    (hc : s'.config = s.config) (hv : s'.votes = s.votes) (ht : s'.voteTotals = s.voteTotals) :
    s'.ContentsTelescope := by
  intro k t hget
  rw [ht] at hget
  refine (h k t hget).mono fun hlate => hlate.before hk hc fun voter v hvote => ?_
  rwa [votesOn, hv]

theorem ReviewsTelescope.congr (h : s.ReviewsTelescope) (hc : s'.config = s.config)
    (hr : s'.reviews = s.reviews) (hv : s'.reviewVotes = s.reviewVotes)
    (hd : KeepsDisciplines Discipline.activeReviewWeight s s') : s'.ReviewsTelescope := by
  intro d x' hx'
  have hsame := hd d
  rw [hx', Option.map_some] at hsame
  obtain ⟨x, hx, hweight⟩ := Option.map_eq_some_iff.1 hsame.symm
  have hold := h d x hx
  unfold curationIn ReviewVotesTimely reviewVotesOn at hold ⊢
  rwa [← hweight, hr, hv, hc]

end State

/-- The totals before the next vote telescope, those before the first included. -/
theorem State.ContentsTelescope.totalsBefore (h : s.ContentsTelescope) (c : Content)
    (k : ContentId × DisciplineId) : Curve.Telescopes (s.totalsBefore c k).weight
      (s.totalsBefore c k).curatorsWeight (s.VotesTimely k) := by
  unfold State.totalsBefore
  cases hget : s.voteTotals.get? k with
  | none => exact .zero
  | some t => exact h k t hget

namespace ContentVotePlan

variable {p : ContentVotePlan} {c : Content} {d : Discipline}

/-- If no vote was early after a vote, none was before it. -/
theorem Casts.votesTimely_before {k : ContentId × DisciplineId} (h : p.Casts l c d reward)
    (hlate : (p.commit l).state.VotesTimely k) : l.state.VotesTimely k := by
  refine hlate.before (.of_eq rfl) rfl fun voter v hv => ?_
  rw [votesOn_commit]
  split
  · subst k
    have hne : p.vote.voter ≠ voter := by
      rintro rfl
      have hfresh : (l.state.votesOn p.key).get? p.vote.voter = none := h.fresh
      rw [hfresh] at hv
      cases hv
    rwa [get?_insert_of_ne hne]
  · exact hv

/-- A vote continues from the totals before it. -/
theorem Casts.contentsTelescope (h : p.Casts l c d reward) (he : p.Earns l.state)
    (hl : l.state.ContentsTelescope) : (p.commit l).state.ContentsTelescope := by
  intro k t ht
  rw [voteTotals_commit, get?_insert] at ht
  split at ht
  · cases ht
    subst k
    obtain ⟨c', growth, hc', hgrowth, hweight⟩ := he
    obtain rfl := Option.some.inj (hc'.symm.trans h.content)
    have hbefore : p.totals.weight - p.vote.tokens = (l.state.totalsBefore c' p.key).weight := by
      rw [h.totals]
      exact Nat.add_sub_cancel ..
    have hearned : p.totals.curatorsWeight =
        (l.state.totalsBefore c' p.key).curatorsWeight + p.vote.weight := by
      rw [h.totals]
      rfl
    rw [hearned, hweight]
    refine (hl.totalsBefore c' p.key).raise (hbefore ▸ hgrowth) fun hlate =>
      ⟨h.votesTimely_before hlate, Nat.le_sub_of_add_le' (hlate c' h.content p.vote.voter _ ?_)⟩
    rw [votesOn_commit, if_pos rfl, get?_insert_self]
  · exact (hl k t ht).mono h.votesTimely_before

theorem CastsAll.contentsTelescope {ps : List ContentVotePlan} (h : CastsAll ps l)
    (he : ∀ p ∈ ps, p.Earns l.state) (hl : l.state.ContentsTelescope) :
    (ps.foldl (fun l p => p.commit l) l).state.ContentsTelescope := by
  induction h with
  | nil => exact hl
  | cons h _ ih =>
    obtain ⟨hfirst, hrest⟩ := List.forall_mem_cons.1 he
    exact ih (fun p hp => (hrest p hp).congr rfl rfl) (h.contentsTelescope hfirst hl)

end ContentVotePlan

namespace VoteForReview.Plan.Casts

variable {op : VoteForReview} {plan : Plan} {now : Seconds}

/-- If no vote on a review was early after a vote, none was before it. -/
theorem reviewVotesTimely_before {d : DisciplineId} (h : plan.Casts op s r x reward) (hs : s.Linked)
    (hlate : (plan.commit now s).ReviewVotesTimely d) : s.ReviewVotesTimely d := by
  intro id r' hr' voter v hv
  have hvote : ((plan.commit now s).reviewVotesOn (id, d)).get? voter = some v := by
    rw [h.reviewVotesOn_commit]
    split
    · rename_i hk
      have hne : op.voter ≠ voter := by
        rintro rfl
        have hfresh : (s.reviewVotesOn (op.review, op.discipline)).get? op.voter = none := h.fresh
        rw [hk, hv] at hfresh
        cases hfresh
      rwa [get?_insert_of_ne hne]
    · exact hv
  by_cases hid : op.review = id
  · subst id
    obtain rfl := Option.some.inj (h.review.symm.trans hr')
    have hold := hlate op.review plan.review
      (by rw [h.reviews_commit hs, get?_insert_self]) voter v hvote
    rwa [h.revised] at hold
  · refine hlate id r' ?_ voter v hvote
    rwa [h.reviews_commit hs, get?_insert_of_ne hid]

theorem curationIn_commit (h : plan.Casts op s r x reward) (hs : s.Linked) (d : DisciplineId) :
    (plan.commit now s).curationIn d =
      s.curationIn d + if op.discipline = d then plan.vote.weight else 0 := by
  have hinsert := sumOf_insert_old (v := plan.review)
    (f := fun _ (r : Review) => r.curationWeights.getD d 0) h.review
  unfold State.curationIn
  rw [h.reviews_commit hs]
  rw [h.revised] at hinsert ⊢
  dsimp only at hinsert
  split
  · subst d
    rw [getD_insert_self] at hinsert
    omega
  · rw [getD_insert_of_ne ‹_›] at hinsert
    omega

/-- A vote on a review continues from the weight that all reviews of the discipline have before it. -/
theorem reviewsTelescope (h : plan.Casts op s r x reward) (he : plan.Earns s) (hs : s.Linked)
    (hl : s.ReviewsTelescope) : (plan.commit now s).ReviewsTelescope := by
  intro d x' hx'
  rw [h.disciplines_commit hs, get?_insert] at hx'
  rw [h.curationIn_commit hs]
  split at hx'
  · subst d
    obtain rfl := Option.some.inj hx'
    obtain ⟨r', y, growth, hr', hy, hgrowth, hweight⟩ := he
    rw [h.key.1, h.review] at hr'
    rw [h.key.2, h.discipline] at hy
    obtain rfl := Option.some.inj hr'
    obtain rfl := Option.some.inj hy
    rw [if_pos rfl, hweight]
    refine (hl _ x h.discipline).raise hgrowth fun hlate =>
      ⟨h.reviewVotesTimely_before hs hlate, ?_⟩
    have hnew := hlate op.review plan.review (by rw [h.reviews_commit hs, get?_insert_self]) op.voter
      plan.vote (by rw [h.reviewVotesOn_commit, if_pos rfl, get?_insert_self])
    rw [h.revised] at hnew
    exact Nat.le_sub_of_add_le' hnew
  · rw [if_neg ‹_›]
    exact (hl d x' hx').mono (h.reviewVotesTimely_before hs)

end VoteForReview.Plan.Casts

/-- A new review has no votes, and its curators have earned nothing. -/
theorem MakeReview.record_reviewsTelescope {op : MakeReview} {plan : MakeReview.Plan}
    (hs : l.state.Linked) (hl : l.state.ReviewsTelescope) (h : op.plan l.head l.state = .ok plan) :
    (plan.record l).state.ReviewsTelescope := by
  obtain ⟨⟨ds, used, hr⟩, -⟩ := MakeReview.plan_ok hs.disciplines h
  have hid : plan.review.id = l.state.nextIds.review := by rw [hr]; rfl
  have hnew : l.state.reviews.get? plan.review.id = none := by rw [hid]; exact hs.review_none
  have hreviews : (plan.record l).state.reviews =
    l.state.reviews.insert plan.review.id plan.review := rfl
  have hcuration : ∀ d, plan.review.curationWeights.getD d 0 = 0 := by
    intro d
    rw [hr, MakeReview.review, getD_eq, get?_mapValues]
    cases ds.get? d <;> rfl
  intro d x hx
  rw [State.curationIn, hreviews, sumOf_insert_new hnew, hcuration, Nat.zero_add]
  refine (hl d x hx).mono fun hlate id r hr => hlate id r ?_
  have hne : plan.review.id ≠ id := by
    rintro rfl
    rw [hnew] at hr
    cases hr
  rwa [hreviews, get?_insert_of_ne hne]

/-- A new content takes the place of none. -/
theorem CreateContent.keepsCreation (op : CreateContent) (now : Seconds) (hs : s.Linked) :
    s.KeepsCreation (op.commit now s) := by
  intro id c hc
  have hne : s.nextIds.content ≠ id := by
    rintro rfl
    rw [hs.content_none] at hc
    cases hc
  exact ⟨c, (get?_insert_of_ne hne).trans hc, rfl⟩

namespace Operation.Effect

theorem contentsTelescope (h : op.Effect l l') (hs : l.state.Linked)
    (hl : l.state.ContentsTelescope) : l'.state.ContentsTelescope := by
  cases op with
  | voteForContent op =>
    cases h with | voteForContent hp =>
    obtain ⟨c, d, reward, hcast, -⟩ := VoteForContent.plan_ok hp
    exact hcast.contentsTelescope (VoteForContent.plan_planned hp).1.earns hl
  | makeReview op =>
    cases h with | @makeReview _ plan hp =>
    have hearns := (MakeReview.plan_planned hp).1
    exact (MakeReview.plan_ok hs.disciplines hp).2.2.2.contentsTelescope (l := plan.record l)
      (fun p hmem => (hearns p hmem).earns.congr rfl rfl) (hl.congr (.of_eq rfl) rfl rfl rfl)
  | createContent op =>
    have hkeep : l.state.KeepsCreation l'.state := by
      cases h
      exact op.keepsCreation _ hs
    cases h.footprint
    exact hl.congr hkeep rfl rfl rfl
  | _ => cases h.footprint; exact hl.congr (.of_eq rfl) rfl rfl rfl

theorem reviewsTelescope (h : op.Effect l l') (hs : l.state.Linked)
    (hl : l.state.ReviewsTelescope) : l'.state.ReviewsTelescope := by
  cases op with
  | voteForContent =>
    have hd := KeepsDisciplines.of_effect (f := Discipline.activeReviewWeight) h hs (by simp)
      fun _ _ _ _ => rfl
    cases h
    exact hl.congr rfl rfl rfl hd
  | makeReview =>
    cases h with | @makeReview _ plan hp =>
    have hcast := (MakeReview.plan_ok hs.disciplines hp).2.2.2
    have hd := KeepsDisciplines.castsAll (f := Discipline.activeReviewWeight) hcast
      (MakeReview.record_linked hs hp) fun _ _ _ _ => rfl
    obtain ⟨_, _, _, _, _, he⟩ := ContentVotePlan.foldl_commit plan.votes (plan.record l)
    exact (MakeReview.record_reviewsTelescope hs hl hp).congr
      (congrArg (fun l => l.state.config) he) (congrArg (fun l => l.state.reviews) he)
      (congrArg (fun l => l.state.reviewVotes) he) hd
  | voteForReview =>
    cases h with | voteForReview hp =>
    obtain ⟨r, x, reward, hcast⟩ := VoteForReview.plan_casts hp
    exact hcast.reviewsTelescope (VoteForReview.plan_planned hp).2.2 hs hl
  | _ => cases h.footprint; exact hl.congr rfl rfl rfl (.of_eq rfl)

end Operation.Effect

namespace Upkeep

/-- A content that becomes inactive keeps its age, its votes and what they have earned. -/
theorem contentsTelescope (h : Upkeep l l') (hl : l.state.ContentsTelescope) :
    l'.state.ContentsTelescope := by
  cases h.footprint with
  | deactivation content =>
    have hkeep : l.state.KeepsCreation (l.deactivate content).state := by
      intro id c hc
      rw [Ledger.contents_deactivate, get?_modify, hc]
      split
      · exact ⟨_, rfl, rfl⟩
      · exact ⟨c, rfl, rfl⟩
    obtain ⟨_, _, _, _, he⟩ := l.deactivate_footprint content
    have hv : (l.deactivate content).state.votes = l.state.votes := by rw [he]
    have hc : (l.deactivate content).state.config = l.state.config := by rw [he]
    intro k t ht
    have hold : ∃ t₀, l.state.voteTotals.get? k = some t₀ ∧ t₀.weight = t.weight ∧
        t₀.curatorsWeight = t.curatorsWeight := by
      rw [Ledger.get?_voteTotals_deactivate] at ht
      split at ht
      · obtain ⟨t₀, ht₀, rfl⟩ := Option.map_eq_some_iff.1 ht
        exact ⟨t₀, ht₀, rfl, rfl⟩
      · exact ⟨t, ht, rfl, rfl⟩
    obtain ⟨t₀, ht₀, hweight, hcurators⟩ := hold
    rw [← hweight, ← hcurators]
    refine (hl k t₀ ht₀).mono fun hlate => hlate.before hkeep hc fun voter v hvote => ?_
    rwa [State.votesOn, hv]
  | rest => exact hl.congr (.of_eq rfl) rfl rfl rfl

theorem reviewsTelescope (h : Upkeep l l') (hl : l.state.ReviewsTelescope) :
    l'.state.ReviewsTelescope := by
  have hd := KeepsDisciplines.of_upkeep (f := Discipline.activeReviewWeight) h fun _ _ => rfl
  cases h.footprint with
  | deactivation content =>
    obtain ⟨_, _, _, _, he⟩ := l.deactivate_footprint content
    refine hl.congr ?_ ?_ ?_ hd <;> rw [he]
  | rest => exact hl.congr rfl rfl rfl hd

end Upkeep

theorem Change.telescopes (h : Change l l') (hs : l.state.Linked)
    (hl : l.state.ContentsTelescope ∧ l.state.ReviewsTelescope) :
    l'.state.ContentsTelescope ∧ l'.state.ReviewsTelescope := by
  cases h with
  | operation h => exact ⟨h.contentsTelescope hs hl.1, h.reviewsTelescope hs hl.2⟩
  | @reward _ plan =>
    obtain ⟨_, _, _, he⟩ := State.applyReward_footprint l.state l.head.time plan
    rw [he]
    exact ⟨hl.1.congr (.of_eq rfl) rfl rfl rfl, hl.2.congr rfl rfl rfl (.of_eq rfl)⟩
  | payment h =>
    obtain ⟨_, _, _, rfl⟩ := LedgerM.payPowerDown_footprint h
    exact ⟨hl.1.congr (.of_eq rfl) rfl rfl rfl, hl.2.congr rfl rfl rfl (.of_eq rfl)⟩
  | upkeep h => exact ⟨h.contentsTelescope hl.1, h.reviewsTelescope hl.2⟩

theorem State.telescopes_ofGenesis (h : ofGenesis config genesis = .ok s) :
    s.ContentsTelescope ∧ s.ReviewsTelescope := by
  obtain ⟨ht, hr, hd⟩ : s.voteTotals = ∅ ∧ s.reviews = ∅ ∧
      s.disciplines.All fun _ x => x.activeReviewWeight = 0 := by
    refine ofGenesis_invariant (P := fun s => s.voteTotals = ∅ ∧ s.reviews = ∅ ∧
      s.disciplines.All fun _ x => x.activeReviewWeight = 0) h (fun _ => ?_) fun s s' hc hs => ?_
    · exact ⟨rfl, rfl, .insert .empty rfl⟩
    cases hc with
    | discipline => exact ⟨hs.1, hs.2.1, hs.2.2.insert rfl⟩
    | account => exact hs
    | witness => exact hs
  constructor
  · unfold ContentsTelescope
    rw [ht]
    exact .empty
  · intro d x hx
    rw [curationIn, hr, hd d x hx]
    exact .zero

namespace Ledger

theorem Reachable.telescopes (h : l.Reachable config genesis) :
    l.state.ContentsTelescope ∧ l.state.ReviewsTelescope :=
  (h.invariant (P := fun l => l.state.Linked ∧ l.state.ContentsTelescope ∧ l.state.ReviewsTelescope)
    (fun _ h₀ => ⟨.ofGenesis (ofGenesis_ok h₀).1, State.telescopes_ofGenesis (ofGenesis_ok h₀).1⟩)
    fun _ _ hc hl => ⟨hc.linked hl.1, hc.telescopes hl.1 hl.2⟩).2

/-- In every reachable ledger the curators of a content in a discipline have together at most the curve
at the total weight of the votes, and exactly that if each vote came when the content was at least as old
as the window. The curators of all reviews of a discipline have together at most the curve at the total
weight of these reviews, and exactly that if each vote came when its review was at least as old as the
window. -/
theorem Reachable.curators_telescope (h : l.Reachable config genesis) :
    (∀ content d t, l.state.voteTotals? content d = some t →
      ∃ c w, l.state.contents.get? content = some c ∧
        Curve.power1Dot5.eval t.weight = .ok w ∧ t.curatorsWeight ≤ w ∧
        ((∀ voter v, l.state.vote? voter d content = some v →
          c.created + config.reverseAuctionWindow ≤ v.time) → t.curatorsWeight = w)) ∧
    ∀ d x, l.state.disciplines.get? d = some x →
      ∃ w, Curve.power1Dot5.eval x.activeReviewWeight = .ok w ∧
        (l.state.reviews.sumOf fun _ r => r.curationWeights.getD d 0) ≤ w ∧
        ((∀ id r, l.state.reviews.get? id = some r → ∀ voter v,
          l.state.reviewVote? voter d id = some v →
            r.created + config.reverseAuctionWindow ≤ v.time) →
          (l.state.reviews.sumOf fun _ r => r.curationWeights.getD d 0) = w) := by
  obtain ⟨hcontents, hreviews⟩ := h.telescopes
  have hconfig := h.config_eq
  constructor
  · intro content d t ht
    obtain ⟨c, hc⟩ := contains_iff.1 (h.linked.voteTotals _ t ht).1
    obtain ⟨w, hw, hle, heq⟩ := hcontents _ t ht
    refine ⟨c, w, hc, hw, hle, fun hlate => heq fun c' hc' voter v hv => ?_⟩
    obtain rfl := Option.some.inj (hc.symm.trans hc')
    rw [hconfig]
    exact hlate voter v (State.vote?_eq.trans hv)
  · intro d x hx
    obtain ⟨w, hw, hle, heq⟩ := hreviews d x hx
    refine ⟨w, hw, hle, fun hlate => heq fun id r hr voter v hv => ?_⟩
    rw [hconfig]
    refine hlate id r hr voter v ?_
    unfold State.reviewVote?
    unfold State.reviewVotesOn at hv
    rw [getD_eq] at hv
    cases hvs : l.state.reviewVotes.get? (id, d) with
    | none => rw [hvs] at hv; cases hv
    | some vs => rw [hvs] at hv; exact hv

end Ledger

namespace Sample

/-- Nobody came early, so the curators have all that the curve gives at 320 tokens. -/
theorem ripened_curators_telescope :
    (ripened.state.voteTotals? 0 0).map (fun t => (t.weight, t.curatorsWeight)) = some (320, 5724) ∧
    (Curve.power1Dot5.eval 320).toOption = some 5724 ∧
    (∀ t, ripened.state.voteTotals? 0 0 = some t → ∃ c w, ripened.state.contents.get? 0 = some c ∧
      Curve.power1Dot5.eval t.weight = .ok w ∧ t.curatorsWeight ≤ w) ∧
    ∀ x, ripened.state.disciplines.get? 0 = some x → ∃ w,
      Curve.power1Dot5.eval x.activeReviewWeight = .ok w ∧
        (ripened.state.reviews.sumOf fun _ r => r.curationWeights.getD 0 0) ≤ w := by
  have h := Ledger.Reachable.curators_telescope ripened_reachable
  refine ⟨by decide +kernel, by decide +kernel, fun t ht => ?_, fun x hx => ?_⟩
  · obtain ⟨c, w, hc, hw, hle, -⟩ := h.1 0 0 t ht
    exact ⟨c, w, hc, hw, hle⟩
  · obtain ⟨w, hw, hle, -⟩ := h.2 0 x hx
    exact ⟨w, hw, hle⟩

end Sample

end ResearchLedger
