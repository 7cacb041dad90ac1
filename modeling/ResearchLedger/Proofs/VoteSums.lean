import ResearchLedger.Proofs.ActiveWeight

/-! The totals of a content in a discipline are the sums over the votes that are stored. -/
namespace ResearchLedger

variable {s : State} {l l' : Ledger} {config : Config} {genesis : Genesis} {t : VoteTotals}
  {v : Vote} {vs : SortedMap AccountName Vote}

open SortedMap

/-- The weight that the tokens of a vote have in rewards. -/
def Vote.rewardWeight (v : Vote) : Nat :=
  match Curve.power1Dot5.eval v.tokens with
  | .ok reward => reward
  | .error _ => 0

theorem Vote.rewardWeight_eq {reward : Nat} (h : Curve.power1Dot5.eval v.tokens = .ok reward) :
    v.rewardWeight = reward := by
  rw [rewardWeight, h]

/-- A vote is stored under its own content, discipline and voter, and the curve has a weight for
its tokens. -/
structure Vote.StandsAt (v : Vote) (k : ContentId × DisciplineId) (voter : AccountName) : Prop where
  key : (v.content, v.discipline) = k
  voter : v.voter = voter
  curve : Curve.power1Dot5.eval v.tokens = .ok v.rewardWeight

/-- Totals that are the sums over some votes. -/
structure VoteTotals.SumsOf (t : VoteTotals) (vs : SortedMap AccountName Vote) : Prop where
  weight : t.weight = vs.sumOf fun _ v => v.tokens
  researchWeight : t.researchWeight = vs.sumOf fun _ v => v.rewardWeight
  curatorsWeight : t.curatorsWeight = vs.sumOf fun _ v => v.weight

namespace VoteTotals.SumsOf

theorem fresh {content : ContentId} {discipline : DisciplineId} {research : ResearchId} :
    (VoteTotals.fresh content discipline research).SumsOf ∅ := ⟨rfl, rfl, rfl⟩

/-- The vote of a new voter adds to the sums what it adds to the totals. -/
theorem raise {reward : Nat} {active : Bool} (h : t.SumsOf vs) (hn : vs.get? v.voter = none)
    (hr : Curve.power1Dot5.eval v.tokens = .ok reward) :
    (t.raise v.tokens reward v.weight active).SumsOf (vs.insert v.voter v) where
  weight := by
    rw [sumOf_insert_new hn, ← h.weight]
    exact Nat.add_comm ..
  researchWeight := by
    rw [sumOf_insert_new hn, ← h.researchWeight, v.rewardWeight_eq hr]
    exact Nat.add_comm ..
  curatorsWeight := by
    rw [sumOf_insert_new hn, ← h.curatorsWeight]
    exact Nat.add_comm ..

theorem deactivate (h : t.SumsOf vs) : t.deactivate.SumsOf vs := ⟨h.1, h.2, h.3⟩

end VoteTotals.SumsOf

namespace State

/-- The votes on a content in a discipline. -/
def votesOn (s : State) (k : ContentId × DisciplineId) : SortedMap AccountName Vote :=
  s.votes.getD k ∅

theorem vote?_eq {voter : AccountName} {discipline : DisciplineId} {content : ContentId} :
    s.vote? voter discipline content = (s.votesOn (content, discipline)).get? voter := by
  unfold vote? votesOn
  rw [getD_eq]
  cases s.votes.get? (content, discipline) <;> simp

/-- Votes are stored where they belong, no place is empty, and the totals are their sums. -/
structure VotesSummed (s : State) : Prop where
  stored : s.votes.All fun k vs => vs ≠ ∅ ∧ vs.All fun voter v => v.StandsAt k voter
  summed : s.voteTotals.All fun k t => s.votes.contains k = true ∧ t.SumsOf (s.votesOn k)

namespace VotesSummed

/-- Only votes and totals matter. -/
theorem congr {s' : State} (h : s.VotesSummed) (hv : s'.votes = s.votes)
    (ht : s'.voteTotals = s.voteTotals) : s'.VotesSummed where
  stored := by rw [hv]; exact h.stored
  summed := by unfold votesOn; rw [hv, ht]; exact h.summed

theorem standsAt (h : s.VotesSummed) (k : ContentId × DisciplineId) :
    (s.votesOn k).All fun voter v => v.StandsAt k voter :=
  (h.stored.mono fun _ _ h => h.2).getD

/-- Totals stand only where there is a vote. -/
theorem exists_vote (h : s.VotesSummed) {k : ContentId × DisciplineId}
    (ht : s.voteTotals.get? k = some t) : ∃ voter v, (s.votesOn k).get? voter = some v := by
  obtain ⟨vs, hvs⟩ := contains_iff.1 (h.summed k t ht).1
  have hon : s.votesOn k = vs := by rw [votesOn, getD_eq, hvs, Option.getD_some]
  by_contra hno
  refine (h.stored k vs hvs).1 (ext_get? fun voter => ?_)
  rw [get?_empty, Option.eq_none_iff_forall_not_mem, ← hon]
  exact fun v hv => hno ⟨voter, v, hv⟩

/-- The voters of stored votes are the keys under which they are stored. -/
theorem voters_eq (h : s.VotesSummed) (k : ContentId × DisciplineId) :
    (s.votesOn k).values.map (·.voter) = (s.votesOn k).keys :=
  All.map_values fun _ _ hv => (h.standsAt k _ _ hv).voter

/-- The totals before the next vote, those before the first included, are sums. -/
theorem totalsBefore (h : s.VotesSummed) (hs : s.Linked) (c : Content)
    (k : ContentId × DisciplineId) : (s.totalsBefore c k).SumsOf (s.votesOn k) := by
  unfold State.totalsBefore
  cases ht : s.voteTotals.get? k with
  | some t => exact (h.summed k t ht).2
  | none =>
    have hv : s.votes.get? k = none := hs.votes.get?_eq_none fun vs hvs => by
      simp [contains, ht] at hvs
    rw [votesOn, getD_eq, hv]
    exact .fresh

end VotesSummed

end State

namespace ContentVotePlan

variable {p : ContentVotePlan} {c : Content} {d : Discipline} {reward : Nat}

theorem votesOn_commit (p : ContentVotePlan) (l : Ledger) (k : ContentId × DisciplineId) :
    (p.commit l).state.votesOn k =
      if p.key = k then (l.state.votesOn k).insert p.vote.voter p.vote else l.state.votesOn k := by
  unfold State.votesOn
  rw [votes_commit]
  split
  · subst k
    rw [getD_insert_self]
  · rw [getD_insert_of_ne ‹_›]

theorem Casts.votesSummed (h : p.Casts l c d reward) (hs : l.state.Linked)
    (hl : l.state.VotesSummed) : (p.commit l).state.VotesSummed := by
  have hstands : p.vote.StandsAt p.key p.vote.voter :=
    ⟨rfl, rfl, by rw [h.curve, p.vote.rewardWeight_eq h.curve]⟩
  constructor
  · rw [votes_commit]
    refine hl.stored.insert ⟨fun he => ?_, (hl.standsAt p.key).insert hstands⟩
    have hget := get?_insert_self (m := l.state.votes.getD p.key ∅) (k := p.vote.voter) (v := p.vote)
    rw [he] at hget
    simp at hget
  · intro k t ht
    rw [voteTotals_commit, get?_insert] at ht
    rw [votes_commit, contains_insert, votesOn_commit]
    split at ht
    · cases ht
      subst k
      rw [if_pos rfl, h.totals]
      exact ⟨Or.inl rfl, (hl.totalsBefore hs c p.key).raise h.fresh h.curve⟩
    · rw [if_neg ‹_›]
      obtain ⟨hc, ht⟩ := hl.summed k t ht
      exact ⟨Or.inr hc, ht⟩

theorem CastsAll.votesSummed {ps : List ContentVotePlan} (h : CastsAll ps l) (hs : l.state.Linked)
    (hl : l.state.VotesSummed) : (ps.foldl (fun l v => v.commit l) l).state.VotesSummed := by
  induction h with
  | nil => exact hl
  | cons h _ ih => exact ih (h.linked hs) (h.votesSummed hs hl)

end ContentVotePlan

theorem Operation.Effect.votesSummed {op : Operation} (h : op.Effect l l') (hs : l.state.Linked)
    (hl : l.state.VotesSummed) : l'.state.VotesSummed := by
  cases op with
  | voteForContent op =>
    cases h with | voteForContent hp =>
    obtain ⟨c, d, reward, hc, -⟩ := VoteForContent.plan_ok hp
    exact hc.votesSummed hs hl
  | makeReview op =>
    cases h with | makeReview hp =>
    have hv := (MakeReview.plan_ok hs.disciplines hp).2.2.2
    exact hv.votesSummed (MakeReview.record_linked hs hp) (hl.congr rfl rfl)
  | _ => cases h.footprint; exact hl.congr rfl rfl

/-- A content that becomes inactive gives up active weights alone, and its votes stay. -/
theorem Ledger.deactivate_votesSummed {content : ContentId} (hl : l.state.VotesSummed) :
    (l.deactivate content).state.VotesSummed := by
  have hv : (l.deactivate content).state.votes = l.state.votes := by
    obtain ⟨_, _, _, _, he⟩ := deactivate_footprint l content
    rw [he]
  refine ⟨hv ▸ hl.stored, fun k t ht => ?_⟩
  unfold State.votesOn
  rw [hv]
  rw [get?_voteTotals_deactivate] at ht
  split at ht
  · obtain ⟨t₀, ht₀, rfl⟩ := Option.map_eq_some_iff.1 ht
    obtain ⟨hc, hsum⟩ := hl.summed k t₀ ht₀
    exact ⟨hc, hsum.deactivate⟩
  · exact hl.summed k t ht

theorem Change.votesSummed (h : Change l l') (hs : l.state.Linked) (hl : l.state.VotesSummed) :
    l'.state.VotesSummed := by
  cases h with
  | operation h => exact h.votesSummed hs hl
  | @reward _ plan =>
    obtain ⟨_, _, _, he⟩ := State.applyReward_footprint l.state l.head.time plan
    rw [he]
    exact hl.congr rfl rfl
  | payment h =>
    obtain ⟨_, _, _, rfl⟩ := LedgerM.payPowerDown_footprint h
    exact hl.congr rfl rfl
  | upkeep h =>
    cases h.footprint with
    | deactivation => exact Ledger.deactivate_votesSummed hl
    | rest => exact hl.congr rfl rfl

namespace Ledger

theorem votesSummed_ofGenesis (h : ofGenesis config genesis = .ok l) : l.state.VotesSummed := by
  obtain ⟨hv, ht⟩ : l.state.votes = ∅ ∧ l.state.voteTotals = ∅ :=
    State.ofGenesis_invariant (P := fun s => s.votes = ∅ ∧ s.voteTotals = ∅) (ofGenesis_ok h).1
      (fun _ => ⟨rfl, rfl⟩) fun _ _ hc hs => by cases hc <;> exact hs
  constructor
  · rw [hv]
    exact .empty
  · rw [ht]
    exact .empty

theorem Reachable.votesSummed (h : l.Reachable config genesis) : l.state.VotesSummed := by
  refine (h.invariant (P := fun l => l.state.Linked ∧ l.state.VotesSummed) (fun _ h₀ => ?_)
    fun _ _ hc hl => ?_).2
  · exact ⟨.ofGenesis (ofGenesis_ok h₀).1, votesSummed_ofGenesis h₀⟩
  · exact ⟨hc.linked hl.1, hc.votesSummed hl.1 hl.2⟩

/-- In every reachable ledger a content has totals in a discipline just when a vote on it is stored
there; the totals are the sums of the tokens, of their weights in rewards and of the weights of the
curators over these votes; each vote is stored under its own content, discipline and voter; and no
voter is among them twice. -/
theorem Reachable.vote_sums_exact (h : l.Reachable config genesis) (content : ContentId)
    (discipline : DisciplineId) :
    ((∃ t, l.state.voteTotals? content discipline = some t) ↔
      ∃ voter v, l.state.vote? voter discipline content = some v) ∧
    (∀ t, l.state.voteTotals? content discipline = some t →
      t.weight = ((l.state.votesOn (content, discipline)).sumOf fun _ v => v.tokens) ∧
      t.researchWeight = ((l.state.votesOn (content, discipline)).sumOf fun _ v => v.rewardWeight) ∧
      t.curatorsWeight = (l.state.votesOn (content, discipline)).sumOf fun _ v => v.weight) ∧
    (∀ voter v, l.state.vote? voter discipline content = some v →
      v.content = content ∧ v.discipline = discipline ∧ v.voter = voter ∧
      Curve.power1Dot5.eval v.tokens = .ok v.rewardWeight) ∧
    ((l.state.votesOn (content, discipline)).values.map (·.voter)).Nodup := by
  have hv := h.votesSummed
  simp only [State.vote?_eq]
  refine ⟨⟨?_, ?_⟩, fun t ht => ?_, fun voter v hvote => ?_, ?_⟩
  · rintro ⟨t, ht⟩
    exact hv.exists_vote ht
  · rintro ⟨voter, v, hvote⟩
    rw [← State.vote?_eq] at hvote
    obtain ⟨vs, hvs, -⟩ := Option.bind_eq_some_iff.1 hvote
    exact contains_iff.1 (h.linked.votes _ vs hvs).1
  · obtain ⟨-, h₁, h₂, h₃⟩ := hv.summed _ t ht
    exact ⟨h₁, h₂, h₃⟩
  · obtain ⟨hk, hn, hc⟩ := hv.standsAt _ _ v hvote
    exact ⟨congrArg Prod.fst hk, congrArg Prod.snd hk, hn, hc⟩
  · rw [hv.voters_eq]
    exact nodup_keys _

end Ledger

/-- Bob has voted with 300 tokens and carol with 20: the totals have the sums over both votes. -/
theorem Sample.ripened_vote_sums :
    (ripened.state.votesOn (0, 0)).values.map (fun v => (v.voter, v.tokens)) =
      [(bob, 300), (carol, 20)] ∧
    (ripened.state.voteTotals? 0 0).map (fun t => (t.weight, t.researchWeight, t.curatorsWeight)) =
      some (320, 5285, 5724) ∧
    ∀ t, ripened.state.voteTotals? 0 0 = some t →
      t.weight = ((ripened.state.votesOn (0, 0)).sumOf fun _ v => v.tokens) ∧
      t.researchWeight = ((ripened.state.votesOn (0, 0)).sumOf fun _ v => v.rewardWeight) ∧
      t.curatorsWeight = (ripened.state.votesOn (0, 0)).sumOf fun _ v => v.weight :=
  have h := Ledger.Reachable.vote_sums_exact ripened_reachable 0 0
  ⟨by decide +kernel, by decide +kernel, h.2.1⟩

end ResearchLedger
