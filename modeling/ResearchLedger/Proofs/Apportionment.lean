import ResearchLedger.Proofs.Founding

/-! The wholes by which rewards are divided: each is the sum of the parts that are claimed of it. -/
namespace ResearchLedger

variable {s s' : State} {l l' : Ledger} {config : Config}
  {genesis : Genesis}

open SortedMap

/-- The weights of a review in a discipline can be multiplied with an amount. -/
structure Review.Bounded (r : Review) (d : DisciplineId) : Prop where
  reward_le : r.rewardWeights.getD d 0 ≤ maxWord
  curation_le : r.curationWeights.getD d 0 ≤ maxWord
  modifier_le : r.weightModifiers.getD d wholePercent ≤ 2 * wholePercent

/-- Curators, voters of reviews and holders of researches share wholes, and the parts of a content
leave a rest. -/
structure State.Apportioned (s : State) : Prop where
  curators : s.voteTotals.All fun k t =>
    t.curatorsWeight = ((s.votes.getD k ∅).sumOf fun _ v => v.weight) ∧ t.curatorsWeight ≤ maxWord
  reviewVoters : s.reviews.All fun id r => ∀ d, r.Bounded d ∧
    r.curationWeights.getD d 0 = (s.reviewVotes.getD (id, d) ∅).sumOf fun _ v => v.weight
  holders : s.researches.All fun id r =>
    r.ownedTokens + ((s.researchTokens.getD id ∅).sumOf fun _ tokens => tokens) = wholePercent
  parts : s.researches.All fun _ r =>
    r.reviewSharePercent + s.config.referencesShare + s.config.curatorsShare ≤ wholePercent
  disciplines : s.disciplines.All fun _ d => d.activeResearchWeight ≤ maxWord
  config : s.config.validate = .ok ()

theorem Config.validate_ok {c : Config} {u : Unit} (h : c.validate = .ok u) :
    c.referencesShare + c.curatorsShare ≤ wholePercent ∧ c.reviewVotersShare ≤ wholePercent := by
  unfold Config.validate at h
  obtain ⟨-, h⟩ := guard_bind_eq_ok.1 h
  obtain ⟨-, h⟩ := guard_bind_eq_ok.1 h
  obtain ⟨-, h⟩ := guard_bind_eq_ok.1 h
  obtain ⟨-, h⟩ := guard_bind_eq_ok.1 h
  obtain ⟨-, h⟩ := guard_bind_eq_ok.1 h
  obtain ⟨hc, h⟩ := guard_bind_eq_ok.1 h
  exact ⟨Nat.not_lt.1 hc, Nat.not_lt.1 (guard_eq_ok.1 h).1⟩

theorem reviewModifier_le (weight total : Nat) : reviewModifier weight total ≤ 2 * wholePercent := by
  unfold reviewModifier
  split
  · decide
  · have : Nat.min (weight * wholePercent / total) wholePercent ≤ wholePercent :=
      Nat.min_le_right ..
    omega

namespace ContentVotePlan

variable {p : ContentVotePlan} {c : Content} {d : Discipline} {reward : Nat}

/-- A vote brings its weight both to the totals and to the votes. -/
theorem Casts.apportioned (h : p.Casts l c d reward) (hs : l.state.Linked)
    (hl : l.state.Apportioned) : (p.commit l).state.Apportioned := by
  have hbefore : (l.state.totalsBefore c p.key).curatorsWeight =
      (l.state.votes.getD p.key ∅).sumOf fun _ v => v.weight := by
    unfold State.totalsBefore
    cases ht : l.state.voteTotals.get? p.key with
    | some t => exact (hl.curators _ _ ht).1
    | none =>
      have hnone : l.state.votes.get? p.key = none := by
        refine hs.votes.get?_eq_none fun vs hvs => ?_
        have := hvs.1
        simp [SortedMap.contains, ht] at this
      rw [getD_eq, hnone]
      rfl
  refine { hl with curators := ?_, disciplines := hl.disciplines.insert h.research_le }
  intro k t ht
  rw [voteTotals_commit, get?_insert] at ht
  rw [votes_commit, getD_eq, get?_insert]
  split at ht
  · cases ht
    rw [if_pos ‹_›, Option.getD_some, sumOf_insert_new h.fresh, ← hbefore]
    refine ⟨?_, h.curators_le⟩
    rw [h.totals]
    exact Nat.add_comm ..
  · rw [if_neg ‹_›]
    exact hl.curators k t ht

theorem CastsAll.apportioned {ps : List ContentVotePlan} (h : CastsAll ps l)
    (hs : l.state.Linked) (hl : l.state.Apportioned) :
    (ps.foldl (fun l v => v.commit l) l).state.Apportioned := by
  induction h with
  | nil => exact hl
  | cons h _ ih => exact ih (h.linked hs) (h.apportioned hs hl)

end ContentVotePlan

/-- A vote on a review brings its weight both to the review and to the votes. -/
theorem VoteForReview.apportioned {op : VoteForReview} {plan : VoteForReview.Plan} {now : Seconds}
    (h : op.plan now s = .ok plan) (hs : s.Linked) (hl : s.Apportioned) :
    (plan.commit now s).Apportioned := by
  obtain ⟨r, d, reward, hc⟩ := plan_casts h
  refine { hl with reviewVoters := ?_, disciplines := hl.disciplines.insert ?_ }
  · intro id r' hr' e
    rw [hc.reviews_commit hs, get?_insert] at hr'
    rw [hc.reviewVotes_commit]
    by_cases hi : op.review = id
    · subst id
      rw [if_pos rfl] at hr'
      obtain rfl : plan.review = r' := Option.some.inj hr'
      obtain ⟨hb, hsum⟩ := hl.reviewVoters _ _ hc.review e
      rw [hc.revised]
      by_cases he : op.discipline = e
      · subst e
        refine ⟨⟨?_, ?_, ?_⟩, ?_⟩
        · rw [getD_insert_self]; exact hc.reward_le
        · rw [getD_insert_self]; exact hc.curation_le
        · rw [getD_insert_self]; exact reviewModifier_le ..
        · rw [getD_insert_self, getD_insert_self, sumOf_insert_new hc.fresh, hsum, Nat.add_comm]
      · have hne : (op.review, op.discipline) ≠ (op.review, e) := fun h => he (Prod.mk.inj h).2
        refine ⟨⟨?_, ?_, ?_⟩, ?_⟩
        · rw [getD_insert_of_ne he]; exact hb.reward_le
        · rw [getD_insert_of_ne he]; exact hb.curation_le
        · rw [getD_insert_of_ne he]; exact hb.modifier_le
        · rw [getD_insert_of_ne he, getD_insert_of_ne hne]; exact hsum
    · have hne : (op.review, op.discipline) ≠ (id, e) := fun h => hi (Prod.mk.inj h).1
      rw [if_neg hi] at hr'
      rw [getD_insert_of_ne hne]
      exact hl.reviewVoters id r' hr' e
  · have hle := hl.disciplines _ _ hc.discipline
    rw [hc.raised]
    exact hle

theorem MakeReview.record_apportioned {op : MakeReview} {plan : MakeReview.Plan}
    (hs : l.state.Linked) (hl : l.state.Apportioned) (h : op.plan l.head l.state = .ok plan) :
    (plan.record l).state.Apportioned := by
  obtain ⟨⟨ds, used, hr⟩, -⟩ := MakeReview.plan_ok hs.disciplines h
  have hzero : ∀ (x : Nat) e, (SortedMap.mapValues (fun _ _ => x) ds).getD e x = x := by
    intro x e
    rw [getD_eq, get?_mapValues]
    cases ds.get? e <;> rfl
  refine { hl with reviewVoters := hl.reviewVoters.insert fun e => ?_ }
  have hn : l.state.reviewVotes.get? (plan.review.id, e) = none := by
    refine hs.reviewVotes.get?_eq_none fun _ hv => ?_
    have := hv.1
    rw [hr] at this
    simp [SortedMap.contains, MakeReview.review, hs.review_none] at this
  have hvotes : l.state.reviewVotes.getD (plan.review.id, e) ∅ = ∅ := by
    rw [getD_eq, hn, Option.getD_none]
  rw [hvotes, hr]
  refine ⟨⟨?_, ?_, ?_⟩, hzero 0 e⟩
  · exact (hzero 0 e).trans_le (Nat.zero_le _)
  · exact (hzero 0 e).trans_le (Nat.zero_le _)
  · exact (hzero wholePercent e).trans_le (by decide)

namespace TransferResearchTokens

variable {op : TransferResearchTokens}

/-- What the sender gives leaves the holdings. -/
theorem sumOf_takeFrom {holders : SortedMap AccountName Nat}
    (h : op.amount ≤ holders.getD op.sender 0) (h₀ : op.amount ≠ 0) :
    (op.takeFrom holders).sumOf (fun _ tokens => tokens) + op.amount =
      holders.sumOf fun _ tokens => tokens := by
  unfold takeFrom
  rw [getD_eq] at h
  cases hk : holders.get? op.sender with
  | none => simp [hk] at h; omega
  | some held =>
    rw [hk, Option.getD_some] at h
    have herase := sumOf_eq_erase (f := fun _ (tokens : Nat) => tokens) hk
    dsimp only
    split
    · omega
    · have := sumOf_insert_old (v := held - op.amount) (f := fun _ (tokens : Nat) => tokens) hk
      omega

/-- What the receiver gets joins the holdings. -/
theorem sumOf_give (holders : SortedMap AccountName Nat) (n : AccountName) (amount : Nat) :
    (holders.insert n (holders.getD n 0 + amount)).sumOf (fun _ tokens => tokens) =
      holders.sumOf (fun _ tokens => tokens) + amount := by
  have := sumOf_insert_getD (m := holders) (k := n) (v := holders.getD n 0 + amount) (d := 0)
    (f := fun _ tokens => tokens) fun _ => rfl
  omega

theorem apportioned {u : Unit} (h : op.check s = .ok u) (hl : s.Apportioned) :
    (op.commit s).Apportioned := by
  obtain ⟨r, hr, -, h₀, hle⟩ := check_ok h
  have hold : r.ownedTokens + _ = wholePercent := hl.holders _ _ hr
  rw [commit_eq]
  refine { hl with holders := ?_, parts := ?_ }
  · intro id r' hr'
    by_cases hi : op.research = id
    · subst id
      rw [getD_insert_self]
      unfold holdersAfter
      dsimp only at hr' ⊢
      rw [sumOf_give]
      by_cases hg : op.fromGroup = true
      · rw [if_pos hg] at hr' hle ⊢
        rw [get?_modify, if_pos rfl, hr] at hr'
        obtain rfl := Option.some.inj hr'
        dsimp only
        omega
      · rw [if_neg hg] at hr' hle ⊢
        obtain rfl : r = r' := Option.some.inj (hr.symm.trans hr')
        have := sumOf_takeFrom hle h₀
        omega
    · rw [getD_insert_of_ne hi]
      dsimp only at hr'
      split at hr'
      · rw [get?_modify, if_neg hi] at hr'
        exact hl.holders id r' hr'
      · exact hl.holders id r' hr'
  · dsimp only
    split
    · exact hl.parts.modify fun _ h => h
    · exact hl.parts

end TransferResearchTokens

theorem Operation.Effect.apportioned {op : Operation} (h : op.Effect l l') (hs : l.state.Linked)
    (hl : l.state.Apportioned) : l'.state.Apportioned := by
  cases op with
  | voteForContent op =>
    cases h with | voteForContent hp =>
    obtain ⟨c, d, reward, hc, -⟩ := VoteForContent.plan_ok hp
    exact hc.apportioned hs hl
  | makeReview op =>
    cases h with | makeReview hp =>
    exact (MakeReview.plan_ok hs.disciplines hp).2.2.2.apportioned (MakeReview.record_linked hs hp)
      (MakeReview.record_apportioned hs hl hp)
  | voteForReview op =>
    cases h with | voteForReview hp =>
    exact VoteForReview.apportioned hp hs hl
  | createResearch op =>
    cases h with | createResearch hp =>
    have hn : l.state.researchTokens.get? l.state.nextIds.research = none := by
      refine hs.researchTokens.get?_eq_none fun _ h => ?_
      have := h.1
      simp [SortedMap.contains, hs.research_none] at this
    refine { hl with
      holders := hl.holders.insert ?_
      parts := hl.parts.insert ?_ }
    · change wholePercent + _ = _
      rw [getD_eq]
      change wholePercent + ((l.state.researchTokens.get? l.state.nextIds.research).getD ∅).sumOf _ = _
      rw [hn]
      rfl
    · have := (CreateResearch.check_ok hp).2.2.1
      have := (Config.validate_ok hl.config).1
      change op.reviewSharePercent + _ + _ ≤ _
      omega
  | transferResearchTokens op =>
    cases h with | transferResearchTokens hp =>
    exact TransferResearchTokens.apportioned hp hl
  | _ => cases h.footprint; exact { hl with }

theorem Ledger.withdrawTotals_apportioned {content : ContentId} {d : DisciplineId} {t : VoteTotals}
    (ht : l.state.voteTotals.get? (content, d) = some t) (hl : l.state.Apportioned) :
    (l.withdrawTotals content d t).state.Apportioned := by
  have hold := hl.curators _ _ ht
  exact { hl with
    curators := All.insert hl.curators hold
    disciplines := hl.disciplines.modify fun _ h => h.trans' (Nat.sub_le ..) }

theorem Upkeep.apportioned (h : Upkeep l l') (hl : l.state.Apportioned) : l'.state.Apportioned := by
  cases h.footprint with
  | deactivation =>
    exact Ledger.deactivate_preserves (P := fun l => l.state.Apportioned)
      (fun _ _ _ => Ledger.withdrawTotals_apportioned) { hl with }
  | rest => exact { hl with }

theorem Change.apportioned (h : Change l l') (hs : l.state.Linked) (hl : l.state.Apportioned) :
    l'.state.Apportioned := by
  cases h with
  | operation h => exact h.apportioned hs hl
  | reward =>
    obtain ⟨_, _, _, he⟩ := State.applyReward_footprint l.state l.head.time ‹_›
    rw [he]; exact { hl with }
  | payment h => obtain ⟨_, _, _, rfl⟩ := LedgerM.payPowerDown_footprint h; exact { hl with }
  | upkeep h => exact h.apportioned hl

theorem State.Apportioned.ofGenesis (h : ofGenesis config genesis = .ok s) : s.Apportioned := by
  refine ofGenesis_invariant h (fun hv => ?_) fun s s' hc hs => ?_
  · exact ⟨.empty, .empty, .empty, .empty, .insert .empty (Nat.zero_le _), hv⟩
  · cases hc with
    | discipline => exact { hs with disciplines := hs.disciplines.insert (Nat.zero_le _) }
    | account => exact { hs with }
    | witness => exact { hs with }

theorem Ledger.Reachable.apportioned (h : l.Reachable config genesis) : l.state.Apportioned := by
  refine (h.invariant (P := fun l => l.state.Linked ∧ l.state.Apportioned) (fun _ h₀ => ?_)
    fun _ _ hc hl => ?_).2
  · exact ⟨.ofGenesis (ofGenesis_ok h₀).1, .ofGenesis (ofGenesis_ok h₀).1⟩
  · exact ⟨hc.linked hl.1, hc.apportioned hl.1 hl.2⟩

end ResearchLedger
