import ResearchLedger.Layout.State
import ResearchLedger.Proofs.RecordLayouts

/-! A state whose records are within their ranges comes back from its bytes. -/
namespace ResearchLedger

open Layout Layout.Carries

/-- All that a state stores is within the ranges in which it is stored. -/
structure State.InRange (s : State) : Prop where
  config : s.config.InRange
  accounts : s.accounts.All fun _ a => a.InRange
  authorities : s.authorities.All fun _ a => a.InRange
  ownerHistory : s.ownerHistory.All fun _ history => ∀ r ∈ history, r.InRange
  recoveryRequests : s.recoveryRequests.All fun _ r => r.InRange
  partnerChanges : s.partnerChanges.All fun _ c => c.InRange
  withdrawRoutes : s.withdrawRoutes.All fun _ rs => rs.All fun _ r => r.InRange
  delegations : s.delegations.All fun _ d => d.InRange
  expiringDelegations : s.expiringDelegations.All fun k e =>
    k.1 ≤ maxWord ∧ k.2 ≤ maxWord ∧ e.InRange
  expertTokens : s.expertTokens.All fun _ ts => ts.All fun d t => d ≤ maxWord ∧ t.InRange
  votes : s.votes.All fun k vs => k.1 ≤ maxWord ∧ k.2 ≤ maxWord ∧ vs.All fun _ v => v.InRange
  reviewVotes : s.reviewVotes.All fun k vs =>
    k.1 ≤ maxWord ∧ k.2 ≤ maxWord ∧ vs.All fun _ v => v.InRange
  voteTotals : s.voteTotals.All fun k t => k.1 ≤ maxWord ∧ k.2 ≤ maxWord ∧ t.InRange
  disciplines : s.disciplines.All fun id d => id ≤ maxWord ∧ d.InRange
  groups : s.groups.All fun id g => id ≤ maxWord ∧ g.InRange
  groupTokens : s.groupTokens.All fun id hs => id ≤ maxWord ∧ hs.All fun _ n => n ≤ maxWord32
  researches : s.researches.All fun id r => id ≤ maxWord ∧ r.InRange
  contents : s.contents.All fun id c => id ≤ maxWord ∧ c.InRange
  reviews : s.reviews.All fun id r => id ≤ maxWord ∧ r.InRange
  researchTokens : s.researchTokens.All fun id hs => id ≤ maxWord ∧ hs.All fun _ n => n ≤ maxWord16
  reviewsByContent : s.reviewsByContent.All fun k _ => k.1 ≤ maxWord ∧ k.2 ≤ maxWord
  groupPermlinks : s.groupPermlinks.All fun _ id => id ≤ maxWord
  researchPermlinks : s.researchPermlinks.All fun k id => k.1 ≤ maxWord ∧ id ≤ maxWord
  contentPermlinks : s.contentPermlinks.All fun k id => k.1 ≤ maxWord ∧ id ≤ maxWord
  witnesses : s.witnesses.All fun _ w => w.InRange
  grants : s.grants.All fun id g => id ≤ maxWord ∧ g.InRange
  proposals : s.proposals.All fun id p => id ≤ maxWord ∧ p.InRange
  nextIds : s.nextIds.InRange

/-- The bytes of each store can be counted in a word. -/
def State.Sized (s : State) : Prop := ∀ store ∈ s.stores, store.2.length ≤ maxWord

theorem State.Sized.of_length {s : State} (h : (State.layout.write s).length ≤ maxWord) : s.Sized := by
  intro store hstore
  have hpart := (List.sublist_flatten_of_mem (List.mem_map_of_mem (f := Prod.snd) hstore)).length_le
  change (Config.layout.write s.config ++ s.stores.flatMap Prod.snd).length ≤ maxWord at h
  rw [List.length_append, List.flatMap_def] at h
  omega

theorem State.InRange.reads {s : State} (h : s.InRange)
    (hc : (Config.layout.write s.config).length ≤ maxWord)
    (hsized : s.Sized) : State.layout.read.Reads (State.layout.write s) s := by
  simp only [Sized, stores, List.forall_mem_cons, List.not_mem_nil, false_implies, implies_true,
    and_true] at hsized
  obtain ⟨accounts, authorities, ownerHistory, recoveryRequests, partnerChanges, withdrawRoutes,
    delegations, expiringDelegations, expertTokens, votes, reviewVotes, voteTotals, disciplines,
    groups, groupTokens, researches, contents, reviews, researchTokens, reviewsByContent,
    groupPermlinks, researchPermlinks, contentPermlinks, witnesses, witnessVotes, grants, proposals,
    nextIds⟩ := hsized
  unfold State.layout State.stores
  simp only [List.flatMap_cons, List.flatMap_nil, List.append_nil]
  refine (h.config.carries.reads hc).bind ?_
  refine ((map (h.accounts.mono fun n _ ha => ⟨n.carries, ha.carries⟩)).reads accounts).bind ?_
  refine ((map (h.authorities.mono fun n _ ha =>
    ⟨n.carries, ha.carries⟩)).reads authorities).bind ?_
  refine ((map (h.ownerHistory.mono fun n _ hh =>
    ⟨n.carries, list fun r hr => (hh r hr).carries⟩)).reads ownerHistory).bind ?_
  refine ((map (h.recoveryRequests.mono fun n _ hr =>
    ⟨n.carries, hr.carries⟩)).reads recoveryRequests).bind ?_
  refine ((map (h.partnerChanges.mono fun n _ hc =>
    ⟨n.carries, hc.carries⟩)).reads partnerChanges).bind ?_
  refine ((map (h.withdrawRoutes.mono fun n _ hrs =>
    ⟨n.carries, map (hrs.mono fun n _ hr => ⟨n.carries, hr.carries⟩)⟩)).reads withdrawRoutes).bind ?_
  refine ((map (h.delegations.mono fun k _ hd =>
    ⟨pair k.1.carries k.2.carries, hd.carries⟩)).reads delegations).bind ?_
  refine ((map (h.expiringDelegations.mono fun _ _ he =>
    ⟨pair (word he.1) (word he.2.1), he.2.2.carries⟩)).reads expiringDelegations).bind ?_
  refine ((map (h.expertTokens.mono fun n _ hts =>
    ⟨n.carries, map (hts.mono fun _ _ ht => ⟨word ht.1, ht.2.carries⟩)⟩)).reads expertTokens).bind ?_
  refine ((map (h.votes.mono fun _ _ hvs => ⟨pair (word hvs.1) (word hvs.2.1),
    map (hvs.2.2.mono fun n _ hv => ⟨n.carries, hv.carries⟩)⟩)).reads votes).bind ?_
  refine ((map (h.reviewVotes.mono fun _ _ hvs => ⟨pair (word hvs.1) (word hvs.2.1),
    map (hvs.2.2.mono fun n _ hv => ⟨n.carries, hv.carries⟩)⟩)).reads reviewVotes).bind ?_
  refine ((map (h.voteTotals.mono fun _ _ ht =>
    ⟨pair (word ht.1) (word ht.2.1), ht.2.2.carries⟩)).reads voteTotals).bind ?_
  refine ((map (h.disciplines.mono fun _ _ hd =>
    ⟨word hd.1, hd.2.carries⟩)).reads disciplines).bind ?_
  refine ((map (h.groups.mono fun _ _ hg => ⟨word hg.1, hg.2.carries⟩)).reads groups).bind ?_
  refine ((map (h.groupTokens.mono fun _ _ hs =>
    ⟨word hs.1, map (hs.2.mono fun n _ hn => ⟨n.carries, word32 hn⟩)⟩)).reads groupTokens).bind ?_
  refine ((map (h.researches.mono fun _ _ hr =>
    ⟨word hr.1, hr.2.carries⟩)).reads researches).bind ?_
  refine ((map (h.contents.mono fun _ _ hc => ⟨word hc.1, hc.2.carries⟩)).reads contents).bind ?_
  refine ((map (h.reviews.mono fun _ _ hr => ⟨word hr.1, hr.2.carries⟩)).reads reviews).bind ?_
  refine ((map (h.researchTokens.mono fun _ _ hs =>
    ⟨word hs.1, map (hs.2.mono fun n _ hn => ⟨n.carries, word16 hn⟩)⟩)).reads researchTokens).bind ?_
  refine ((set (h.reviewsByContent.mono fun _ _ hk =>
    pair (word hk.1) (word hk.2))).reads reviewsByContent).bind ?_
  refine ((map (h.groupPermlinks.mono fun p _ hid =>
    ⟨string p, word hid⟩)).reads groupPermlinks).bind ?_
  refine ((map (h.researchPermlinks.mono fun k _ hk =>
    ⟨pair (word hk.1) (string k.2), word hk.2⟩)).reads researchPermlinks).bind ?_
  refine ((map (h.contentPermlinks.mono fun k _ hk =>
    ⟨pair (word hk.1) (string k.2), word hk.2⟩)).reads contentPermlinks).bind ?_
  refine ((map (h.witnesses.mono fun n _ hw => ⟨n.carries, hw.carries⟩)).reads witnesses).bind ?_
  refine ((map fun n _ _ => ⟨n.carries, set fun n _ _ => n.carries⟩).reads witnessVotes).bind ?_
  refine ((map (h.grants.mono fun _ _ hg => ⟨word hg.1, hg.2.carries⟩)).reads grants).bind ?_
  refine ((map (h.proposals.mono fun _ _ hp => ⟨word hp.1, hp.2.carries⟩)).reads proposals).bind ?_
  exact (h.nextIds.carries.reads nextIds).last rfl

end ResearchLedger
