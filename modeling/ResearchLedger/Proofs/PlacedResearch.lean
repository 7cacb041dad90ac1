import ResearchLedger.Proofs.Placement
import ResearchLedger.Proofs.Stored

/-! Votes, reviews, groups and their researches put each record that they write into its place. -/
namespace ResearchLedger

open SortedMap

variable {s : State} {l : Ledger} {d : Directory} {n : AccountName} {now : Seconds} {u : Unit}

/-- A vote and the records that it leads to stand in their places. -/
structure ContentVotePlan.Placed (d : Directory) (p : ContentVotePlan) : Prop where
  vote : p.vote.Placed d p.key p.vote.voter
  totals : p.totals.Placed d p.key
  discipline : p.discipline.Placed d p.discipline.id

namespace ContentVotePlan

variable {p : ContentVotePlan} {c : Content} {x : Discipline} {reward : Nat}

theorem Casts.placed (h : p.Casts l c x reward) (hd : l.state.directory.Within d)
    (hs : l.state.Placed d) : p.Placed d := by
  have hcontent := (hs.contents _ c h.content).2
  have hdiscipline := hs.disciplines _ x h.discipline
  have htotals : (l.state.totalsBefore c p.key).Placed d p.key := by
    have hknown : d.content p.key.1 ∧ d.discipline p.key.2 :=
      ⟨hd.content _ (contains_of_get? h.content), hd.discipline _ (contains_of_get? h.discipline)⟩
    unfold State.totalsBefore
    cases ht : l.state.voteTotals.get? p.key with
    | none => exact ⟨rfl, rfl, hknown, hcontent.research⟩
    | some t => exact hs.voteTotals _ t ht
  constructor
  · exact ⟨rfl, rfl, rfl, hd.account _ h.voter, h.research ▸ hcontent.research⟩
  · rw [h.totals]
    exact { htotals with }
  · rw [h.raised]
    exact { hdiscipline with id := rfl }

theorem Placed.commit (hp : p.Placed d) (hs : l.state.Placed d) : (p.commit l).state.Placed d := by
  have hspent : (l.state.spendPower p.vote.voter p.vote.discipline p.remainingPower
      l.head.time).Placed d := hs.spendPower
  have hvotes : (l.state.votes.getD p.key ∅).All (Vote.Placed d p.key) :=
    (hs.votes.getD_of ⟨hp.totals.known.1, hp.totals.known.2, .empty⟩).2.2
  exact { hspent with
    disciplines := hs.disciplines.insert hp.discipline
    voteTotals := hs.voteTotals.insert hp.totals
    votes := hs.votes.insert ⟨hp.totals.known.1, hp.totals.known.2, hvotes.insert hp.vote⟩ }

theorem placed_foldl_commit {ps : List ContentVotePlan} (hp : ∀ p ∈ ps, p.Placed d)
    (hs : l.state.Placed d) : (ps.foldl (fun l p => p.commit l) l).state.Placed d := by
  induction ps generalizing l with
  | nil => exact hs
  | cons p ps ih =>
    rw [List.forall_mem_cons] at hp
    exact ih hp.2 (hp.1.commit hs)

end ContentVotePlan

theorem VoteForReview.placed {op : VoteForReview} {plan : VoteForReview.Plan}
    (hd : s.directory.Within d) (h : op.plan now s = .ok plan) (hs : s.Placed d) :
    (plan.commit now s).Placed d := by
  obtain ⟨r, x, reward, hc⟩ := plan_casts h
  have hreviewed := hd.review _ (contains_of_get? hc.review)
  have hknown := hd.discipline _ (contains_of_get? hc.discipline)
  have hold := hs.reviews _ r hc.review
  have hspent : (s.spendPower plan.vote.voter plan.vote.discipline plan.remainingPower now).Placed d :=
    hs.spendPower
  have hvotes : (s.reviewVotes.getD (plan.vote.review, plan.vote.discipline) ∅).All
      (ReviewVote.Placed d (plan.vote.review, plan.vote.discipline)) := by
    rw [hc.key.1, hc.key.2]
    exact (hs.reviewVotes.getD_of ⟨hreviewed, hknown, .empty⟩).2.2
  have hplaced : plan.review.Placed d plan.review.id := by
    rw [hc.revised]
    exact { hold.2 with
      id := rfl
      rewardWeights := hold.2.rewardWeights.insert hknown
      curationWeights := hold.2.curationWeights.insert hknown
      weightModifiers := hold.2.weightModifiers.insert hknown }
  have hid : plan.review.id < s.nextIds.review := by
    rw [hc.revised]
    exact hold.2.id ▸ hold.1
  have hx' : plan.discipline.Placed d plan.discipline.id := by
    rw [hc.raised]
    exact { hs.disciplines _ x hc.discipline with id := rfl }
  exact { hspent with
    disciplines := hs.disciplines.insert hx'
    reviews := hs.reviews.insert ⟨hid, hplaced⟩
    reviewVotes := hs.reviewVotes.insert
      ⟨hc.key.1 ▸ hreviewed, hc.key.2 ▸ hknown,
        hvotes.insert ⟨rfl, rfl, rfl, hc.voter ▸ hd.account _ hc.account⟩⟩ }

namespace MakeReview

variable {op : MakeReview} {plan : Plan}

theorem plan_placed (hd : l.state.directory.Within d) (h : op.plan l.head l.state = .ok plan)
    (hs : l.state.Placed d) :
    plan.review.Placed d l.state.nextIds.review ∧ ∀ p ∈ plan.votes, p.Placed d := by
  obtain ⟨c, r, votes, hauthor, hcontent, hr, hreferences, hreview, hplan, hv⟩ := plan_admits h
  have hr := (hs.researches _ _ hr).2
  have hdisciplines : (SortedSet.ofKeys (op.reviewDisciplines l.state r)).All
      fun x _ => d.discipline x := by
    refine SortedMap.All.ofList fun e he => ?_
    obtain ⟨x, hx, rfl⟩ := List.mem_map.1 he
    obtain ⟨u, hu⟩ := contains_iff.1 (List.mem_filter.1 hx).2
    exact hr.disciplines x u hu
  have hvotes : ∀ v ∈ votes, v.1.Placed d := by
    rcases hv with rfl | hv
    · exact fun v hv => absurd hv List.not_mem_nil
    · intro v hmem
      obtain ⟨-, head, c, x, reward, hcast⟩ := casts_planVotes hv hauthor v hmem
      exact hcast.placed hd hs
  rw [hreview, hplan]
  constructor
  · exact {
      id := rfl
      content := hd.content _ (contains_of_get? hcontent)
      author := hd.account _ hauthor
      references := fun x hx => hd.content x (hreferences x hx)
      disciplines := hdisciplines
      rewardWeights := hdisciplines.mapValues fun _ _ h => h
      curationWeights := hdisciplines.mapValues fun _ _ h => h
      weightModifiers := hdisciplines.mapValues fun _ _ h => h
      expertiseUsed := .ofList fun e he => by
        obtain ⟨v, hv, rfl⟩ := List.mem_map.1 he
        exact (hvotes v hv).totals.known.2 }
  · intro p hp
    obtain ⟨v, hv, rfl⟩ := List.mem_map.1 hp
    exact hvotes v hv

theorem placed (hd : l.state.directory.Within d) (h : op.plan l.head l.state = .ok plan)
    (hs : l.state.Placed d) : (plan.commit l).state.Placed d := by
  obtain ⟨hreview, hvotes⟩ := plan_placed hd h hs
  have hrecord : (plan.record l).state.Placed d :=
    { hs with
      reviews := (hs.reviews.mono fun _ _ h => ⟨Nat.lt_succ_of_lt h.1, h.2⟩).insert
        (hreview.id ▸ ⟨Nat.lt_succ_self _, hreview⟩) }
  exact ContentVotePlan.placed_foldl_commit hvotes hrecord

end MakeReview

theorem CreateGroup.placed {op : CreateGroup} (hd : s.directory.Within d)
    (hid : d.group s.nextIds.group) (h : op.check s = .ok u) (hs : s.Placed d) :
    (op.commit s).Placed d := by
  have hcreator := hd.account _ (check_ok h).1
  have holders : (s.groupTokens.getD s.nextIds.group ∅).All fun n _ => d.account n :=
    (hs.groupTokens.getD_of ⟨hid, .empty⟩).2
  exact { hs with
    groups := (hs.groups.mono fun _ _ h => ⟨Nat.lt_succ_of_lt h.1, h.2⟩).insert
      ⟨Nat.lt_succ_self _, rfl⟩
    groupTokens := hs.groupTokens.insert ⟨hid, holders.insert hcreator⟩ }

theorem CreateResearch.placed {op : CreateResearch} (hd : s.directory.Within d)
    (h : op.check s = .ok u) (hs : s.Placed d) : (op.commit now s).Placed d := by
  obtain ⟨hgroup, -, -, hknown⟩ := check_ok h
  have hdisciplines : (SortedSet.ofKeys op.disciplines).All fun x _ => d.discipline x := by
    refine SortedMap.All.ofList fun e he => ?_
    obtain ⟨x, hx, rfl⟩ := List.mem_map.1 he
    exact hd.discipline x (hknown x hx)
  exact { hs with
    researches := (hs.researches.mono fun _ _ h => ⟨Nat.lt_succ_of_lt h.1, h.2⟩).insert
      ⟨Nat.lt_succ_self _, rfl, hd.group _ hgroup, hdisciplines⟩ }

/-- A content that exists already is older than the one that is created. -/
theorem CreateContent.placed {op : CreateContent} (hd : s.directory.Within d)
    (h : op.check s = .ok u) (hs : s.Placed d) : (op.commit now s).Placed d := by
  obtain ⟨hresearch, -, hauthors, hreferences⟩ := check_ok h
  have hcontent : (op.content now s).Placed d s.nextIds.content := by
    refine ⟨rfl, hd.research _ hresearch, fun n hn => ?_, fun x hx => ?_⟩
    · exact hd.account n (hauthors n (List.mem_eraseDups.1 hn))
    · obtain ⟨c, hc⟩ := contains_iff.1 (hreferences x hx)
      exact ⟨hd.content x (hreferences x hx), (hs.contents x c hc).1⟩
  exact { hs with
    contents := (hs.contents.mono fun _ _ h => ⟨Nat.lt_succ_of_lt h.1, h.2⟩).insert
      ⟨Nat.lt_succ_self _, hcontent⟩ }

theorem TransferResearchTokens.placed {op : TransferResearchTokens} (hd : s.directory.Within d)
    (h : op.check s = .ok u) (hs : s.Placed d) : (op.commit s).Placed d := by
  obtain ⟨r, hr, hreceiver, -⟩ := check_ok h
  have hresearch := hd.research _ (contains_of_get? hr)
  have hold : (s.researchTokens.getD op.research ∅).All fun n _ => d.account n :=
    (hs.researchTokens.getD_of ⟨hresearch, .empty⟩).2
  have hresearches : (if op.fromGroup then s.researches.modify op.research
      (fun r => { r with ownedTokens := r.ownedTokens - op.amount }) else s.researches).All
      fun id r => id < s.nextIds.research ∧ r.Placed d id := by
    split
    · exact hs.researches.modify fun _ h => ⟨h.1, { h.2 with }⟩
    · exact hs.researches
  rw [commit_eq]
  exact { hs with
    researches := hresearches
    researchTokens := hs.researchTokens.insert
      ⟨hresearch, all_holdersAfter hold (hd.account _ hreceiver)⟩ }

theorem AddExpertise.placed {op : AddExpertise} (hd : s.directory.Within d)
    (h : op.check s = .ok u) (hs : s.Placed d) : (op.commit now s).Placed d := by
  obtain ⟨haccount, hknown⟩ := check_ok h
  have hadditions : ∀ e ∈ op.additions, d.account op.account ∧ d.discipline e.1 := fun e he =>
    ⟨hd.account _ haccount, hd.discipline _ (hknown e he).1⟩
  exact hs.foldl_creditExpertise hadditions

theorem CreateGrant.placed {op : CreateGrant} {block : Nat} {g : Grant} (hd : s.directory.Within d)
    (h : op.plan block s = .ok g) (hs : s.Placed d) : (g.commit s).Placed d := by
  obtain ⟨hid, -, -, -, a, ha, -⟩ := plan_ok h
  have hdiscipline := hd.discipline _ (plan_range h).2
  have hpaid : (s.debit g.owner g.amount).Placed d := hs.debit
  exact { hpaid with
    grants := (hs.grants.mono fun _ _ h => ⟨Nat.lt_succ_of_lt h.1, h.2⟩).insert
      ⟨hid ▸ Nat.lt_succ_self _, rfl, hd.account _ (contains_of_get? ha), hdiscipline⟩ }

/-- Who holds tokens of a group is an account. -/
theorem State.Placed.member {id : GroupId} (hs : s.Placed d) (h : s.groupTokensOf id n ≠ 0) :
    d.account n := by
  unfold State.groupTokensOf at h
  simp only [getD_eq] at h
  cases hg : s.groupTokens.get? id with
  | none => simp [hg] at h
  | some holders =>
    cases hn : holders.get? n with
    | none => simp [hg, hn] at h
    | some x => exact (hs.groupTokens id holders hg).2 n x hn

theorem CreateProposal.placed {op : CreateProposal} {p : Proposal} (hd : s.directory.Within d)
    (h : op.plan now s = .ok p) (hs : s.Placed d) : (p.commit s).Placed d := by
  obtain ⟨hmember, g, hg, rfl⟩ := plan_ok h
  have hgroup := hd.group _ (contains_of_get? hg)
  exact { hs with
    proposals := (hs.proposals.mono fun _ _ h => ⟨Nat.lt_succ_of_lt h.1, h.2⟩).insert
      ⟨Nat.lt_succ_self _, rfl, hgroup, hs.member hmember, .empty⟩ }

theorem VoteForProposal.placed {op : VoteForProposal} {plan : VoteForProposal.Plan}
    (h : op.plan now s = .ok plan) (hs : s.Placed d) : (plan.commit s).Placed d := by
  obtain ⟨hmember, hvoter, -⟩ := plan_ok h
  have hvoter : d.account plan.voter := hvoter ▸ hs.member hmember
  exact { hs with
    proposals := hs.proposals.modify fun _ hp =>
      ⟨hp.1, { hp.2 with voters := hp.2.voters.insert hvoter }⟩ }

end ResearchLedger
