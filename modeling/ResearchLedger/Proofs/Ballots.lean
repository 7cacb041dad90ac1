import ResearchLedger.Proofs.Approvals
import ResearchLedger.Proofs.Charters

/-! Ballots on proposals: along every run the tally of a proposal is that of the votes carried out, each
voter once, and the vote that reaches the quorum is the last one and the only one that is reported. -/
namespace ResearchLedger

open SortedMap

variable {s s' : State} {l l' : Ledger} {id : ProposalId} {p : Proposal} {g g' : ResearchGroup}
  {now : Seconds} {events approvals : List Event} {op : Operation}
  {history more : List (Ledger × Operation)}

namespace VoteForProposal

variable {op : VoteForProposal}

/-- A vote that is admitted: the proposal is of that group, active and in time, and the voter is a member
that has not voted. -/
structure Admitted (op : VoteForProposal) (now : Seconds) (s : State) (p : Proposal)
    (g : ResearchGroup) : Prop where
  stored : s.proposals.get? op.proposal = some p
  group_eq : p.group = op.group
  active : p.status = .active
  timely : now < p.expiration
  new : p.voters.contains op.voter = false
  group_stored : s.groups.get? p.group = some g

/-- The proposal with one more vote. -/
def count (op : VoteForProposal) (s : State) (p : Proposal) (g : ResearchGroup) : Proposal :=
  let voted := p.totalVoted + s.groupTokensOf p.group op.voter
  { p with
    voters := SortedSet.add p.voters op.voter
    totalVoted := voted
    status := if p.reachesQuorum g voted then .approved else .active }

theorem admitted_of_plan {plan : Plan} (h : op.plan now s = .ok plan) : ∃ p g, op.Admitted now s p g ∧
    plan = ⟨op.proposal, op.voter, p.totalVoted + s.groupTokensOf p.group op.voter,
      p.reachesQuorum g (p.totalVoted + s.groupTokensOf p.group op.voter)⟩ := by
  unfold VoteForProposal.plan at h
  obtain ⟨p, hp, h⟩ := bind_eq_ok.1 h
  obtain ⟨hgroup, h⟩ := guard_bind_eq_ok.1 h
  obtain ⟨hactive, h⟩ := guard_bind_eq_ok.1 h
  obtain ⟨htime, h⟩ := guard_bind_eq_ok.1 h
  obtain ⟨-, h⟩ := guard_bind_eq_ok.1 h
  obtain ⟨hnew, h⟩ := guard_bind_eq_ok.1 h
  obtain ⟨-, h⟩ := guard_bind_eq_ok.1 h
  obtain ⟨g, hg, h⟩ := bind_eq_ok.1 h
  cases h
  have hgroup := Decidable.not_not.1 hgroup
  rw [← hgroup] at hg ⊢
  exact ⟨p, g, ⟨State.found_eq_ok.1 hp, hgroup, Decidable.not_not.1 hactive, Nat.not_le.1 htime,
    Bool.eq_false_of_not_eq_true hnew, State.group_eq_ok.1 hg⟩, rfl⟩

/-- A vote that is carried out counts, and is reported if it reaches the quorum. -/
theorem apply_ok (h : (Operation.voteForProposal op).apply l = (.ok events, l')) :
    ∃ p g, op.Admitted l.head.time l.state p g ∧
      l' = { l with state := { l.state with
        proposals := l.state.proposals.insert op.proposal (op.count l.state p g) } } ∧
      events = if (op.count l.state p g).status = .approved then [.proposalApproved p.id p.group]
        else [] := by
  obtain ⟨plan, hplan, h⟩ := bind_eq_ok.1 (LedgerM.apply_ok h)
  cases h
  obtain ⟨p, g, hadmitted, rfl⟩ := admitted_of_plan hplan
  refine ⟨p, g, hadmitted, ?_, ?_⟩
  · unfold Plan.commit
    rw [modify_of_some hadmitted.stored]
    unfold Plan.applyTo count
    rw [hadmitted.active]
  · unfold Plan.events count
    dsimp only
    rw [hadmitted.stored]
    dsimp only
    split <;> rfl

end VoteForProposal

/-- The votes for a proposal in a history, each with the ledger at its turn. -/
def votesFor (id : ProposalId) (history : List (Ledger × Operation)) : List (Ledger × VoteForProposal) :=
  history.filterMap fun
    | (l, .voteForProposal op) => if op.proposal = id then some (l, op) else none
    | _ => none

theorem votesFor_append : votesFor id (history ++ more) = votesFor id history ++ votesFor id more :=
  List.filterMap_append

namespace Proposal

/-- How a vote count came about that stands at a decision or waits for one: no approval has been reported
and the quorum is not reached, or the last vote has reached it, which the votes before had not, and has
reported the approval. -/
inductive Course (p : Proposal) (g : ResearchGroup) (s : State)
    (votes : List (Ledger × VoteForProposal)) : List Event → Prop
  | open (h : p.status ≠ .approved) (hq : p.reachesQuorum g p.totalVoted = false) : Course p g s votes []
  | approved {before : List (Ledger × VoteForProposal)} {l : Ledger} {op : VoteForProposal}
      (h : p.status = .approved) (hq : p.reachesQuorum g p.totalVoted = true)
      (hvotes : votes = before ++ [(l, op)])
      (hbefore : p.reachesQuorum g (before.map fun x => s.groupTokensOf p.group x.2.voter).sum = false)
      (htold : (Step.operation (.voteForProposal op)).told l = [.proposalApproved p.id p.group]) :
      Course p g s votes [.proposalApproved p.id p.group]

/-- A proposal with the votes that have been carried out for it and the approvals that have been reported:
the votes are of different members, in time, and all of them are counted. -/
structure Decided (p : Proposal) (g : ResearchGroup) (s : State)
    (votes : List (Ledger × VoteForProposal)) (approvals : List Event) : Prop where
  quorum : p.quorumPercent = g.quorumPercent
  voters : (votes.map (·.2.voter)).Perm p.voters.keys
  total : p.totalVoted = (p.voters.keys.map (s.groupTokensOf p.group)).sum
  timely : ∀ x ∈ votes, x.1.head.time < p.expiration
  course : p.Course g s votes approvals

variable {votes : List (Ledger × VoteForProposal)}

/-- A new proposal has no votes, and some are needed. -/
theorem Decided.new (hv : p.voters = ∅) (ht : p.totalVoted = 0) (hs : p.status = .active)
    (hq : p.quorumPercent = g.quorumPercent) {holders : SortedMap AccountName Nat}
    (hg : g.Shared holders) : p.Decided g s [] [] where
  quorum := hq
  voters := by
    rw [hv]
    exact .nil
  total := by
    rw [hv, ht]
    rfl
  timely := List.forall_mem_nil _
  course := by
    refine .open (by rw [hs]; decide) ?_
    have := Nat.mul_pos hg.some_quorum hg.some_tokens
    unfold reachesQuorum
    rw [ht, hq]
    simpa using this.ne'

namespace Decided

variable (h : p.Decided g s votes approvals)

include h

theorem nodup : (votes.map (·.2.voter)).Nodup := h.voters.nodup_iff.2 (nodup_keys _)

theorem sum_votes : (votes.map fun x => s.groupTokensOf p.group x.2.voter).sum = p.totalVoted := by
  rw [h.total, ← (h.voters.map (s.groupTokensOf p.group)).sum_eq, List.map_map]
  rfl

theorem approved_iff : p.status = .approved ↔ p.reachesQuorum g p.totalVoted = true := by
  cases h.course with
  | «open» hs hq => rw [hq, iff_false_right Bool.false_ne_true]; exact hs
  | approved hs hq => exact iff_of_true hs hq

/-- While a group keeps its charter the proposals on which it votes stand as they stood. -/
theorem keep (hk : s'.groupTokens.getD p.group ∅ = s.groupTokens.getD p.group ∅)
    (ht : g'.totalTokens = g.totalTokens) (hq : g'.quorumPercent = g.quorumPercent) :
    p.Decided g' s' votes approvals := by
  have htokens : s'.groupTokensOf p.group = s.groupTokensOf p.group := by
    funext n
    unfold State.groupTokensOf
    rw [hk]
  have hreaches : p.reachesQuorum g' = p.reachesQuorum g := by
    funext voted
    unfold reachesQuorum
    rw [ht]
  refine ⟨h.quorum.trans hq.symm, h.voters, htokens ▸ h.total, h.timely, ?_⟩
  cases h.course with
  | «open» hs hq => exact .open hs (hreaches ▸ hq)
  | approved hs hq hvotes hbefore htold =>
    exact .approved hs (hreaches ▸ hq) hvotes (by rw [hreaches, htokens]; exact hbefore) htold

theorem expire (hs : p.status = .active) : ({ p with status := .expired } : Proposal).Decided g s votes
    approvals := by
  refine ⟨h.quorum, h.voters, h.total, h.timely, ?_⟩
  cases h.course with
  | «open» _ hq => exact .open (fun he => by cases he) hq
  | approved hs' => cases hs.symm.trans hs'

/-- One more vote. -/
theorem count {op : VoteForProposal} (ha : op.Admitted l.head.time s p g)
    (htold : (Step.operation (.voteForProposal op)).told l =
      if (op.count s p g).status = .approved then [.proposalApproved p.id p.group] else []) :
    (op.count s p g).Decided g s (votes ++ [(l, op)])
      (approvals ++ (Step.operation (.voteForProposal op)).told l) := by
  have hkeys : (SortedSet.add p.voters op.voter).keys.Perm (op.voter :: p.voters.keys) := by
    have hnone := contains_eq_false_iff.1 ha.new
    have := (perm_insert (m := p.voters) (k := op.voter) (v := ())).map Prod.fst
    rwa [erase_of_none hnone] at this
  -- The proposal is active, so the quorum is still open and no approval has been reported.
  obtain ⟨rfl, hopen⟩ : approvals = [] ∧ p.reachesQuorum g p.totalVoted = false := by
    cases h.course with
    | «open» _ hq => exact ⟨rfl, hq⟩
    | approved hs => cases ha.active.symm.trans hs
  refine ⟨h.quorum, ?_, ?_, ?_, ?_⟩
  · rw [List.map_append]
    exact (List.perm_append_comm.trans (h.voters.cons op.voter)).trans hkeys.symm
  · refine Eq.trans ?_ (hkeys.map (s.groupTokensOf p.group)).sum_eq.symm
    rw [List.map_cons, List.sum_cons, ← h.total]
    exact Nat.add_comm _ _
  · exact List.forall_mem_append.2 ⟨h.timely, List.forall_mem_singleton.2 ha.timely⟩
  · have hstatus : (op.count s p g).status =
        if p.reachesQuorum g (op.count s p g).totalVoted then .approved else .active := rfl
    rw [List.nil_append, htold, hstatus]
    cases hq : p.reachesQuorum g (op.count s p g).totalVoted with
    | false => exact .open (by rw [hstatus, hq]; decide) hq
    | true =>
      rw [hstatus, hq] at htold
      refine .approved (by rw [hstatus, hq]; rfl) hq rfl ?_ htold
      exact (congrArg _ h.sum_votes).trans hopen

end Decided

end Proposal

/-- Only votes for proposals report approvals. -/
theorem Operation.run_approvals (hop : ∀ o, op ≠ .voteForProposal o) (h : op.run l = .ok (l', events)) :
    Event.approvals id events = [] := by
  cases op with
  | voteForProposal o => exact absurd rfl (hop o)
  | _ =>
    obtain ⟨plan, -, h⟩ := bind_eq_ok.1 h
    cases h
    rfl

theorem votesFor_other (hop : ∀ o, op ≠ .voteForProposal o) : votesFor id [(l, op)] = [] := by
  cases op with
  | voteForProposal o => exact absurd rfl (hop o)
  | _ => rfl

theorem votesFor_vote {op : VoteForProposal} :
    votesFor id [(l, .voteForProposal op)] = if op.proposal = id then [(l, op)] else [] := by
  unfold votesFor
  rw [List.filterMap_cons]
  dsimp only
  split <;> split <;> simp_all

theorem reportsOf_singleton (h : op.apply l = (.ok events, l')) : reportsOf [(l, op)] = events := by
  rw [reportsOf, List.flatMap_singleton]
  exact told_operation h

/-- What no operation does leaves proposals alone or lets those expire that are overdue. -/
theorem Drift.proposals (h : Drift l l') : l'.state.proposals = l.state.proposals ∨
    ∃ now, l'.state.proposals = (l.state.expireProposals now).1.proposals := by
  cases h with
  | @reward _ plan =>
    obtain ⟨_, _, _, he⟩ := State.applyReward_footprint l.state l.head.time plan
    rw [he]
    exact .inl rfl
  | payment h =>
    obtain ⟨_, _, _, rfl⟩ := LedgerM.payPowerDown_footprint h
    exact .inl rfl
  | upkeep h =>
    cases h with
    | proposals now => exact .inr ⟨now, rfl⟩
    | grant _ h =>
      obtain ⟨_, _, _, rfl⟩ := State.processGrant_footprint h
      exact .inl rfl
    | partners =>
      obtain ⟨_, _, he⟩ := State.changePartners_footprint l.state l.head.time
      rw [he]
      exact .inl rfl
    | returns =>
      obtain ⟨_, _, he⟩ := State.returnDelegations_footprint l.state l.head.time
      rw [he]
      exact .inl rfl
    | deactivation content =>
      obtain ⟨_, _, _, _, he⟩ := l.deactivate_footprint content
      rw [he]
      exact .inl rfl
    | requests | history | clock => exact .inl rfl

/-- A proposal that carries its own number and is decided by its group. -/
def Proposal.Stands (p : Proposal) (id : ProposalId) (s : State) (votes : List (Ledger × VoteForProposal))
    (approvals : List Event) : Prop :=
  p.id = id ∧ ∃ g, s.groups.get? p.group = some g ∧ p.Decided g s votes approvals

/-- All proposals stand as the history has left them. -/
structure Ledger.Counted (l : Ledger) (history : List (Ledger × Operation)) : Prop where
  chartered : l.state.Chartered
  fresh : ∀ id, l.state.nextIds.proposal ≤ id → l.state.proposals.get? id = none
  unknown : ∀ id, l.state.proposals.get? id = none →
    votesFor id history = [] ∧ Event.approvals id (reportsOf history) = []
  decided : l.state.proposals.All fun id p =>
    p.Stands id l.state (votesFor id history) (Event.approvals id (reportsOf history))

namespace Ledger.Counted

/-- A change that leaves the proposals, but for some that expire, and is no vote. -/
theorem keep {f : Proposal → Proposal} (h : l.Counted history) (hc : Change l l')
    (hn : l'.state.nextIds.proposal = l.state.nextIds.proposal)
    (hp : ∀ id, l'.state.proposals.get? id = (l.state.proposals.get? id).map f)
    (hf : ∀ p, f p = p ∨ p.status = .active ∧ f p = { p with status := .expired })
    (hv : ∀ id, votesFor id more = []) (ha : ∀ id, Event.approvals id (reportsOf more) = []) :
    l'.Counted (history ++ more) := by
  obtain ⟨hchartered, hkeeps⟩ := hc.chartered h.chartered
  have hvotes (id) : votesFor id (history ++ more) = votesFor id history := by
    rw [votesFor_append, hv, List.append_nil]
  have happrovals (id) : Event.approvals id (reportsOf (history ++ more)) =
      Event.approvals id (reportsOf history) := by
    rw [reportsOf_append, Event.approvals_append, ha, List.append_nil]
  refine ⟨hchartered, fun id hid => ?_, fun id hnone => ?_, fun id p hget => ?_⟩
  · rw [hp, h.fresh id (hn ▸ hid)]
    rfl
  · rw [hvotes, happrovals]
    rw [hp, Option.map_eq_none_iff] at hnone
    exact h.unknown id hnone
  · rw [hp] at hget
    obtain ⟨p, hp₀, rfl⟩ := Option.map_eq_some_iff.1 hget
    obtain ⟨hid, g, hg, hdecided⟩ := h.decided id p hp₀
    obtain ⟨g', hg', ht, hq, hk⟩ := hkeeps _ g hg
    rw [hvotes, happrovals]
    rcases hf p with he | ⟨hactive, he⟩ <;> rw [he]
    · exact ⟨hid, g', hg', hdecided.keep hk ht hq⟩
    · exact ⟨hid, g', hg', (hdecided.expire hactive).keep hk ht hq⟩

theorem drift (h : l.Counted history) (hd : Drift l l') : l'.Counted history := by
  have hn : l'.state.nextIds.proposal = l.state.nextIds.proposal := by
    cases hd.footprint
    rfl
  rw [← List.append_nil history]
  rcases hd.proposals with hp | ⟨now, hp⟩
  · exact h.keep (f := id) hd.change hn (fun id => by rw [hp, Option.map_id]; rfl) (fun _ => .inl rfl)
      (fun _ => rfl) fun _ => rfl
  · refine h.keep (f := fun p => if p.isOverdue now then { p with status := .expired } else p) hd.change hn
      (fun id => by rw [hp]; exact get?_mapValues) (fun p => ?_) (fun _ => rfl) fun _ => rfl
    split
    · rename_i hdue
      have hactive := (Bool.and_eq_true_iff.1 hdue).1
      exact .inr ⟨of_decide_eq_true hactive, rfl⟩
    · exact .inl rfl

theorem create {op : CreateProposal} (h : l.Counted history)
    (ho : (Operation.createProposal op).apply l = (.ok events, l')) :
    l'.Counted (history ++ [(l, .createProposal op)]) := by
  have heffect := Operation.effect_of_run (LedgerM.apply_ok ho)
  have hreports : ∀ id, Event.approvals id (reportsOf [(l, .createProposal op)]) = [] := fun id => by
    rw [reportsOf_singleton ho]
    exact Operation.run_approvals (fun _ he => by cases he) (LedgerM.apply_ok ho)
  cases heffect with | createProposal hplan =>
  obtain ⟨-, g, hg, rfl⟩ := CreateProposal.plan_ok hplan
  have hvotes (id) : votesFor id (history ++ [(l, .createProposal op)]) = votesFor id history := by
    rw [votesFor_append]
    exact List.append_nil _
  have happrovals (id) : Event.approvals id (reportsOf (history ++ [(l, .createProposal op)])) =
      Event.approvals id (reportsOf history) := by
    rw [reportsOf_append, Event.approvals_append, hreports, List.append_nil]
  refine ⟨⟨h.chartered.shared, h.chartered.unheld⟩, fun id hid => ?_, fun id hnone => ?_, ?_⟩
  · exact (get?_insert_of_ne (Nat.ne_of_lt hid)).trans (h.fresh id (Nat.le_of_lt hid))
  · rw [hvotes, happrovals]
    refine h.unknown id ?_
    by_cases hid : l.state.nextIds.proposal = id
    · exact h.fresh id hid.le
    · exact (get?_insert_of_ne hid).symm.trans hnone
  · refine All.insert (fun id p hp => ?_) ⟨rfl, g, hg, ?_⟩
    · obtain ⟨hid, g', hg', hdecided⟩ := h.decided id p hp
      rw [hvotes, happrovals]
      exact ⟨hid, g', hg', hdecided.keep rfl rfl rfl⟩
    · rw [hvotes, happrovals]
      -- The number is a new one, so no vote of the history has been for it.
      obtain ⟨hv, ha⟩ := h.unknown _ (h.fresh l.state.nextIds.proposal le_rfl)
      rw [hv, ha]
      exact .new rfl rfl rfl rfl (h.chartered.shared _ g hg)

theorem vote {op : VoteForProposal} (h : l.Counted history)
    (ho : (Operation.voteForProposal op).apply l = (.ok events, l')) :
    l'.Counted (history ++ [(l, .voteForProposal op)]) := by
  obtain ⟨p, g, hadmitted, rfl, htold⟩ := VoteForProposal.apply_ok ho
  obtain ⟨hid, g', hg', hdecided⟩ := h.decided _ p hadmitted.stored
  obtain rfl := Option.some.inj (hg'.symm.trans hadmitted.group_stored)
  have hown (id) : Event.approvals id events = if op.proposal = id then events else [] := by
    rw [htold, hid]
    by_cases hs : (op.count l.state p g').status = .approved
    · rw [if_pos hs]
      exact Event.approvals_singleton
    · rw [if_neg hs]
      exact (ite_self _).symm
  have hvotes (id) : votesFor id (history ++ [(l, .voteForProposal op)]) =
      votesFor id history ++ if op.proposal = id then [(l, op)] else [] := by
    rw [votesFor_append, votesFor_vote]
  have happrovals (id) : Event.approvals id (reportsOf (history ++ [(l, .voteForProposal op)])) =
      Event.approvals id (reportsOf history) ++ if op.proposal = id then events else [] := by
    rw [reportsOf_append, Event.approvals_append, reportsOf_singleton ho, hown]
  refine ⟨⟨h.chartered.shared, h.chartered.unheld⟩, fun id hle => ?_, fun id hnone => ?_,
    fun id q hget => ?_⟩
  · have hne : op.proposal ≠ id := by
      rintro rfl
      exact absurd (h.fresh _ hle) (by rw [hadmitted.stored]; exact Option.some_ne_none p)
    exact (get?_insert_of_ne hne).trans (h.fresh id hle)
  · have hne : op.proposal ≠ id := by
      rintro rfl
      exact absurd hnone (by rw [get?_insert_self]; exact Option.some_ne_none _)
    rw [hvotes, happrovals, if_neg hne, if_neg hne, List.append_nil, List.append_nil]
    exact h.unknown id ((get?_insert_of_ne hne).symm.trans hnone)
  · change q.Stands id _ _ _
    rw [hvotes, happrovals]
    by_cases he : op.proposal = id
    · subst he
      obtain rfl := Option.some.inj (get?_insert_self.symm.trans hget)
      rw [if_pos rfl, if_pos rfl, ← told_operation ho]
      exact ⟨hid, g', hg', (hdecided.count hadmitted ((told_operation ho).trans htold)).keep rfl rfl rfl⟩
    · rw [if_neg he, if_neg he, List.append_nil, List.append_nil]
      obtain ⟨hq, g₁, hg₁, hdecided₁⟩ := h.decided id q ((get?_insert_of_ne he).symm.trans hget)
      exact ⟨hq, g₁, hg₁, hdecided₁.keep rfl rfl rfl⟩

theorem operation (h : l.Counted history) (ho : op.apply l = (.ok events, l')) :
    l'.Counted (history ++ [(l, op)]) := by
  have heffect := Operation.effect_of_run (LedgerM.apply_ok ho)
  have keep (hop : ∀ o, op ≠ .voteForProposal o)
      (hn : l'.state.nextIds.proposal = l.state.nextIds.proposal)
      (hp : l'.state.proposals = l.state.proposals) : l'.Counted (history ++ [(l, op)]) :=
    h.keep (f := id) (.operation heffect) hn (fun id => by rw [hp, Option.map_id]; rfl) (fun _ => .inl rfl)
      (fun _ => votesFor_other hop) fun _ => by
        rw [reportsOf_singleton ho]
        exact Operation.run_approvals hop (LedgerM.apply_ok ho)
  cases op with
  | createProposal => exact h.create ho
  | voteForProposal => exact h.vote ho
  | _ =>
    refine keep (fun _ he => by cases he) ?_ ?_ <;> cases heffect.footprint <;> rfl

/-- Proposals stand as decided along every way. -/
theorem passes (h : l.Counted history) (hp : Passes l more l') : l'.Counted (history ++ more) := by
  induction hp with
  | refl =>
    rw [List.append_nil]
    exact h
  | drift _ hd ih => exact ih.drift hd
  | operation _ ho ih =>
    rw [← List.append_assoc]
    exact ih.operation ho

/-- Without proposals there is nothing to be decided. -/
theorem of_no_proposals (hp : l.state.proposals = ∅) (hc : l.state.Chartered) : l.Counted [] where
  chartered := hc
  fresh id _ := by
    rw [hp]
    exact get?_empty
  unknown _ _ := ⟨rfl, rfl⟩
  decided := by
    rw [hp]
    exact .empty

end Ledger.Counted

end ResearchLedger
