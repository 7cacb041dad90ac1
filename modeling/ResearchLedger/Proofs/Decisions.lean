import ResearchLedger.Proofs.Ballots
import ResearchLedger.Proofs.Partners

/-! Decisions of research groups: what becomes of a proposal with each request, and how it stands after
every run. -/
namespace ResearchLedger

open SortedMap

variable {s s' : State} {l l' l₀ : Ledger} {id : ProposalId} {p p' : Proposal} {g : ResearchGroup}
  {events : List Event} {op : Operation} {step : Step} {steps : List Step}
  {history : List (Ledger × Operation)}

/-- Votes leave a proposal as it is, or count for it while it is active; they do not let it expire, and its
terms stay. -/
inductive Proposal.Voted (p : Proposal) : Proposal → Prop
  | same : Voted p p
  | counted (voters : SortedSet AccountName) (total : Nat) {status : ProposalStatus}
      (hactive : p.status = .active) (hstatus : status ≠ .expired) :
      Voted p { p with voters, totalVoted := total, status }

/-- What becomes of a proposal with a request: it is voted for or stays as it is, or it is active and
overdue and expires at the end of a block. -/
inductive Proposal.Becomes (p : Proposal) (step : Step) (l : Ledger) : Proposal → Prop
  | voted {p' : Proposal} (h : p.Voted p') : Becomes p step l p'
  | expired (hactive : p.status = .active) (hends : step.endsBlock = true)
      (hgranted : step.granted l = true) (hdue : p.expiration ≤ (step.onTime l).head.time) :
      Becomes p step l { p with status := .expired }

theorem Proposal.Voted.trans {p'' : Proposal} (h : p.Voted p') (h' : p'.Voted p'') : p.Voted p'' := by
  cases h with
  | same => exact h'
  | counted _ _ hactive hstatus =>
    cases h' with
    | same => exact .counted _ _ hactive hstatus
    | counted _ _ _ hstatus' => exact .counted _ _ hactive hstatus'

/-- What is not active stays as it is. -/
theorem Proposal.Voted.eq_of_not_active (h : p.Voted p') (hstatus : p.status ≠ .active) : p' = p := by
  cases h with
  | same => rfl
  | counted _ _ hactive => exact absurd hactive hstatus

namespace LedgerM

theorem proposals_processGrants (l : Ledger) : (processGrants l).2.state.proposals = l.state.proposals := by
  refine collect_preserves (P := fun l' => l'.state.proposals = l.state.proposals)
    (fun id l' h => Eq.trans ?_ h) _ rfl
  obtain h | ⟨g, s, events, -, hs, h⟩ := processGrant_snd id l' <;> rw [h]
  obtain ⟨_, _, _, rfl⟩ := State.processGrant_footprint hs
  rfl

/-- A maintenance lets the overdue proposals expire and does nothing else to proposals. -/
theorem proposals_maintain (h : maintain l = (.ok events, l')) :
    l'.state.proposals = (l.state.expireProposals l.head.time).1.proposals := by
  obtain ⟨paid, l₁, hp, rfl, -⟩ := maintain_ok h
  have hbefore : l.beforePayments.state.proposals = l.state.proposals := by
    obtain ⟨_, _, hback⟩ := State.returnDelegations_footprint l.beforeReturns l.head.time
    obtain ⟨_, _, hpartners⟩ :=
      State.changePartners_footprint (l.state.dropRecoveryRequests l.head.time) l.head.time
    change (l.beforeReturns.returnDelegations l.head.time).1.proposals = _
    rw [hback, Ledger.beforeReturns, hpartners]
    rfl
  have hpaid : l₁.state.proposals = l.beforePayments.state.proposals :=
    ((collects_of_ok hp).invariant
      (P := fun l' => l'.state.proposals = l.beforePayments.state.proposals)
      (fun _ _ _ _ h hs => by
        obtain ⟨_, _, _, rfl⟩ := payPowerDown_footprint h
        exact hs) rfl).1
  have hcontents : l₁.expireContents.1.state.proposals = l₁.state.proposals := by
    obtain ⟨_, _, _, _, hfoot⟩ :=
      Ledger.foldl_deactivate_footprint (l₁.state.overdueContents l₁.head.time) l₁
    exact congrArg (·.state.proposals) hfoot
  unfold Ledger.afterPayments State.expireProposals
  dsimp only
  rw [hcontents, hpaid, hbefore]

theorem proposals_processBlock (l : Ledger) : (processBlock l).2.state.proposals =
    if (processBlock l).1.isOk then (l.state.expireProposals l.head.time).1.proposals
    else l.state.proposals := by
  rcases h : processBlock l with ⟨e | events, l'⟩
  · rw [atomically_error h]
    rfl
  · exact proposals_maintain (atomically_ok h)

theorem proposals_endBlock (seconds : Seconds) (l : Ledger) : (endBlock seconds l).2.state.proposals =
    if (endBlock seconds l).1.isOk then
      (l.state.expireProposals (l.head.advance seconds).time).1.proposals
    else l.state.proposals := by
  have hgrants : (l.afterGrants seconds).state.proposals = l.state.proposals :=
    proposals_processGrants { l with head := l.head.advance seconds }
  obtain ⟨hok, h⟩ | ⟨hok, h⟩ := endBlock_cases seconds l <;> rw [hok, h]
  · exact hgrants
  · rw [proposals_processBlock, l.afterGrants_time]
    unfold State.expireProposals
    dsimp only
    rw [hgrants]

end LedgerM

namespace Ledger.Counted

theorem proposal_apply (h : l.Counted history) (ho : op.apply l = (.ok events, l'))
    (hp : l.state.proposals.get? id = some p) :
    ∃ p', l'.state.proposals.get? id = some p' ∧ p.Voted p' := by
  have heffect := Operation.effect_of_run (LedgerM.apply_ok ho)
  cases op with
  | createProposal op =>
    cases heffect with | createProposal hplan =>
    obtain ⟨-, g, -, rfl⟩ := CreateProposal.plan_ok hplan
    have hne : l.state.nextIds.proposal ≠ id := by
      rintro rfl
      cases (h.fresh _ le_rfl).symm.trans hp
    exact ⟨p, (get?_insert_of_ne hne).trans hp, .same⟩
  | voteForProposal op =>
    obtain ⟨q, g, hadmitted, rfl, -⟩ := VoteForProposal.apply_ok ho
    by_cases hid : op.proposal = id
    · subst hid
      obtain rfl := Option.some.inj (hadmitted.stored.symm.trans hp)
      refine ⟨_, get?_insert_self, .counted _ _ hadmitted.active ?_⟩
      split <;> decide
    · exact ⟨p, (get?_insert_of_ne hid).trans hp, .same⟩
  | _ =>
    cases heffect.footprint
    exact ⟨p, hp, .same⟩

theorem proposal_operations {ops : List Operation} (h : l.Counted history)
    (hc : LedgerM.Collects Operation.apply ops l l') (hp : l.state.proposals.get? id = some p) :
    ∃ p', l'.state.proposals.get? id = some p' ∧ p.Voted p' := by
  induction hc generalizing p history with
  | nil => exact ⟨p, hp, .same⟩
  | cons ho _ ih =>
    obtain ⟨p₁, hp₁, hfirst⟩ := h.proposal_apply ho hp
    obtain ⟨p₂, hp₂, hrest⟩ := ih (h.operation ho) hp₁
    exact ⟨p₂, hp₂, hfirst.trans hrest⟩

end Ledger.Counted

namespace Step

theorem Distributes.proposals_next (h : step.Distributes l) :
    (step.next l).state.proposals = l.state.proposals := by
  cases h with
  | refused h => rw [next, h]
  | @granted _ plan h =>
    obtain ⟨_, _, _, he⟩ := State.applyReward_footprint l.state l.head.time plan
    rw [next, h, he]

/-- A request that ends no block and asks for no operations leaves all proposals. -/
theorem proposals_next (hends : step.endsBlock = false) (hop : step.operations = []) :
    (step.next l).state.proposals = l.state.proposals := by
  cases step with
  | operation op => cases hop
  | transaction ops =>
    cases hop
    rfl
  | endBlock | processBlock => cases hends
  | processGrants =>
    rw [next, perform, run_return_snd]
    exact LedgerM.proposals_processGrants l
  | distributeReward budget => exact (distributes_reward budget l).proposals_next
  | rewardHolders research amount => exact (distributes_holders research amount l).proposals_next
  | setClock => rfl

/-- The end of a block lets the overdue proposals expire, if it is granted. -/
theorem proposals_of_endsBlock (hends : step.endsBlock = true) : (step.next l).state.proposals =
    if step.granted l then (l.state.expireProposals (step.onTime l).head.time).1.proposals
    else l.state.proposals := by
  unfold next granted
  cases step with
  | endBlock seconds =>
    rw [perform, run_return_snd, run_return_isOk]
    exact LedgerM.proposals_endBlock seconds l
  | processBlock =>
    rw [perform, run_return_snd, run_return_isOk]
    exact LedgerM.proposals_processBlock l
  | _ => cases hends

/-- A refused request of operations changes nothing. -/
theorem next_of_refused (hop : step.operations ≠ []) (hgranted : step.granted l = false) :
    step.next l = l := by
  cases step.carriesOut l hop with
  | refused h => rw [next, h]
  | granted h =>
    rw [granted, h] at hgranted
    cases hgranted

end Step

namespace Ledger.Counted

/-- Whatever is requested, a proposal stays, and what is not active stays as it is. -/
theorem proposal_next (h : l.Counted history) (step : Step) (hp : l.state.proposals.get? id = some p) :
    ∃ p', (step.next l).state.proposals.get? id = some p' ∧ p.Becomes step l p' := by
  cases hends : step.endsBlock with
  | true =>
    rw [Step.proposals_of_endsBlock hends]
    cases hgranted : step.granted l with
    | false => exact ⟨p, hp, .voted .same⟩
    | true =>
      rw [if_pos rfl]
      refine ⟨_, get?_mapValues.trans (by rw [hp]; rfl), ?_⟩
      dsimp only
      split
      · rename_i hdue
        obtain ⟨hactive, htime⟩ := Bool.and_eq_true_iff.1 hdue
        exact .expired (of_decide_eq_true hactive) hends hgranted (of_decide_eq_true htime)
      · exact .voted .same
  | false =>
    by_cases hop : step.operations = []
    · rw [Step.proposals_next hends hop]
      exact ⟨p, hp, .voted .same⟩
    · cases hgranted : step.granted l with
      | false =>
        rw [Step.next_of_refused hop hgranted]
        exact ⟨p, hp, .voted .same⟩
      | true =>
        have hcollects := LedgerM.collects_of_ok (Step.collect_operations hgranted hop)
        obtain ⟨p', hp', hvoted⟩ := h.proposal_operations hcollects hp
        exact ⟨p', hp', .voted hvoted⟩

/-- A request with a vote for a proposal that is not active is refused, and it changes nothing. -/
theorem vote_refused {op : VoteForProposal} (h : l.Counted history)
    (hp : l.state.proposals.get? op.proposal = some p) (hstatus : p.status ≠ .active)
    (hmem : .voteForProposal op ∈ step.operations) : step.granted l = false ∧ step.next l = l := by
  have hop : step.operations ≠ [] := List.ne_nil_of_mem hmem
  suffices hgranted : step.granted l = false from ⟨hgranted, Step.next_of_refused hop hgranted⟩
  by_contra hgranted
  have hcollect := Step.collect_operations (Bool.eq_true_of_not_eq_false hgranted) hop
  rw [← Ledger.map_turns Operation.apply l step.operations] at hmem
  obtain ⟨⟨l₁, -⟩, hturn, rfl⟩ := List.mem_map.1 hmem
  obtain ⟨before, _, _, _, _, _, -, hbefore, hvote, -⟩ := LedgerM.collect_of_mem_turns hcollect hturn
  -- The operations before the vote have left the proposal as it was.
  obtain ⟨p₁, hp₁, hvoted⟩ := h.proposal_operations (LedgerM.collects_of_ok hbefore) hp
  obtain ⟨q, _, hadmitted, -⟩ := VoteForProposal.apply_ok hvote
  obtain rfl := Option.some.inj (hadmitted.stored.symm.trans hp₁)
  rw [hvoted.eq_of_not_active hstatus] at hadmitted
  exact hstatus hadmitted.active

end Ledger.Counted

/-- From a ledger without proposals, whose groups have all their tokens in hands, every run leaves a
proposal decided by the votes that it has carried out: they come from different members, the tokens of
these are the tally and at most all that the group has, and the proposal is approved exactly if they are
a quorum, which the last vote has then reached in time and alone reported. Whatever comes next, votes do
not count for a proposal that is not active, and it expires at the end of an overdue block only. -/
theorem Ledger.proposals_decided (hp : l₀.state.proposals = ∅) (hc : l₀.state.Chartered)
    (hs : ∀ step ∈ steps, step.Storable)
    (hget : (l₀.after steps).state.proposals.get? id = some p) :
    (∃ g, (l₀.after steps).state.groups.get? p.group = some g ∧
      p.Decided g (l₀.after steps).state (votesFor id (l₀.carriedOut steps))
        (Event.approvals id (l₀.told steps)) ∧
      ((votesFor id (l₀.carriedOut steps)).map (·.2.voter)).Nodup ∧
      p.totalVoted ≤ g.totalTokens ∧
      (p.status = .approved ↔ p.quorumPercent * g.totalTokens ≤ p.totalVoted * wholePercent)) ∧
    (∀ step : Step, ∃ p', (step.next (l₀.after steps)).state.proposals.get? id = some p' ∧
      p.Becomes step (l₀.after steps) p') ∧
    (p.status ≠ .active → ∀ (step : Step) (op : VoteForProposal), op.proposal = id →
      .voteForProposal op ∈ step.operations →
        step.granted (l₀.after steps) = false ∧ step.next (l₀.after steps) = l₀.after steps) := by
  have hcounted := (Ledger.Counted.of_no_proposals hp hc).passes (Ledger.passes_after hs)
  rw [List.nil_append] at hcounted
  obtain ⟨-, g, hg, hdecided⟩ := hcounted.decided id p hget
  rw [← Ledger.approvals_told hs] at hdecided
  refine ⟨⟨g, hg, hdecided, hdecided.nodup, ?_, ?_⟩, fun step => hcounted.proposal_next step hget, ?_⟩
  · rw [hdecided.total]
    exact hcounted.chartered.sum_le hg (nodup_keys _)
  · rw [hdecided.approved_iff]
    exact decide_eq_true_iff
  · rintro hstatus step op rfl hmem
    exact hcounted.vote_refused hget hstatus hmem

namespace Sample

/-- A group whose quorum is three fifths. -/
def panel : ResearchGroup := ⟨0, "Panel", "panel", "", 6000, 10000, 0⟩

/-- Alice has half the tokens of the panel, bob three tenths and carol one fifth. -/
def panelTokens : SortedMap AccountName Nat :=
  ((∅ : SortedMap AccountName Nat).insert alice 5000 |>.insert bob 3000).insert carol 2000

/-- The founders with their panel. -/
def panelled : Ledger :=
  let l := founded 1 300 20
  { l with state := { l.state with
    nextIds := { l.state.nextIds with group := 1 }
    groups := l.state.groups.insert 0 panel
    groupTokens := l.state.groupTokens.insert 0 panelTokens } }

theorem panelled_chartered : panelled.state.Chartered where
  shared := .insert .empty ⟨rfl, by decide, by decide, by decide⟩
  unheld id n hid := by
    have htokens : panelled.state.groupTokens.getD id ∅ = ∅ := getD_insert_of_ne (Nat.ne_of_lt hid)
    unfold State.groupTokensOf
    rw [htokens]
    rfl

/-- Carol has a proposal, and alice and bob vote for it. -/
def ballot : List Step :=
  [.operation (.createProposal ⟨carol, 0, "", 100000⟩), .endBlock 1,
    .operation (.voteForProposal ⟨alice, 0, 0⟩), .operation (.voteForProposal ⟨bob, 0, 0⟩)]

/-- Both votes count, the second one approves the proposal, and a vote of carol comes too late. -/
theorem ballot_decided : (panelled.after ballot).state.proposals.get? 0 = some
      ⟨0, 0, carol, "", 6000, .approved, ((∅ : SortedSet AccountName).add alice).add bob, 8000, 0,
        100000⟩ ∧
    Event.approvals 0 (panelled.told ballot) = [.proposalApproved 0 0] ∧
    (∃ g, (panelled.after ballot).state.groups.get? 0 = some g ∧ 8000 ≤ g.totalTokens) ∧
    Step.granted (.operation (.voteForProposal ⟨carol, 0, 0⟩)) (panelled.after ballot) = false := by
  have hsteps : ∀ step ∈ ballot, step.Storable := by decide
  have hballot : (panelled.after ballot).state.proposals.get? 0 = some
      ⟨0, 0, carol, "", 6000, .approved, ((∅ : SortedSet AccountName).add alice).add bob, 8000, 0,
        100000⟩ := by
    decide +kernel
  obtain ⟨⟨g, hg, -, -, hle, -⟩, -, hlate⟩ :=
    Ledger.proposals_decided rfl panelled_chartered hsteps hballot
  exact ⟨hballot, by decide +kernel, ⟨g, hg, hle⟩,
    (hlate (by decide) (.operation (.voteForProposal ⟨carol, 0, 0⟩)) _ rfl List.mem_cons_self).1⟩

/-- The founders, of whom bob has a token of a group that is still to come. -/
def foretokened : Ledger :=
  let l := founded 1 300 20
  { l with state := { l.state with
    groupTokens := l.state.groupTokens.insert 0 ((∅ : SortedMap AccountName Nat).insert bob 1) } }

/-- Alice founds that group, and she and bob vote for her proposal. -/
def overcount : List Step :=
  [.operation (.createGroup ⟨alice, "Group", "group", "", 10000⟩),
    .operation (.createProposal ⟨alice, 0, "", 100000⟩),
    .operation (.voteForProposal ⟨bob, 0, 0⟩), .operation (.voteForProposal ⟨alice, 0, 0⟩)]

/-- A token that is there before its group is a token too many. -/
theorem overcount_exceeds_tokens : foretokened.state.proposals = ∅ ∧
    (foretokened.state.groups.All fun id g => g.Shared (foretokened.state.groupTokens.getD id ∅)) ∧
    (∀ step ∈ overcount, step.Storable) ∧
    ∃ p g, (foretokened.after overcount).state.proposals.get? 0 = some p ∧
      (foretokened.after overcount).state.groups.get? p.group = some g ∧ g.totalTokens < p.totalVoted := by
  have hvoted : ((foretokened.after overcount).state.proposals.get? 0).map
      (fun p => (p.group, p.totalVoted)) = some (0, 10001) := by decide +kernel
  have htokens : ((foretokened.after overcount).state.groups.get? 0).map (·.totalTokens) =
      some 10000 := by decide +kernel
  obtain ⟨p, hp, hpair⟩ := Option.map_eq_some_iff.1 hvoted
  obtain ⟨g, hg, htotal⟩ := Option.map_eq_some_iff.1 htokens
  obtain ⟨hgroup, hvotes⟩ := Prod.mk.inj hpair
  refine ⟨rfl, .empty, by decide, p, g, hp, hgroup ▸ hg, ?_⟩
  rw [hvotes, htotal]
  decide

end Sample

end ResearchLedger
