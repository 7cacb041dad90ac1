import ResearchLedger.Proofs.Founding
import ResearchLedger.Proofs.PlacedAccounts
import ResearchLedger.Proofs.PlacedResearch
import ResearchLedger.Proofs.StoredRewards

/-! Every record of a reachable ledger stands in its place. -/
namespace ResearchLedger

open SortedMap

variable {config : Config} {genesis : Genesis} {s s' : State} {l l' : Ledger} {d : Directory}
  {n : AccountName} {now : Seconds} {amount deposit : Amount}

theorem Operation.Effect.placed {op : Operation} (h : op.Effect l l') (hl : l.state.Linked)
    (hs : l.state.Placed l'.state.directory) : l'.state.Placed l'.state.directory := by
  have hd := h.directory
  cases h with
  | @accountCreate op h =>
    have hname : (op.commit l.head.time l.state).accounts.contains op.name = true := by
      rw [AccountCreate.accounts_commit]
      exact contains_insert.2 (.inl rfl)
    exact AccountCreate.placed hd hname h hs
  | accountUpdate h => exact AccountUpdate.placed hd h hs
  | transfer => exact hs.debit.credit
  | transferToCommonTokens h => exact TransferToCommonTokens.placed hd h hs
  | withdrawCommonTokens => exact hs.modifyAccount fun _ ha => { ha with }
  | setWithdrawRoute h => exact SetWithdrawRoute.placed hd h hs
  | delegateCommonTokens h => exact DelegateCommonTokens.placed hd h hs
  | setWitnessProxy h => exact SetWitnessProxy.placed hd hl h hs
  | witnessUpdate h => exact WitnessUpdate.placed hd h hs
  | witnessVote h => exact WitnessVote.placed hd h hs
  | requestRecovery h => exact RequestRecovery.placed hd h hs
  | recoverAccount h => exact RecoverAccount.placed h hs
  | changeRecoveryPartner h => exact ChangeRecoveryPartner.placed hd h hs
  | voteForContent h =>
    obtain ⟨c, x, reward, hcast, -⟩ := VoteForContent.plan_ok h
    exact (hcast.placed hd hs).commit hs
  | voteForReview h => exact VoteForReview.placed hd h hs
  | makeReview h => exact MakeReview.placed hd h hs
  | createGroup h => exact CreateGroup.placed hd (contains_insert.2 (.inl rfl)) h hs
  | createResearch h => exact CreateResearch.placed hd h hs
  | createContent h => exact CreateContent.placed hd h hs
  | transferResearchTokens h => exact TransferResearchTokens.placed hd h hs
  | addExpertise h => exact AddExpertise.placed hd h hs
  | createGrant h => exact CreateGrant.placed hd h hs
  | createProposal h => exact CreateProposal.placed hd h hs
  | voteForProposal h => exact VoteForProposal.placed h hs

namespace State.Placed

theorem creditGroup {g : GroupId} (h : s.Placed d) : (s.creditGroup g amount).Placed d :=
  { h with groups := h.groups.modify fun _ hg => hg }

/-- The authors of a state are accounts. -/
theorem authored (h : s.Placed d) : s.Authored d.account where
  contents := h.contents.mono fun _ _ h => h.2.authors
  reviews := h.reviews.mono fun _ _ h => h.2.author

theorem applyReward {p : RewardPlan} (h : s.Placed d) (hp : p.Gives d.account d.discipline) :
    (s.applyReward now p).Placed d :=
  applyReward_preserves (fun _ _ _ hs => hs.credit) (fun _ _ _ hs => hs.creditGroup)
    (fun _ _ _ _ hget hs => hs.creditExpertise (hp _ _ hget).1 (hp _ _ hget).2) h

theorem keepGrant {id : GrantId} (h : s.Placed d) : (s.keepGrant id amount).Placed d :=
  { h with grants := h.grants.modify fun _ hg => ⟨hg.1, { hg.2 with }⟩ }

theorem afterShares {block : Nat} {id : GrantId} {g : Grant} {shares : SortedMap GroupId Amount}
    (h : s.Placed d) : (s.afterShares block id g shares).Placed d :=
  afterShares_preserves (fun _ _ _ hs => hs.creditGroup) (fun _ _ hs => hs.credit)
    (fun _ hs => { hs with grants := hs.grants.erase }) (fun _ _ hs => hs.keepGrant) h

theorem changePartner (h : s.Placed d) : (s.changePartner n).Placed d := by
  unfold State.changePartner
  split
  · exact h
  · rename_i c hc
    have hpartner := (h.partnerChanges n c hc).partner
    have hgone : Placed d { s with partnerChanges := s.partnerChanges.erase n } :=
      { h with partnerChanges := h.partnerChanges.erase }
    refine hgone.modifyAccount fun _ ha => { ha with recoveryPartner := fun m hm => ?_ }
    obtain rfl := Option.some.inj hm
    exact hpartner

theorem returnDelegation {key : Seconds × Nat} {e : ExpiringDelegation} (h : s.Placed d) :
    (s.returnDelegation key e).Placed d := by
  have hgone : Placed d { s with expiringDelegations := s.expiringDelegations.erase key } :=
    { h with expiringDelegations := h.expiringDelegations.erase }
  exact hgone.modifyAccount fun _ ha => { ha with }

theorem pruneOwnerHistory (h : s.Placed d) : (s.pruneOwnerHistory now).Placed d :=
  have kept := h.ownerHistory.mapValues
    (f := fun _ history => history.filter (·.isKept s.config.ownerRecoveryPeriod now))
    fun _ _ hr => ⟨hr.1, fun x hx => hr.2 x (List.mem_of_mem_filter hx)⟩
  { h with ownerHistory := kept.filter }

theorem expireProposals (h : s.Placed d) : (s.expireProposals now).1.Placed d :=
  { h with
    proposals := h.proposals.mapValues fun _ p hp => by
      split
      · exact ⟨hp.1, { hp.2 with }⟩
      · exact hp }

theorem deactivate (h : l.state.Placed d) (content : ContentId) :
    (l.deactivate content).state.Placed d := by
  refine Ledger.deactivate_preserves (P := fun l => l.state.Placed d) (fun l x t ht hs => ?_) ?_
  · exact { hs with
      disciplines := hs.disciplines.modify fun _ hx => { hx with }
      voteTotals := hs.voteTotals.insert { hs.voteTotals _ t ht with } }
  · exact { h with contents := h.contents.modify fun _ hc => ⟨hc.1, { hc.2 with }⟩ }

end State.Placed

theorem Upkeep.placed (h : Upkeep l l') (hs : l.state.Placed d) : l'.state.Placed d := by
  cases h with
  | grant _ h =>
    obtain rfl | ⟨shares, -, rfl⟩ := State.processGrant_ok h
    · exact hs
    · exact hs.afterShares
  | requests => exact { hs with recoveryRequests := hs.recoveryRequests.filter }
  | partners => exact List.foldlRecOn _ _ hs fun _ h _ _ => h.changePartner
  | history => exact hs.pruneOwnerHistory
  | returns => exact List.foldlRecOn _ _ hs fun _ h _ _ => h.returnDelegation
  | deactivation content => exact hs.deactivate content
  | proposals => exact hs.expireProposals
  | clock => exact hs

namespace LedgerM

theorem RoutePaid.placed {r : WithdrawRoute} (h : RoutePaid amount r l deposit l')
    (hr : d.account r.target) (hs : l.state.Placed d) : l'.state.Placed d := by
  cases h with
  | skip => exact hs
  | @stake _ effects =>
    have hstaked : (l.state.modifyAccount r.target (·.stake deposit)).Placed d :=
      hs.modifyAccount fun _ ha => { ha with }
    exact (hstaked.creditExpertise hr hs.common).applyProxyEffects effects
  | balance => exact hs.credit

theorem RoutesPaid.placed {rs : List WithdrawRoute} (h : RoutesPaid amount rs l deposit l')
    (hr : ∀ r ∈ rs, d.account r.target) (hs : l.state.Placed d) : l'.state.Placed d := by
  induction h with
  | nil => exact hs
  | cons h _ ih =>
    rw [List.forall_mem_cons] at hr
    exact ih hr.2 (h.placed hr.1 hs)

theorem payPowerDown_placed {events : List Event} (h : payPowerDown n l = (.ok events, l'))
    (hd : l.state.directory.Within d) (hs : l.state.Placed d) : l'.state.Placed d := by
  obtain ⟨a, l₁, sum, effects, ha, -, hr, -, rfl⟩ := payPowerDown_ok h
  have hn := hd.account _ (contains_of_get? ha)
  have hroutes : ∀ r ∈ (l.state.withdrawRoutes.getD n ∅).values, d.account r.target := by
    intro r hr
    obtain ⟨e, he, rfl⟩ := List.mem_map.1 hr
    have hplaced := (hs.withdrawRoutes.getD_of ⟨hn, .empty⟩).2 _ _ (mem_entries_iff.1 he)
    exact hplaced.target ▸ hplaced.known
  have routed := (hr.placed hroutes hs).applyProxyEffects effects
  have paid : (((l₁.state.applyProxyEffects effects).debitExpertise n commonDiscipline
      a.nextPayment).credit n (a.nextPayment - sum)).Placed d := routed.debitExpertise.credit
  refine paid.modifyAccount fun b hb => hb.of_ties ?_
  unfold Account.afterPayment
  rfl

end LedgerM

theorem Change.placed (h : Change l l') (hl : l.state.Linked)
    (hs : l.state.Placed l.state.directory) : l'.state.Placed l'.state.directory := by
  have hd := h.directory
  have hs := hs.mono hd
  cases h with
  | operation h => exact h.placed hl hs
  | reward h =>
    have hdisciplines : l.state.disciplines.All fun _ x => l.state.directory.discipline x.id :=
      fun k x hx => by
        obtain rfl := hl.disciplines k x hx
        exact contains_of_get? hx
    exact hs.applyReward (h.gives hs.authored (hdisciplines.mono fun _ _ h => hd.discipline _ h))
  | payment h => exact LedgerM.payPowerDown_placed h hd hs
  | upkeep h => exact h.placed hs

theorem State.Founds.directory (h : Founds genesis s s') : s.directory.Within s'.directory := by
  cases h with
  | discipline => exact { Directory.Within.refl s.directory with discipline := Within.insert }
  | account => exact { Directory.Within.refl s.directory with account := Within.insert }
  | witness => exact { Directory.Within.refl s.directory with witness := Within.insert }

namespace State.Placed

theorem empty (config : Config) : (empty config).Placed (empty config).directory where
  accounts := .empty
  authorities := .empty
  paired _ := rfl
  ownerHistory := .empty
  recoveryRequests := .empty
  partnerChanges := .empty
  withdrawRoutes := .empty
  delegations := .empty
  expiringDelegations := .empty
  expertTokens := .empty
  votes := .empty
  reviewVotes := .empty
  voteTotals := .empty
  common := contains_insert.2 (.inl rfl)
  disciplines := .insert .empty ⟨rfl, by simp [Discipline.fresh]⟩
  groups := .empty
  groupTokens := .empty
  researches := .empty
  researchTokens := .empty
  contents := .empty
  reviews := .empty
  witnesses := .empty
  witnessVotes := .empty
  grants := .empty
  proposals := .empty

theorem founds (h : Founds genesis s s') (hs : s.Placed s.directory) : s'.Placed s'.directory := by
  have hs := hs.mono h.directory
  cases h with
  | discipline _ hparent =>
    exact { hs with
      disciplines := hs.disciplines.insert ⟨rfl, fun p hp => Within.insert _ (hparent p hp)⟩ }
  | @account g _ _ _ _ _ he =>
    have hname : (s.accounts.insert g.name (g.account genesis.time)).contains g.name = true :=
      contains_insert.2 (.inl rfl)
    have haccount (d : Directory) : (g.account genesis.time).Placed d g.name := by
      refine { name := rfl, proxy := ?_, recoveryPartner := ?_ }
      · exact fun _ hm => nomatch hm
      · exact fun _ hm => nomatch hm
    have hkey (d : Directory) : (Authority.ofKey g.key).Known d :=
      fun _ hm => absurd hm List.not_mem_nil
    have hauthority (d : Directory) : g.authority.Placed d g.name := ⟨rfl, hkey d, hkey d, hkey d⟩
    have hnew := hs.insertAccount (haccount _) (hauthority _)
    rcases he with ⟨-, rfl⟩ | rfl
    · exact hnew
    · exact hnew.creditExpertise hname hs.common
  | witness ha => exact { hs with witnesses := hs.witnesses.insert ⟨rfl, contains_of_get? ha⟩ }

end State.Placed

theorem Ledger.Reachable.placed (h : l.Reachable config genesis) :
    l.state.Placed l.state.directory :=
  (h.invariant (P := fun l => l.state.Linked ∧ l.state.Placed l.state.directory)
    (fun _ h₀ => ⟨.ofGenesis (ofGenesis_ok h₀).1,
      State.ofGenesis_invariant (P := fun s => s.Placed s.directory) (ofGenesis_ok h₀).1
        (fun _ => .empty config) fun _ _ => State.Placed.founds⟩)
    fun _ _ hc hl => ⟨hc.linked hl.1, hc.placed hl.1 hl.2⟩).2

/-- What stands in its place does so on every way from a reachable ledger. -/
theorem Ledger.Reachable.placed_along {history : List (Ledger × Operation)}
    (h : l.Reachable config genesis) (hp : Passes l history l') :
    l'.state.Placed l'.state.directory :=
  (hp.invariant (P := fun l => l.state.Linked ∧ l.state.Placed l.state.directory)
    (fun _ _ hc hl => ⟨hc.linked hl.1, hc.placed hl.1 hl.2⟩) ⟨h.linked, h.placed⟩).2

end ResearchLedger
