import ResearchLedger.Proofs.Recoveries
import ResearchLedger.Proofs.StoredVotes

/-! Operations write only what is in range, one lemma for each kind. -/
namespace ResearchLedger

open SortedMap

variable {s : State} {l l' : Ledger} {now : Seconds}

theorem AccountCreate.stored {op : AccountCreate} (hop : (Operation.accountCreate op).InRange)
    (ht : now ≤ maxWord) (hs : s.Stored) : (op.commit now s).Stored := by
  obtain ⟨-, howner, hactive, hposting⟩ := hop
  have hd := hs.debit (n := op.creator) (x := op.fee.amount)
  have haccount : (op.account now).Stored := { Account.Stored.fresh op.name op.memoKey ht with }
  have hs' : State.Stored { s.debit op.creator op.fee.amount with
      accounts := (s.debit op.creator op.fee.amount).accounts.insert op.name (op.account now)
      authorities :=
        s.authorities.insert op.name ⟨op.name, op.owner, op.active, op.posting, 0⟩ } :=
    { hd with
      accounts := hd.accounts.insert haccount
      authorities := hs.authorities.insert ⟨howner, hactive, hposting, Nat.zero_le _⟩ }
  unfold AccountCreate.commit
  dsimp only
  split
  · exact hs'.creditExpertise (Nat.zero_le _) ht
  · exact hs'

theorem AccountUpdate.stored {op : AccountUpdate} (hop : (Operation.accountUpdate op).InRange)
    (ht : now ≤ maxWord) (hs : s.Stored) : (op.commit now s).Stored := by
  obtain ⟨howner, hactive, hposting⟩ := hop
  have hrest (s : State) (hs : s.Stored) : (State.modifyAccount { s with
      authorities := s.authorities.modify op.account fun a =>
        { a with active := op.active.getD a.active, posting := op.posting.getD a.posting } }
      op.account fun a => { a with memoKey := op.memoKey, metadata := op.metadata }).Stored := by
    refine State.Stored.modifyAccount { hs with authorities := hs.authorities.modify fun a ha => ?_ }
      fun _ _ ha => { ha with }
    refine { ha with active := ?_, posting := ?_ }
    · cases hget : op.active with
      | none => exact ha.active
      | some active => exact hactive active hget
    · cases hget : op.posting with
      | none => exact ha.posting
      | some posting => exact hposting posting hget
  unfold AccountUpdate.commit
  cases hget : op.owner with
  | none => exact hrest s hs
  | some owner => exact hrest _ (hs.replaceOwner (howner owner hget) ht)

theorem TransferToCommonTokens.stored {op : TransferToCommonTokens} (ht : now ≤ maxWord)
    (effects : ProxyEffects) (hs : s.Stored) : (op.commit now effects s).Stored :=
  ((hs.debit.stake).creditExpertise (Nat.zero_le _) ht).applyProxyEffects effects

theorem WithdrawCommonTokens.stored {op : WithdrawCommonTokens} {schedule : PowerDown}
    (hop : (Operation.withdrawCommonTokens op).InRange) (h : op.plan now s = .ok schedule)
    (hs : s.Stored) : (op.commit schedule s).Stored := by
  refine hs.modifyAccount fun a _ ha => ?_
  obtain ⟨-, h₀, ⟨-, rfl⟩ | ⟨-, rfl⟩⟩ := plan_cases h
  · exact { ha with
      rate := Amount.max_nonneg
      next := le_refl maxWord
      total := Amount.max_nonneg
      withdrawn := le_refl (0 : Amount) }
  · exact { ha with
      rate := max_le ((Int.ediv_le_self _ h₀).trans hop.2) (by decide)
      next := Seconds.after_le _ _
      total := hop.2
      withdrawn := le_refl (0 : Amount) }

theorem SetWithdrawRoute.plan_create {op : SetWithdrawRoute} (h : op.plan s = .ok .create) :
    ∃ a, s.accounts.get? op.source = some a ∧ a.withdrawRoutes < s.config.maxWithdrawRoutes := by
  unfold SetWithdrawRoute.plan at h
  obtain ⟨a, ha, h⟩ := bind_eq_ok.1 h
  obtain ⟨_, -, h⟩ := bind_eq_ok.1 h
  obtain ⟨-, h⟩ := guard_bind_eq_ok.1 h
  refine ⟨a, State.account_eq_ok.1 ha, ?_⟩
  dsimp only at h
  split at h
  · obtain ⟨p, hp, h⟩ := bind_eq_ok.1 h
    obtain ⟨-, h⟩ := guard_bind_eq_ok.1 h
    cases h
    split at hp <;> cases hp
  · obtain ⟨-, h⟩ := guard_bind_eq_ok.1 h
    exact Nat.not_le.1 (guard_bind_eq_ok.1 h).1

theorem SetWithdrawRoute.stored {op : SetWithdrawRoute} {plan : SetWithdrawRoute.Plan}
    (h : op.plan s = .ok plan) (hs : s.Stored) : (op.commit plan s).Stored := by
  have hstore : (op.store s).Stored := { hs with }
  cases plan with
  | create =>
    obtain ⟨a, ha, hlt⟩ := plan_create h
    refine hstore.modifyAccount fun b hb hb' => ?_
    obtain rfl := Option.some.inj (ha.symm.trans hb)
    exact { hb' with withdrawRoutes := (Nat.succ_le_of_lt hlt).trans hs.config.maxWithdrawRoutes }
  | change => exact hstore
  | remove =>
    have hclear : (op.clear s).Stored := by
      unfold SetWithdrawRoute.clear
      dsimp only
      split <;> exact { hs with }
    exact hclear.modifyAccount fun a _ ha =>
      { ha with withdrawRoutes := (Nat.sub_le _ _).trans ha.withdrawRoutes }

theorem DelegateCommonTokens.stored {op : DelegateCommonTokens} {plan : DelegateCommonTokens.Plan}
    (hop : (Operation.delegateCommonTokens op).InRange) (ht : now ≤ maxWord)
    (hn : (plan.commit s).nextIds.InRange) (h : op.plan now s = .ok plan) (hs : s.Stored) :
    (plan.commit s).Stored := by
  obtain ⟨-, -, a, -, hadmits⟩ := plan_ok h
  have hlent : State.Stored { s with
      delegations := s.delegations.insert (op.delegator, op.delegatee)
        ⟨op.delegator, op.delegatee, op.amount, now⟩ } :=
    { hs with delegations := hs.delegations.insert (.mk hop ht) }
  have hended : State.Stored { s with
      delegations := s.delegations.erase (op.delegator, op.delegatee) } :=
    { hs with delegations := hs.delegations.erase }
  have haccounts (s : State) (hs : s.Stored) {x y : Amount} : ((s.modifyAccount op.delegator
      fun a => { a with delegated := a.delegated + x }).modifyAccount op.delegatee
      fun a => { a with received := a.received + y }).Stored := by
    refine State.Stored.modifyAccount (hs.modifyAccount fun _ _ ha => ?_) fun _ _ ha => ?_
    · exact { ha with }
    · exact { ha with }
  cases hadmits with
  | grow =>
    exact haccounts _ hlent
  | shrink h₀ hlt =>
    have hloan : s.loan (op.delegator, op.delegatee) ≤ Amount.max := by
      unfold State.loan
      cases hget : s.delegations.get? (op.delegator, op.delegatee) with
      | none => exact Amount.max_nonneg
      | some d => exact (hs.delegations _ _ hget).amount.2
    have hback : Amount.Fits (s.loan (op.delegator, op.delegatee) - op.amount) :=
      .of_nonneg (Int.sub_nonneg_of_le hlt.le) ((Int.sub_le_self _ h₀).trans hloan)
    have henqueue (s' : State) (hs' : s'.Stored)
        (hn : s'.nextIds.expiringDelegation ≤ maxWord) : (Plan.enqueue ⟨op.delegator,
          s.loan (op.delegator, op.delegatee) - op.amount,
          now.after s.config.delegationReturnPeriod⟩ s').Stored :=
      { hs' with
        expiringDelegations := hs'.expiringDelegations.insert
          ⟨Seconds.after_le _ _, hn, hback, Seconds.after_le _ _⟩ }
    by_cases hp : 0 < op.amount
    · simp only [if_pos hp] at hn ⊢
      exact henqueue _ (haccounts _ hlent) ((Nat.le_succ _).trans hn.expiringDelegation)
    · simp only [if_neg hp] at hn ⊢
      exact henqueue _ (haccounts _ hended) ((Nat.le_succ _).trans hn.expiringDelegation)

theorem SetWitnessProxy.Plan.stored (p : SetWitnessProxy.Plan) (hs : s.Stored) :
    (p.commit s).Stored := by
  have he := hs.applyProxyEffects p.effects
  unfold SetWitnessProxy.Plan.commit
  dsimp only
  split
  · exact he.modifyAccount fun _ _ ha => { ha with }
  · exact State.Stored.modifyAccount { he with } fun _ _ ha =>
      { ha with witnessesVotedFor := Nat.zero_le _ }

theorem WitnessUpdate.stored {op : WitnessUpdate} (hop : (Operation.witnessUpdate op).InRange)
    (ht : now ≤ maxWord) (hs : s.Stored) : (op.commit now s).Stored := by
  have hold : (s.witnesses.getD op.owner (.fresh op.owner .empty now)).InRange :=
    hs.witnesses.getD_of ⟨.default, show Amount.Fits 0 by decide, ht⟩
  exact { hs with witnesses := hs.witnesses.insert { hold with properties := hop } }

theorem WitnessVote.plan_approve {op : WitnessVote} {weight : Amount} (h : op.plan s = .ok weight)
    (happrove : op.approve = true) : ∃ a, s.accounts.get? op.account = some a ∧
      a.witnessesVotedFor < s.config.maxWitnessVotes := by
  unfold WitnessVote.plan at h
  obtain ⟨a, ha, h⟩ := bind_eq_ok.1 h
  obtain ⟨-, h⟩ := guard_bind_eq_ok.1 h
  obtain ⟨_, -, h⟩ := bind_eq_ok.1 h
  rw [if_pos happrove] at h
  obtain ⟨-, h⟩ := guard_bind_eq_ok.1 h
  obtain ⟨-, h⟩ := guard_bind_eq_ok.1 h
  exact ⟨a, State.account_eq_ok.1 ha, Nat.not_le.1 (guard_bind_eq_ok.1 h).1⟩

theorem WitnessVote.stored {op : WitnessVote} {weight : Amount} (h : op.plan s = .ok weight)
    (hs : s.Stored) : (op.commit weight s).Stored := by
  have hvotes (x : Amount) : State.Stored { s with
      witnesses := s.witnesses.modify op.witness (·.addVotes x) } :=
    { hs with witnesses := hs.witnesses.modify fun _ hw => { hw with votes := Amount.fits_clamp _ } }
  unfold WitnessVote.commit
  cases happrove : op.approve with
  | true =>
    obtain ⟨a, ha, hlt⟩ := plan_approve h happrove
    have hcount : (State.modifyAccount { s with
        witnesses := s.witnesses.modify op.witness (·.addVotes weight) } op.account
        fun a => { a with witnessesVotedFor := a.witnessesVotedFor + 1 }).Stored := by
      refine (hvotes weight).modifyAccount fun b hb hb' => ?_
      obtain rfl := Option.some.inj (ha.symm.trans hb)
      exact { hb' with
        witnessesVotedFor := (Nat.succ_le_of_lt hlt).trans hs.config.maxWitnessVotes }
    exact { hcount with }
  | false =>
    have hcount : (State.modifyAccount { s with
        witnesses := s.witnesses.modify op.witness (·.addVotes (-weight)) } op.account
        fun a => { a with witnessesVotedFor := a.witnessesVotedFor - 1 }).Stored :=
      (hvotes (-weight)).modifyAccount fun _ _ ha =>
        { ha with witnessesVotedFor := (Nat.sub_le _ _).trans ha.witnessesVotedFor }
    dsimp only
    split
    · cases ‹false = true›
    · split <;> exact { hcount with }

theorem RequestRecovery.stored {op : RequestRecovery} {plan : RequestRecovery.Plan}
    (hop : (Operation.requestRecovery op).InRange) (h : op.plan now s = .ok plan) (hs : s.Stored) :
    (plan.commit s).Stored := by
  obtain ⟨-, rfl | ⟨-, -, rfl⟩⟩ := plan_ok h
  · exact { hs with recoveryRequests := hs.recoveryRequests.erase }
  · exact { hs with recoveryRequests := hs.recoveryRequests.insert ⟨hop, Seconds.after_le _ _⟩ }

theorem RecoverAccount.stored {op : RecoverAccount} (hop : (Operation.recoverAccount op).InRange)
    (ht : now ≤ maxWord) (hs : s.Stored) : (op.commit now s).Stored := by
  have hdone : State.Stored { s with recoveryRequests := s.recoveryRequests.erase op.account } :=
    { hs with recoveryRequests := hs.recoveryRequests.erase }
  exact (hdone.replaceOwner hop.1 ht).modifyAccount fun _ _ ha => { ha with lastRecovery := ht }

theorem ChangeRecoveryPartner.stored {op : ChangeRecoveryPartner} {plan : ChangeRecoveryPartner.Plan}
    (h : op.plan now s = .ok plan) (hs : s.Stored) : (plan.commit s).Stored := by
  obtain ⟨-, -, rfl | rfl⟩ := plan_ok h
  · exact { hs with partnerChanges := hs.partnerChanges.erase }
  · exact { hs with partnerChanges := hs.partnerChanges.insert ⟨Seconds.after_le _ _⟩ }

theorem CreateGroup.stored {op : CreateGroup} (hop : (Operation.createGroup op).InRange)
    (hn : (op.commit s).nextIds.InRange) (hs : s.Stored) : (op.commit s).Stored := by
  have hid : s.nextIds.group ≤ maxWord := (Nat.le_succ _).trans hn.group
  have htokens : (s.groupTokens.getD s.nextIds.group ∅).All fun _ n => n ≤ maxWord32 :=
    (hs.groupTokens.getD_of ⟨hid, .empty⟩).2
  exact { hs with
    groupPermlinks := hs.groupPermlinks.insert hid
    groupTokens := hs.groupTokens.insert
      ⟨hid, htokens.insert (show wholePercent ≤ maxWord32 by decide)⟩
    groups := hs.groups.insert ⟨hid, hid, hop, show wholePercent ≤ maxWord32 by decide,
      show Amount.Fits 0 by decide⟩ }

theorem CreateResearch.stored {op : CreateResearch} (hop : (Operation.createResearch op).InRange)
    (ht : now ≤ maxWord) (hn : (op.commit now s).nextIds.InRange) (hs : s.Stored) :
    (op.commit now s).Stored := by
  have hid : s.nextIds.research ≤ maxWord := (Nat.le_succ _).trans hn.research
  obtain ⟨hgroup, hshare, hdisciplines⟩ := hop
  have hds : (SortedSet.ofKeys op.disciplines).All fun d _ => d ≤ maxWord := by
    refine SortedMap.All.ofList fun e he => ?_
    obtain ⟨d, hd, rfl⟩ := List.mem_map.1 he
    exact hdisciplines d hd
  exact { hs with
    researchPermlinks := hs.researchPermlinks.insert ⟨hgroup, hid⟩
    researches := hs.researches.insert
      ⟨hid, hid, hgroup, show wholePercent ≤ maxWord16 by decide, hshare, hds, ht⟩ }

theorem CreateContent.stored {op : CreateContent} (hop : (Operation.createContent op).InRange)
    (ht : now ≤ maxWord) (hn : (op.commit now s).nextIds.InRange) (hs : s.Stored) :
    (op.commit now s).Stored := by
  have hid : s.nextIds.content ≤ maxWord := (Nat.le_succ _).trans hn.content
  obtain ⟨hresearch, hreferences⟩ := hop
  exact { hs with
    contentPermlinks := hs.contentPermlinks.insert ⟨hresearch, hid⟩
    contents := hs.contents.insert
      ⟨hid, hid, hresearch, hreferences, ht, Seconds.after_le _ _⟩ }

theorem TransferResearchTokens.stored (op : TransferResearchTokens) (hs : s.Stored) :
    (op.commit s).Stored := by
  unfold TransferResearchTokens.commit
  split
  · exact { hs with
      researches := hs.researches.modify fun _ hr =>
        ⟨hr.1, { hr.2 with ownedTokens := (Nat.sub_le _ _).trans hr.2.ownedTokens }⟩ }
  · exact { hs with }

theorem AddExpertise.stored {op : AddExpertise} (hop : (Operation.addExpertise op).InRange)
    (ht : now ≤ maxWord) (hs : s.Stored) : (op.commit now s).Stored :=
  hs.foldl_creditExpertise (fun x hx => (hop x hx).1) ht

theorem CreateGrant.plan_inRange {op : CreateGrant} {block : Nat} {g : Grant}
    (hop : (Operation.createGrant op).InRange) (hid : s.nextIds.grant ≤ maxWord)
    (h : op.plan block s = .ok g) : g.InRange := by
  unfold CreateGrant.plan at h
  obtain ⟨_, -, h⟩ := bind_eq_ok.1 h
  obtain ⟨hp, h⟩ := guard_bind_eq_ok.1 h
  obtain ⟨_, -, h⟩ := bind_eq_ok.1 h
  obtain ⟨-, h⟩ := guard_bind_eq_ok.1 h
  obtain ⟨_, -, h⟩ := bind_eq_ok.1 h
  cases h
  obtain ⟨hdiscipline, hamount, hstart, hend⟩ := hop
  have hpart : op.perBlock ≤ Amount.max :=
    max_le ((Int.ediv_le_self _ (Int.not_le.1 hp).le).trans hamount.amount.2) (by decide)
  exact ⟨hid, hdiscipline, hamount.amount, .of_nonneg (le_max_of_le_right (by decide)) hpart,
    hstart, hend⟩

theorem CreateGrant.stored {op : CreateGrant} {block : Nat} {g : Grant}
    (hop : (Operation.createGrant op).InRange) (hn : (g.commit s).nextIds.InRange)
    (h : op.plan block s = .ok g) (hs : s.Stored) : (g.commit s).Stored := by
  have hid : s.nextIds.grant ≤ maxWord := (Nat.le_succ _).trans hn.grant
  have hg := plan_inRange hop hid h
  have hd := hs.debit (n := g.owner) (x := g.amount)
  exact { hd with grants := hs.grants.insert ⟨hg.id, hg⟩ }

theorem CreateProposal.stored {op : CreateProposal} {p : Proposal}
    (hop : (Operation.createProposal op).InRange) (ht : now ≤ maxWord)
    (hn : (p.commit s).nextIds.InRange) (h : op.plan now s = .ok p) (hs : s.Stored) :
    (p.commit s).Stored := by
  have hid : s.nextIds.proposal ≤ maxWord := (Nat.le_succ _).trans hn.proposal
  obtain ⟨-, g, hg, rfl⟩ := plan_ok h
  have hg := (hs.groups _ _ hg).2
  have hp := hs.proposals.insert (k := s.nextIds.proposal)
    (v := ⟨_, _, op.creator, op.data, _, .active, ∅, 0, _, _⟩)
    ⟨hid, hid, hop.1, hg.quorumPercent, Nat.zero_le _, ht, hop.2⟩
  exact { hs with proposals := hp }

theorem VoteForProposal.stored {op : VoteForProposal} {plan : VoteForProposal.Plan}
    (h : op.plan now s = .ok plan) (hs : s.Stored) : (plan.commit s).Stored := by
  obtain ⟨-, -, hvoted⟩ := plan_ok h
  exact { hs with proposals := hs.proposals.modify fun _ hp =>
    ⟨hp.1, { hp.2 with totalVoted := hvoted }⟩ }

theorem MakeReview.nextIds_commit (plan : MakeReview.Plan) (l : Ledger) :
    (plan.commit l).state.nextIds =
      { l.state.nextIds with review := l.state.nextIds.review + 1 } := by
  unfold MakeReview.Plan.commit
  obtain ⟨_, _, _, _, _, h⟩ := ContentVotePlan.foldl_commit plan.votes (plan.record l)
  exact congrArg (·.state.nextIds) h

/-- An operation whose numbers are in range leaves a state that is, as long as the counters are. -/
theorem Operation.Effect.stored {op : Operation} (h : op.Effect l l') (hop : op.InRange)
    (hc : l.state.config.validate = .ok ()) (ht : l.head.time ≤ maxWord)
    (hn : l'.state.nextIds.InRange) (hs : l.state.Stored) : l'.state.Stored := by
  cases h with
  | accountCreate => exact AccountCreate.stored hop ht hs
  | accountUpdate => exact AccountUpdate.stored hop ht hs
  | transfer => exact hs.debit.credit
  | transferToCommonTokens => exact TransferToCommonTokens.stored ht _ hs
  | withdrawCommonTokens h => exact WithdrawCommonTokens.stored hop h hs
  | setWithdrawRoute h => exact SetWithdrawRoute.stored h hs
  | delegateCommonTokens h => exact DelegateCommonTokens.stored hop ht hn h hs
  | @setWitnessProxy _ plan h => exact plan.stored hs
  | witnessUpdate => exact WitnessUpdate.stored hop ht hs
  | witnessVote h => exact WitnessVote.stored h hs
  | requestRecovery h => exact RequestRecovery.stored hop h hs
  | recoverAccount => exact RecoverAccount.stored hop ht hs
  | changeRecoveryPartner h => exact ChangeRecoveryPartner.stored h hs
  | voteForContent h => exact (VoteForContent.plan_inRange hs hc ht h).stored hs ht
  | voteForReview h => exact (VoteForReview.plan_inRange hs hc ht h).stored hs ht
  | makeReview h =>
    have hid : l.state.nextIds.review ≤ maxWord :=
      (Nat.le_succ _).trans (MakeReview.nextIds_commit .. ▸ hn).review
    obtain ⟨hr, hv⟩ := MakeReview.plan_inRange hs hc ht hid h
    exact MakeReview.Plan.stored hr hv hs ht
  | createGroup => exact CreateGroup.stored hop hn hs
  | createResearch => exact CreateResearch.stored hop ht hn hs
  | createContent => exact CreateContent.stored hop ht hn hs
  | @transferResearchTokens op => exact op.stored hs
  | addExpertise => exact AddExpertise.stored hop ht hs
  | createGrant h => exact CreateGrant.stored hop hn h hs
  | createProposal h => exact CreateProposal.stored hop ht hn h hs
  | voteForProposal h => exact VoteForProposal.stored h hs

end ResearchLedger
