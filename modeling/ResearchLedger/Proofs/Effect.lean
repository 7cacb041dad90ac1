import ResearchLedger.Proofs.Computation
import ResearchLedger.Transaction

/-! What an accepted operation does to the ledger, and which stores it leaves alone. -/
namespace ResearchLedger

/-- An accepted operation with its check and its commit, one case per kind. -/
inductive Operation.Effect (l : Ledger) : Operation → Ledger → Prop
  | accountCreate {op : AccountCreate} (h : op.check l.state = .ok ()) :
      Effect l (.accountCreate op) { l with state := op.commit l.head.time l.state }
  | accountUpdate {op : AccountUpdate} (h : op.check l.head.time l.state = .ok ()) :
      Effect l (.accountUpdate op) { l with state := op.commit l.head.time l.state }
  | transfer {op : Transfer} (h : op.check l.state = .ok ()) :
      Effect l (.transfer op) { l with state := op.commit l.state }
  | transferToCommonTokens {op : TransferToCommonTokens} {effects : ProxyEffects}
      (h : op.plan l.state = .ok effects) :
      Effect l (.transferToCommonTokens op)
        { l with state := op.commit l.head.time effects l.state }
  | withdrawCommonTokens {op : WithdrawCommonTokens} {schedule : PowerDown}
      (h : op.plan l.head.time l.state = .ok schedule) :
      Effect l (.withdrawCommonTokens op) { l with state := op.commit schedule l.state }
  | setWithdrawRoute {op : SetWithdrawRoute} {plan : SetWithdrawRoute.Plan}
      (h : op.plan l.state = .ok plan) :
      Effect l (.setWithdrawRoute op) { l with state := op.commit plan l.state }
  | delegateCommonTokens {op : DelegateCommonTokens} {plan : DelegateCommonTokens.Plan}
      (h : op.plan l.head.time l.state = .ok plan) :
      Effect l (.delegateCommonTokens op) { l with state := plan.commit l.state }
  | setWitnessProxy {op : SetWitnessProxy} {plan : SetWitnessProxy.Plan}
      (h : op.plan l.state = .ok plan) :
      Effect l (.setWitnessProxy op) { l with state := plan.commit l.state }
  | witnessUpdate {op : WitnessUpdate} (h : op.check l.state = .ok ()) :
      Effect l (.witnessUpdate op) { l with state := op.commit l.head.time l.state }
  | witnessVote {op : WitnessVote} {weight : Amount} (h : op.plan l.state = .ok weight) :
      Effect l (.witnessVote op) { l with state := op.commit weight l.state }
  | requestRecovery {op : RequestRecovery} {plan : RequestRecovery.Plan}
      (h : op.plan l.head.time l.state = .ok plan) :
      Effect l (.requestRecovery op) { l with state := plan.commit l.state }
  | recoverAccount {op : RecoverAccount} (h : op.check l.head.time l.state = .ok ()) :
      Effect l (.recoverAccount op) { l with state := op.commit l.head.time l.state }
  | changeRecoveryPartner {op : ChangeRecoveryPartner} {plan : ChangeRecoveryPartner.Plan}
      (h : op.plan l.head.time l.state = .ok plan) :
      Effect l (.changeRecoveryPartner op) { l with state := plan.commit l.state }
  | voteForContent {op : VoteForContent} {plan : ContentVotePlan}
      (h : op.plan l.head l.state = .ok plan) : Effect l (.voteForContent op) (plan.commit l)
  | voteForReview {op : VoteForReview} {plan : VoteForReview.Plan}
      (h : op.plan l.head.time l.state = .ok plan) :
      Effect l (.voteForReview op) { l with state := plan.commit l.head.time l.state }
  | makeReview {op : MakeReview} {plan : MakeReview.Plan} (h : op.plan l.head l.state = .ok plan) :
      Effect l (.makeReview op) (plan.commit l)
  | createGroup {op : CreateGroup} (h : op.check l.state = .ok ()) :
      Effect l (.createGroup op) { l with state := op.commit l.state }
  | createResearch {op : CreateResearch} (h : op.check l.state = .ok ()) :
      Effect l (.createResearch op) { l with state := op.commit l.head.time l.state }
  | createContent {op : CreateContent} (h : op.check l.state = .ok ()) :
      Effect l (.createContent op) { l with state := op.commit l.head.time l.state }
  | transferResearchTokens {op : TransferResearchTokens} (h : op.check l.state = .ok ()) :
      Effect l (.transferResearchTokens op) { l with state := op.commit l.state }
  | addExpertise {op : AddExpertise} (h : op.check l.state = .ok ()) :
      Effect l (.addExpertise op) { l with state := op.commit l.head.time l.state }
  | createGrant {op : CreateGrant} {grant : Grant} (h : op.plan l.head.block l.state = .ok grant) :
      Effect l (.createGrant op) { l with state := grant.commit l.state }
  | createProposal {op : CreateProposal} {proposal : Proposal}
      (h : op.plan l.head.time l.state = .ok proposal) :
      Effect l (.createProposal op) { l with state := proposal.commit l.state }
  | voteForProposal {op : VoteForProposal} {plan : VoteForProposal.Plan}
      (h : op.plan l.head.time l.state = .ok plan) :
      Effect l (.voteForProposal op) { l with state := plan.commit l.state }

/-- The stores that each kind of operation may write. -/
inductive Operation.Footprint (l : Ledger) : Operation → Ledger → Prop
  | accountCreate {op} (accounts authorities expertTokens) : Footprint l (.accountCreate op)
      { l with state := { l.state with accounts, authorities, expertTokens } }
  | accountUpdate {op} (accounts authorities ownerHistory) : Footprint l (.accountUpdate op)
      { l with state := { l.state with accounts, authorities, ownerHistory } }
  | transfer {op} (accounts) : Footprint l (.transfer op)
      { l with state := { l.state with accounts } }
  | transferToCommonTokens {op} (accounts expertTokens witnesses) :
      Footprint l (.transferToCommonTokens op)
        { l with state := { l.state with accounts, expertTokens, witnesses } }
  | withdrawCommonTokens {op} (accounts) : Footprint l (.withdrawCommonTokens op)
      { l with state := { l.state with accounts } }
  | setWithdrawRoute {op} (accounts withdrawRoutes) : Footprint l (.setWithdrawRoute op)
      { l with state := { l.state with accounts, withdrawRoutes } }
  | delegateCommonTokens {op} (accounts delegations expiringDelegations number) :
      Footprint l (.delegateCommonTokens op)
        { l with state := { l.state with
            accounts, delegations, expiringDelegations
            nextIds := { l.state.nextIds with expiringDelegation := number } } }
  | setWitnessProxy {op} (accounts witnesses witnessVotes) : Footprint l (.setWitnessProxy op)
      { l with state := { l.state with accounts, witnesses, witnessVotes } }
  | witnessUpdate {op} (witnesses) : Footprint l (.witnessUpdate op)
      { l with state := { l.state with witnesses } }
  | witnessVote {op} (accounts witnesses witnessVotes) : Footprint l (.witnessVote op)
      { l with state := { l.state with accounts, witnesses, witnessVotes } }
  | requestRecovery {op} (recoveryRequests) : Footprint l (.requestRecovery op)
      { l with state := { l.state with recoveryRequests } }
  | recoverAccount {op} (accounts authorities ownerHistory recoveryRequests) :
      Footprint l (.recoverAccount op)
        { l with state := { l.state with accounts, authorities, ownerHistory, recoveryRequests } }
  | changeRecoveryPartner {op} (partnerChanges) : Footprint l (.changeRecoveryPartner op)
      { l with state := { l.state with partnerChanges } }
  | voteForContent {op} (expertTokens disciplines voteTotals votes activeWeight) :
      Footprint l (.voteForContent op)
        { state := { l.state with expertTokens, disciplines, voteTotals, votes }
          head := { l.head with activeWeight } }
  | voteForReview {op} (expertTokens disciplines reviews reviewVotes) :
      Footprint l (.voteForReview op)
        { l with state := { l.state with expertTokens, disciplines, reviews, reviewVotes } }
  | makeReview {op} (expertTokens disciplines voteTotals votes reviews reviewsByContent review
      activeWeight) :
      Footprint l (.makeReview op)
        { state := { l.state with
            expertTokens, disciplines, voteTotals, votes, reviews, reviewsByContent
            nextIds := { l.state.nextIds with review } }
          head := { l.head with activeWeight } }
  | createGroup {op} (groups groupTokens groupPermlinks group) : Footprint l (.createGroup op)
      { l with state := { l.state with
          groups, groupTokens, groupPermlinks, nextIds := { l.state.nextIds with group } } }
  | createResearch {op} (researches researchPermlinks research) : Footprint l (.createResearch op)
      { l with state := { l.state with
          researches, researchPermlinks, nextIds := { l.state.nextIds with research } } }
  | createContent {op} (contents contentPermlinks content) : Footprint l (.createContent op)
      { l with state := { l.state with
          contents, contentPermlinks, nextIds := { l.state.nextIds with content } } }
  | transferResearchTokens {op} (researches researchTokens) :
      Footprint l (.transferResearchTokens op)
        { l with state := { l.state with researches, researchTokens } }
  | addExpertise {op} (expertTokens) : Footprint l (.addExpertise op)
      { l with state := { l.state with expertTokens } }
  | createGrant {op} (accounts grants grant) : Footprint l (.createGrant op)
      { l with state := { l.state with
          accounts, grants, nextIds := { l.state.nextIds with grant } } }
  | createProposal {op} (proposals proposal) : Footprint l (.createProposal op)
      { l with state := { l.state with
          proposals, nextIds := { l.state.nextIds with proposal } } }
  | voteForProposal {op} (proposals) : Footprint l (.voteForProposal op)
      { l with state := { l.state with proposals } }

variable {l l' : Ledger} {op : Operation} {events : List Event}

theorem Operation.effect_of_run (h : op.run l = .ok (l', events)) : op.Effect l l' := by
  cases op <;> obtain ⟨plan, hplan, h⟩ := bind_eq_ok.1 h <;> cases h
  case accountCreate => exact .accountCreate hplan
  case accountUpdate => exact .accountUpdate hplan
  case transfer => exact .transfer hplan
  case transferToCommonTokens => exact .transferToCommonTokens hplan
  case withdrawCommonTokens => exact .withdrawCommonTokens hplan
  case setWithdrawRoute => exact .setWithdrawRoute hplan
  case delegateCommonTokens => exact .delegateCommonTokens hplan
  case setWitnessProxy => exact .setWitnessProxy hplan
  case witnessUpdate => exact .witnessUpdate hplan
  case witnessVote => exact .witnessVote hplan
  case requestRecovery => exact .requestRecovery hplan
  case recoverAccount => exact .recoverAccount hplan
  case changeRecoveryPartner => exact .changeRecoveryPartner hplan
  case voteForContent => exact .voteForContent hplan
  case voteForReview => exact .voteForReview hplan
  case makeReview => exact .makeReview hplan
  case createGroup => exact .createGroup hplan
  case createResearch => exact .createResearch hplan
  case createContent => exact .createContent hplan
  case transferResearchTokens => exact .transferResearchTokens hplan
  case addExpertise => exact .addExpertise hplan
  case createGrant => exact .createGrant hplan
  case createProposal => exact .createProposal hplan
  case voteForProposal => exact .voteForProposal hplan

/-- A fold of changes to the accounts changes the accounts alone. -/
theorem State.foldl_modifyAccount {α : Type} (name : α → AccountName) (f : α → Account → Account)
    (xs : List α) (s : State) :
    xs.foldl (fun s x => s.modifyAccount (name x) (f x)) s =
      { s with accounts := xs.foldl (fun m x => m.modify (name x) (f x)) s.accounts } := by
  induction xs generalizing s with
  | nil => rfl
  | cons x xs ih => rw [List.foldl_cons, ih]; rfl

theorem State.applyProxyEffects_eq (s : State) (e : ProxyEffects) :
    s.applyProxyEffects e = { s with
      accounts := e.proxied.entries.foldl (fun m x => m.modify x.1 (·.addProxied x.2)) s.accounts
      witnesses :=
        e.witnessVotes.entries.foldl (fun m x => m.modify x.1 (·.addVotes x.2)) s.witnesses } := by
  simp only [applyProxyEffects, foldl_modifyAccount]

theorem State.foldl_creditExpertise {α : Type} (name : α → AccountName) (d : α → DisciplineId)
    (amount : α → Amount) (now : Seconds) (xs : List α) (s : State) :
    ∃ expertTokens, xs.foldl (fun s x => s.creditExpertise (name x) (d x) (amount x) now) s =
      { s with expertTokens } := by
  induction xs generalizing s with
  | nil => exact ⟨_, rfl⟩
  | cons x xs ih =>
    obtain ⟨expertTokens, h⟩ := ih (s.creditExpertise (name x) (d x) (amount x) now)
    exact ⟨expertTokens, h⟩

theorem ContentVotePlan.foldl_commit (ps : List ContentVotePlan) (l : Ledger) :
    ∃ expertTokens disciplines voteTotals votes activeWeight,
      ps.foldl (fun l v => v.commit l) l =
        { state := { l.state with expertTokens, disciplines, voteTotals, votes }
          head := { l.head with activeWeight } } := by
  induction ps generalizing l with
  | nil => exact ⟨_, _, _, _, _, rfl⟩
  | cons p ps ih =>
    obtain ⟨expertTokens, disciplines, voteTotals, votes, activeWeight, h⟩ := ih (p.commit l)
    exact ⟨expertTokens, disciplines, voteTotals, votes, activeWeight, h⟩

theorem Operation.Effect.footprint (h : op.Effect l l') : op.Footprint l l' := by
  cases h with
  | accountCreate =>
    unfold AccountCreate.commit
    split <;> exact .accountCreate _ _ _
  | @accountUpdate op _ =>
    unfold AccountUpdate.commit State.replaceOwner
    cases op.owner with
    | none => exact .accountUpdate _ _ _
    | some owner => cases l.state.authorities.get? op.account <;> exact .accountUpdate _ _ _
  | transfer => exact .transfer _
  | transferToCommonTokens =>
    unfold TransferToCommonTokens.commit
    rw [State.applyProxyEffects_eq]
    exact .transferToCommonTokens _ _ _
  | withdrawCommonTokens => exact .withdrawCommonTokens _
  | @setWithdrawRoute op plan _ =>
    cases plan with
    | create => exact .setWithdrawRoute _ _
    | change => exact .setWithdrawRoute _ _
    | remove =>
      unfold SetWithdrawRoute.commit SetWithdrawRoute.clear
      dsimp only
      split <;> exact .setWithdrawRoute _ _
  | @delegateCommonTokens op plan _ =>
    obtain ⟨delegator, delegatee, delegation, _, _, expiring⟩ := plan
    cases delegation <;> cases expiring <;> exact .delegateCommonTokens _ _ _ _
  | setWitnessProxy =>
    unfold SetWitnessProxy.Plan.commit
    rw [State.applyProxyEffects_eq]
    dsimp only
    split <;> exact .setWitnessProxy _ _ _
  | witnessUpdate => exact .witnessUpdate _
  | @witnessVote op _ _ =>
    unfold WitnessVote.commit
    cases op.approve with
    | true => exact .witnessVote _ _ _
    | false =>
      dsimp only
      split
      · exact .witnessVote _ _ _
      · split <;> exact .witnessVote _ _ _
  | @requestRecovery op plan _ =>
    cases plan <;> exact .requestRecovery _
  | @recoverAccount op _ =>
    unfold RecoverAccount.commit State.replaceOwner
    dsimp only
    split <;> exact .recoverAccount _ _ _ _
  | @changeRecoveryPartner op plan _ =>
    cases plan <;> exact .changeRecoveryPartner _
  | voteForContent => exact .voteForContent _ _ _ _ _
  | voteForReview => exact .voteForReview _ _ _ _
  | makeReview =>
    unfold MakeReview.Plan.commit
    obtain ⟨_, _, _, _, _, h⟩ := ContentVotePlan.foldl_commit _ _
    rw [h]
    exact .makeReview _ _ _ _ _ _ _ _
  | createGroup => exact .createGroup _ _ _ _
  | createResearch => exact .createResearch _ _ _
  | createContent => exact .createContent _ _ _
  | transferResearchTokens =>
    unfold TransferResearchTokens.commit
    split <;> exact .transferResearchTokens _ _
  | addExpertise =>
    unfold AddExpertise.commit
    obtain ⟨_, h⟩ := State.foldl_creditExpertise (α := DisciplineId × Amount) _ (·.1) (·.2) _ _ _
    rw [h]
    exact .addExpertise _
  | createGrant => exact .createGrant _ _ _
  | createProposal => exact .createProposal _ _
  | voteForProposal => exact .voteForProposal _

end ResearchLedger
