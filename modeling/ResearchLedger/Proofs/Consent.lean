import ResearchLedger.Proofs.Bystander

/-! Consent: an operation takes nothing from an account that does not sign it, and settles nothing in
its place. -/
namespace ResearchLedger

variable {l l' : Ledger} {config : Config} {genesis : Genesis} {n : AccountName}

open SortedMap

namespace Operation.Effect

variable {op : Operation}

theorem remains_account (h : op.Effect l l') (hc : l.state.accounts.contains n = true)
    (hn : n ∉ op.signers.accounts) :
    Remains Account.Spared (l.state.accounts.get? n) (l'.state.accounts.get? n) := by
  cases op with
  | accountCreate op =>
    have hne : n ≠ op.creator := List.ne_of_not_mem_cons hn
    cases h with | accountCreate hcheck =>
    refine .of_eq .refl ?_
    dsimp only
    -- The account stood before, so it is not the new one.
    rw [AccountCreate.accounts_commit, get?_insert_of_ne (AccountCreate.name_ne hcheck hc)]
    exact get?_modify_of_ne hne.symm
  | accountUpdate op =>
    have hne := AccountUpdate.ne_of_not_mem_signers hn
    cases h
    refine .of_eq .refl ?_
    dsimp only
    rw [AccountUpdate.accounts_commit]
    exact get?_modify_of_ne hne.symm
  | transfer op =>
    have hne : n ≠ op.sender := List.ne_of_not_mem_cons hn
    cases h with | transfer hcheck =>
    obtain ⟨hpos, ⟨b, hb, hfit⟩, -⟩ := Transfer.check_ok hcheck
    refine .modify_both .refl hne ?_
    rintro rfl a ha
    obtain rfl := Option.some.inj (hb.symm.trans ha)
    exact .credit hpos.le hfit
  | transferToCommonTokens op =>
    have hne : n ≠ op.sender := List.ne_of_not_mem_cons hn
    cases h with | transferToCommonTokens hplan =>
    obtain ⟨hpos, ⟨b, hb, hfit⟩, -, -⟩ := TransferToCommonTokens.plan_ok hplan
    refine Remains.trans .trans ?_ (State.remains_applyProxyEffects _ _)
    refine .modify_both .refl hne fun htarget a ha => ?_
    subst htarget
    obtain rfl := Option.some.inj (hb.symm.trans ha)
    exact .stake hpos.le hfit
  | withdrawCommonTokens op =>
    have hne : n ≠ op.account := List.ne_of_not_mem_cons hn
    cases h
    exact .of_eq .refl (get?_modify_of_ne hne.symm)
  | setWithdrawRoute op =>
    have hne : n ≠ op.source := List.ne_of_not_mem_cons hn
    cases h with | @setWithdrawRoute _ plan _ =>
    refine .of_eq .refl ?_
    cases plan with
    | create => exact get?_modify_of_ne hne.symm
    | change => rfl
    | remove =>
      unfold SetWithdrawRoute.commit SetWithdrawRoute.clear
      dsimp only
      split <;> exact get?_modify_of_ne hne.symm
  | delegateCommonTokens op =>
    have hne : n ≠ op.delegator := List.ne_of_not_mem_cons hn
    cases h with | delegateCommonTokens hplan =>
    obtain ⟨-, -, a, -, hadm⟩ := DelegateCommonTokens.plan_ok hplan
    dsimp only
    rw [DelegateCommonTokens.Plan.accounts_commit, hadm.deltas.1]
    -- Only what is borrowed may fall, and that is the owner's to call back.
    exact .modify_both .refl hne fun _ a _ => { Account.Spared.refl a with }
  | setWitnessProxy op =>
    have hne : n ≠ op.account := List.ne_of_not_mem_cons hn
    cases h with | @setWitnessProxy _ plan hplan =>
    obtain ⟨_, _, -, -, -, -, haccount, -⟩ := SetWitnessProxy.plan_ok hplan
    obtain ⟨_, hacc⟩ := SetWitnessProxy.accounts_commit plan l.state
    dsimp only
    rw [hacc, haccount, get?_modify_of_ne hne.symm]
    exact State.remains_applyProxyEffects _ _
  | witnessVote op =>
    have hne : n ≠ op.account := List.ne_of_not_mem_cons hn
    cases h with | @witnessVote _ weight _ =>
    obtain ⟨_, hacc⟩ := WitnessVote.accounts_commit op weight l.state
    refine .of_eq .refl ?_
    dsimp only
    rw [hacc]
    exact get?_modify_of_ne hne.symm
  | recoverAccount op =>
    cases h
    dsimp only
    rw [RecoverAccount.accounts_commit]
    exact .modify .refl fun _ a _ => { Account.Spared.refl a with }
  | createGrant op =>
    have hne : n ≠ op.owner := List.ne_of_not_mem_cons hn
    cases h with | createGrant hplan =>
    obtain ⟨-, howner, -⟩ := CreateGrant.plan_ok hplan
    exact .of_eq .refl (get?_modify_of_ne (howner ▸ hne.symm))
  | _ => cases h.footprint; exact .of_eq .refl rfl

theorem remains_expertise (h : op.Effect l l') (hs : l.state.ExpertiseFits)
    (hc : l.state.accounts.contains n = true) (hn : n ∉ op.signers.accounts) (d : DisciplineId) :
    Remains ExpertToken.Spared (l.state.expertToken? n d) (l'.state.expertToken? n d) := by
  cases op with
  | accountCreate op =>
    cases h with | accountCreate hcheck =>
    exact .of_eq .refl (AccountCreate.expertToken?_commit _ _ (AccountCreate.name_ne hcheck hc))
  | transferToCommonTokens op =>
    cases h with | transferToCommonTokens hplan =>
    have hpos := (TransferToCommonTokens.plan_ok hplan).1
    unfold TransferToCommonTokens.commit
    rw [State.applyProxyEffects_eq]
    exact hs.remains_credit hpos.le
  | voteForContent op =>
    have hne : n ≠ op.voter := List.ne_of_not_mem_cons hn
    cases h with | voteForContent hplan =>
    obtain ⟨_, _, _, -, hvoter, -⟩ := VoteForContent.plan_ok hplan
    exact .of_eq .refl (State.expertToken?_spendPower (hvoter ▸ hne))
  | voteForReview op =>
    have hne : n ≠ op.voter := List.ne_of_not_mem_cons hn
    cases h with | voteForReview hplan =>
    obtain ⟨_, _, _, hc⟩ := VoteForReview.plan_casts hplan
    exact .of_eq .refl (State.expertToken?_spendPower (hc.voter ▸ hne))
  | makeReview op =>
    have hne : n ≠ op.author := List.ne_of_not_mem_cons hn
    cases h with | makeReview hplan =>
    refine .of_eq .refl (ContentVotePlan.expertToken?_foldl_commit fun p hp => ?_)
    exact (MakeReview.voter_plan hplan p hp).symm ▸ hne
  | addExpertise op =>
    cases h with | addExpertise hcheck =>
    exact hs.remains_foldl_credit fun e he => ((AddExpertise.check_ok hcheck).2 e he).2.le
  | _ => cases h.footprint; exact .of_eq .refl rfl

theorem researchTokensOf_le (h : op.Effect l l') (hn : n ∉ op.signers.accounts) (id : ResearchId) :
    l.state.researchTokensOf id n ≤ l'.state.researchTokensOf id n := by
  cases op with
  | transferResearchTokens op =>
    have hne : n ≠ op.sender := List.ne_of_not_mem_cons hn
    cases h
    exact TransferResearchTokens.researchTokensOf_le _ id hne.symm
  | _ => cases h.footprint; exact le_refl _

theorem withdrawRoutes_eq (h : op.Effect l l') (hn : n ∉ op.signers.accounts) :
    l'.state.withdrawRoutes.get? n = l.state.withdrawRoutes.get? n := by
  cases op with
  | setWithdrawRoute op =>
    have hne : op.source ≠ n := (List.ne_of_not_mem_cons hn).symm
    cases h with | @setWithdrawRoute _ plan _ =>
    dsimp only
    rcases @SetWithdrawRoute.routes_commit op plan l.state with he | he | he <;> rw [he]
    · exact get?_insert_of_ne hne
    · exact get?_erase_of_ne hne
    · exact get?_insert_of_ne hne
  | _ => cases h.footprint; rfl

theorem delegations_eq (h : op.Effect l l') (hn : n ∉ op.signers.accounts) (m : AccountName) :
    l'.state.delegations.get? (n, m) = l.state.delegations.get? (n, m) := by
  cases op with
  | delegateCommonTokens op =>
    have hne : n ≠ op.delegator := List.ne_of_not_mem_cons hn
    cases h with | delegateCommonTokens hplan =>
    obtain ⟨-, -, a, -, hadm⟩ := DelegateCommonTokens.plan_ok hplan
    dsimp only
    rw [DelegateCommonTokens.Plan.delegations_commit, hadm.deltas.1]
    exact Loans.get?_put_of_ne _ fun hk => hne (congrArg Prod.fst hk).symm
  | _ => cases h.footprint; rfl

theorem witnessVotes_eq (h : op.Effect l l') (hn : n ∉ op.signers.accounts) :
    l'.state.witnessVotes.get? n = l.state.witnessVotes.get? n := by
  cases op with
  | setWitnessProxy op =>
    have hne : op.account ≠ n := (List.ne_of_not_mem_cons hn).symm
    cases h with | @setWitnessProxy _ plan hplan =>
    obtain ⟨_, _, -, -, -, -, haccount, -⟩ := SetWitnessProxy.plan_ok hplan
    unfold SetWitnessProxy.Plan.commit
    rw [State.applyProxyEffects_eq, haccount]
    dsimp only
    split
    · rfl
    · exact get?_erase_of_ne hne
  | witnessVote op =>
    have hne : op.account ≠ n := (List.ne_of_not_mem_cons hn).symm
    cases h
    dsimp only
    rw [WitnessVote.witnessVotes_commit]
    split
    · exact get?_insert_of_ne hne
    · split
      · exact get?_erase_of_ne hne
      · exact get?_insert_of_ne hne
  | _ => cases h.footprint; rfl

theorem partnerChanges_eq (h : op.Effect l l') (hn : n ∉ op.signers.accounts) :
    l'.state.partnerChanges.get? n = l.state.partnerChanges.get? n := by
  cases op with
  | changeRecoveryPartner op =>
    have hne : op.account ≠ n := (List.ne_of_not_mem_cons hn).symm
    cases h with | changeRecoveryPartner hplan =>
    exact ChangeRecoveryPartner.get?_commit hplan hne
  | _ => cases h.footprint; rfl

/-- Nobody but an account itself changes its authorities, unless it is recovered. -/
theorem authorities_eq (h : op.Effect l l') (hc : l.state.accounts.contains n = true)
    (hn : n ∉ op.signers.accounts) (hr : ∀ r, op = .recoverAccount r → r.account ≠ n) :
    l'.state.authorities.get? n = l.state.authorities.get? n := by
  cases op with
  | accountCreate op =>
    cases h with | accountCreate hcheck =>
    dsimp only
    rw [AccountCreate.authorities_commit]
    exact get?_insert_of_ne (AccountCreate.name_ne hcheck hc)
  | accountUpdate op =>
    have hne := AccountUpdate.ne_of_not_mem_signers hn
    cases h
    exact AccountUpdate.authorities_commit _ _ hne.symm
  | recoverAccount op =>
    cases h
    dsimp only
    rw [RecoverAccount.authorities_commit]
    exact get?_modify_of_ne (hr op rfl)
  | _ => cases h.footprint; rfl

/-- A recovery replaces the owner alone. -/
theorem map_authorities_eq {β : Type} {f : AccountAuthority → β}
    (hf : ∀ a owner t, f { a with owner, lastOwnerUpdate := t } = f a) (h : op.Effect l l')
    (hc : l.state.accounts.contains n = true) (hn : n ∉ op.signers.accounts) :
    (l'.state.authorities.get? n).map f = (l.state.authorities.get? n).map f := by
  cases op with
  | recoverAccount op =>
    cases h
    dsimp only
    rw [RecoverAccount.authorities_commit, get?_modify]
    split
    · rw [Option.map_map]
      exact congrArg (fun g => Option.map g _) (funext fun a => hf a _ _)
    · rfl
  | _ => rw [h.authorities_eq hc hn fun _ he => by cases he]

theorem spares (h : op.Effect l l') (hs : l.state.ExpertiseFits)
    (hc : l.state.accounts.contains n = true) (hn : n ∉ op.signers.accounts) :
    State.Spares n l.state l'.state where
  account := h.remains_account hc hn
  expertise := h.remains_expertise hs hc hn
  research := h.researchTokensOf_le hn
  withdrawRoutes := h.withdrawRoutes_eq hn
  delegations := h.delegations_eq hn
  witnessVotes := h.witnessVotes_eq hn
  partnerChange := h.partnerChanges_eq hn
  active := h.map_authorities_eq (fun _ _ _ => rfl) hc hn
  posting := h.map_authorities_eq (fun _ _ _ => rfl) hc hn

end Operation.Effect

namespace Ledger

/-- An operation that a reachable ledger accepts takes nothing from an account that does not sign it
and settles nothing in its place; and its authorities stay as they are, but for the owner of one that
is recovered. -/
theorem Reachable.bystander_spared {op : Operation} {events : List Event}
    (h : l.Reachable config genesis) (hg : genesis.Storable) (ha : op.apply l = (.ok events, l'))
    (hc : l.state.accounts.contains n = true) (hn : n ∉ op.signers.accounts) :
    State.Spares n l.state l'.state ∧
      ((∀ r, op = .recoverAccount r → r.account ≠ n) →
        l'.state.authorities.get? n = l.state.authorities.get? n) := by
  have heffect := Operation.effect_of_run (LedgerM.apply_ok ha)
  exact ⟨heffect.spares (h.expertiseFits hg) hc hn, heffect.authorities_eq hc hn⟩

end Ledger

namespace Sample

/-- Bob lends to carol and lets her vote in his place; alice powers down and is paid. -/
def entrusted : Ledger := (founded 200000 300 20).after
  [.operation (.delegateCommonTokens ⟨bob, carol, 100⟩),
    .operation (.setWitnessProxy ⟨bob, some carol⟩),
    .operation (.withdrawCommonTokens ⟨alice, 130000⟩),
    .endBlock 604800]

/-- Alice stakes for bob. -/
def gift : Operation := .transferToCommonTokens ⟨alice, some bob, .primary 5⟩

theorem gift_spares : (entrusted.state.accounts.get? bob).map Account.commonTokens = some 300 ∧
    ((gift.apply entrusted).2.state.accounts.get? bob).map Account.commonTokens = some 305 ∧
    State.Spares bob entrusted.state (gift.apply entrusted).2.state ∧
    (gift.apply entrusted).2.state.authorities.get? bob = entrusted.state.authorities.get? bob :=
  have h := @Ledger.Reachable.bystander_spared entrusted (gift.apply entrusted).2 {}
    (founders 200000 300 20) bob gift [] ⟨founded 200000 300 20, _, rfl, by decide, rfl⟩ (by decide)
    (Prod.ext (by decide +kernel) rfl) (by decide +kernel) (by decide)
  ⟨by decide +kernel, by decide +kernel, h.1, h.2 fun _ he => by cases he⟩

end Sample

end ResearchLedger
