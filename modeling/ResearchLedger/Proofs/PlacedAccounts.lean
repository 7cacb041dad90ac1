import ResearchLedger.Proofs.Placement
import ResearchLedger.Proofs.ProxyChange
import ResearchLedger.Proofs.Recoveries
import ResearchLedger.Proofs.Solvency

/-! The operations on accounts, their authorities, their stakes and their witnesses put each record that
they write into its place. -/
namespace ResearchLedger

open SortedMap

variable {s : State} {d : Directory} {n : AccountName} {now : Seconds} {u : Unit}

theorem State.checkAuthority_ok {a : Authority} (h : s.checkAuthority a = .ok u) :
    a.Known s.directory :=
  fun n hn => checkAccount_eq_ok.1 (forM_eq_ok.1 h n hn)

namespace AccountCreate

variable {op : AccountCreate}

theorem check_known (h : op.check s = .ok u) : s.accounts.contains op.creator = true ∧
    op.owner.Known s.directory ∧ op.active.Known s.directory ∧ op.posting.Known s.directory := by
  unfold check at h
  obtain ⟨_, -, h⟩ := bind_eq_ok.1 h
  obtain ⟨-, h⟩ := guard_bind_eq_ok.1 h
  obtain ⟨_, hcreator, h⟩ := bind_eq_ok.1 h
  obtain ⟨-, h⟩ := guard_bind_eq_ok.1 h
  obtain ⟨_, howner, h⟩ := bind_eq_ok.1 h
  obtain ⟨_, hactive, hposting⟩ := bind_eq_ok.1 h
  obtain ⟨a, ha, -⟩ := State.checkBalance_eq_ok.1 hcreator
  exact ⟨contains_of_get? ha, State.checkAuthority_ok howner, State.checkAuthority_ok hactive,
    State.checkAuthority_ok hposting⟩

theorem placed (hd : s.directory.Within d) (hn : d.account op.name) (h : op.check s = .ok u)
    (hs : s.Placed d) : (op.commit now s).Placed d := by
  obtain ⟨hcreator, howner, hactive, hposting⟩ := check_known h
  have hpaid : (s.debit op.creator op.fee.amount).Placed d := hs.debit
  have haccount : (op.account now).Placed d op.name := by
    refine { name := rfl, proxy := ?_, recoveryPartner := ?_ }
    · intro m hm
      cases hm
    · intro m hm
      cases hm
      exact hd.account _ hcreator
  have hauthority : AccountAuthority.Placed d op.name ⟨op.name, op.owner, op.active, op.posting, 0⟩ :=
    ⟨rfl, howner.mono hd, hactive.mono hd, hposting.mono hd⟩
  have hnew := hpaid.insertAccount haccount hauthority
  unfold commit
  dsimp only
  split
  · exact hnew.creditExpertise hn hs.common
  · exact hnew

end AccountCreate

namespace AccountUpdate

variable {op : AccountUpdate}

theorem check_known (h : op.check now s = .ok u) : s.authorities.contains op.account = true ∧
    (∀ a ∈ op.owner, a.Known s.directory) ∧ (∀ a ∈ op.active, a.Known s.directory) ∧
    ∀ a ∈ op.posting, a.Known s.directory := by
  unfold check at h
  obtain ⟨present, hp, h⟩ := bind_eq_ok.1 h
  have hp := contains_of_get? (State.found_eq_ok.1 hp)
  extract_lets posting active at h
  have hposting (h : posting () = .ok u) : ∀ a ∈ op.posting, a.Known s.directory := by
    intro a ha
    unfold posting at h
    rw [Option.mem_def.1 ha] at h
    exact State.checkAuthority_ok h
  have hactive (h : active () = .ok u) : (∀ a ∈ op.active, a.Known s.directory) ∧
      ∀ a ∈ op.posting, a.Known s.directory := by
    unfold active at h
    split at h
    · rename_i a ha
      obtain ⟨_, hknown, h⟩ := bind_eq_ok.1 h
      rw [ha]
      exact ⟨fun b hb => by cases hb; exact State.checkAuthority_ok hknown, hposting h⟩
    · rename_i ha
      exact ⟨fun b hb => absurd hb (ha b), hposting h⟩
  split at h
  · rename_i a ha
    obtain ⟨-, h⟩ := guard_bind_eq_ok.1 h
    obtain ⟨-, h⟩ := guard_bind_eq_ok.1 h
    obtain ⟨_, hknown, h⟩ := bind_eq_ok.1 h
    rw [ha]
    exact ⟨hp, fun b hb => by cases hb; exact State.checkAuthority_ok hknown, hactive h⟩
  · rename_i ha
    exact ⟨hp, fun b hb => absurd hb (ha b), hactive h⟩

theorem placed (hd : s.directory.Within d) (h : op.check now s = .ok u) (hs : s.Placed d) :
    (op.commit now s).Placed d := by
  obtain ⟨hn, howner, hactive, hposting⟩ := check_known h
  have hn : d.account op.account := hd.account _ ((hs.paired _).symm.trans hn)
  have hrest (s : State) (hs : s.Placed d) : (State.modifyAccount { s with
      authorities := s.authorities.modify op.account fun a =>
        { a with active := op.active.getD a.active, posting := op.posting.getD a.posting } }
      op.account fun a => { a with memoKey := op.memoKey, metadata := op.metadata }).Placed d := by
    refine State.Placed.modifyAccount ?_ fun _ ha => { ha with }
    refine { hs with
      authorities := hs.authorities.modify fun a ha => ⟨ha.account, ha.owner, ?_, ?_⟩
      paired := fun m => contains_modify.trans (hs.paired m) }
    · cases ho : op.active with
      | none => exact ha.active
      | some active => exact (hactive active ho).mono hd
    · cases ho : op.posting with
      | none => exact ha.posting
      | some posting => exact (hposting posting ho).mono hd
  unfold commit
  cases ho : op.owner with
  | none => exact hrest s hs
  | some owner => exact hrest _ (hs.replaceOwner hn ((howner owner ho).mono hd))

end AccountUpdate

theorem TransferToCommonTokens.placed {op : TransferToCommonTokens} {effects : ProxyEffects}
    (hd : s.directory.Within d) (h : op.plan s = .ok effects) (hs : s.Placed d) :
    (op.commit now effects s).Placed d := by
  obtain ⟨-, ⟨a, ha, -⟩, -⟩ := plan_ok h
  have htarget := hd.account _ (contains_of_get? ha)
  have hstaked : State.Placed d ((s.debit op.sender op.amount.amount).modifyAccount op.target
      (·.stake op.amount.amount)) := hs.debit.modifyAccount fun _ ha => { ha with }
  exact (hstaked.creditExpertise htarget hs.common).applyProxyEffects effects

theorem SetWithdrawRoute.placed {op : SetWithdrawRoute} {plan : SetWithdrawRoute.Plan}
    (hd : s.directory.Within d) (h : op.plan s = .ok plan) (hs : s.Placed d) :
    (op.commit plan s).Placed d := by
  obtain ⟨hsource, htarget, -⟩ := plan_ok h
  have hsource := hd.account _ hsource
  have hold : (s.withdrawRoutes.getD op.source ∅).All (WithdrawRoute.Placed d op.source) :=
    (hs.withdrawRoutes.getD_of ⟨hsource, .empty⟩).2
  have hstore : (op.store s).Placed d :=
    { hs with
      withdrawRoutes := hs.withdrawRoutes.insert
        ⟨hsource, hold.insert ⟨rfl, rfl, hd.account _ htarget⟩⟩ }
  have hclear : (op.clear s).Placed d := by
    unfold clear
    dsimp only
    split
    · exact { hs with withdrawRoutes := hs.withdrawRoutes.erase }
    · exact { hs with withdrawRoutes := hs.withdrawRoutes.insert ⟨hsource, hold.erase⟩ }
  cases plan with
  | create => exact hstore.modifyAccount fun _ ha => { ha with }
  | change => exact hstore
  | remove => exact hclear.modifyAccount fun _ ha => { ha with }

theorem DelegateCommonTokens.placed {op : DelegateCommonTokens} {plan : DelegateCommonTokens.Plan}
    (hd : s.directory.Within d) (h : op.plan now s = .ok plan) (hs : s.Placed d) :
    (plan.commit s).Placed d := by
  obtain ⟨-, hdelegatee, a, ha, hadmits⟩ := plan_ok h
  have hdelegator := hd.account _ (contains_of_get? ha)
  have hlent : State.Placed d { s with
      delegations := s.delegations.insert (op.delegator, op.delegatee)
        ⟨op.delegator, op.delegatee, op.amount, now⟩ } :=
    { hs with
      delegations := hs.delegations.insert ⟨rfl, rfl, hdelegator, hd.account _ hdelegatee⟩ }
  have hended : State.Placed d { s with
      delegations := s.delegations.erase (op.delegator, op.delegatee) } :=
    { hs with delegations := hs.delegations.erase }
  have haccounts (s : State) (hs : s.Placed d) {x y : Amount} : ((s.modifyAccount op.delegator
      fun a => { a with delegated := a.delegated + x }).modifyAccount op.delegatee
      fun a => { a with received := a.received + y }).Placed d := by
    refine State.Placed.modifyAccount (hs.modifyAccount fun _ ha => ?_) fun _ ha => ?_
    · exact { ha with }
    · exact { ha with }
  have henqueue (s : State) (hs : s.Placed d) {x : Amount} {t : Seconds} :
      (Plan.enqueue ⟨op.delegator, x, t⟩ s).Placed d :=
    { hs with
      expiringDelegations := (hs.expiringDelegations.mono fun _ _ h =>
        ⟨Nat.lt_succ_of_lt h.1, h.2⟩).insert ⟨Nat.lt_succ_self _, rfl, hdelegator⟩ }
  cases hadmits with
  | grow => exact haccounts _ hlent
  | shrink =>
    by_cases hp : 0 < op.amount
    · simp only [if_pos hp]
      exact henqueue _ (haccounts _ hlent)
    · simp only [if_neg hp]
      exact henqueue _ (haccounts _ hended)

theorem SetWitnessProxy.placed {op : SetWitnessProxy} {plan : SetWitnessProxy.Plan}
    (hd : s.directory.Within d) (hl : s.Linked) (h : op.plan s = .ok plan) (hs : s.Placed d) :
    (plan.commit s).Placed d := by
  obtain ⟨-, -, -, hnew, -, -, -, hproxy, -⟩ := plan_ok h
  have hproxy : ∀ q ∈ plan.proxy, d.account q := by
    rw [hproxy]
    exact fun q hq => hd.account _ (State.checkNewProxy_ok hl (hnew q hq)).1
  have he := hs.applyProxyEffects plan.effects
  unfold SetWitnessProxy.Plan.commit
  dsimp only
  split
  · exact he.modifyAccount fun _ ha => { ha with proxy := hproxy }
  · exact State.Placed.modifyAccount { he with witnessVotes := he.witnessVotes.erase } fun _ ha =>
      { ha with proxy := hproxy }

theorem WitnessUpdate.placed {op : WitnessUpdate} {u : Unit} (hd : s.directory.Within d)
    (h : op.check s = .ok u) (hs : s.Placed d) : (op.commit now s).Placed d := by
  obtain ⟨_, hknown, -⟩ := bind_eq_ok.1 h
  have hknown := hd.account _ (State.checkAccount_eq_ok.1 hknown)
  have hold : (s.witnesses.getD op.owner (.fresh op.owner .empty now)).Placed d op.owner :=
    hs.witnesses.getD_of ⟨rfl, hknown⟩
  exact { hs with witnesses := hs.witnesses.insert { hold with } }

theorem WitnessVote.placed {op : WitnessVote} {weight : Amount} (hd : s.directory.Within d)
    (h : op.plan s = .ok weight) (hs : s.Placed d) : (op.commit weight s).Placed d := by
  obtain ⟨a, ha, -, hwitness, -⟩ := plan_ok h
  have hvoter := hd.account _ (contains_of_get? ha)
  have hold : (s.witnessVotes.getD op.account ∅).All fun w _ => d.witness w :=
    (hs.witnessVotes.getD_of ⟨hvoter, .empty⟩).2
  have hcounted (x : Amount) (f : Nat → Nat) : (State.modifyAccount { s with
      witnesses := s.witnesses.modify op.witness (·.addVotes x) } op.account
      fun a => { a with witnessesVotedFor := f a.witnessesVotedFor }).Placed d :=
    State.Placed.modifyAccount
      { hs with witnesses := hs.witnesses.modify fun _ hw => { hw with } } fun _ ha => { ha with }
  unfold commit
  cases op.approve with
  | true =>
    exact { hcounted weight (· + 1) with
      witnessVotes := hs.witnessVotes.insert ⟨hvoter, hold.insert (hd.witness _ hwitness)⟩ }
  | false =>
    dsimp only
    split
    · cases ‹false = true›
    · split
      · exact { hcounted (-weight) (· - 1) with witnessVotes := hs.witnessVotes.erase }
      · exact { hcounted (-weight) (· - 1) with
          witnessVotes := hs.witnessVotes.insert ⟨hvoter, hold.erase⟩ }

theorem RequestRecovery.placed {op : RequestRecovery} {plan : RequestRecovery.Plan}
    (hd : s.directory.Within d) (h : op.plan now s = .ok plan) (hs : s.Placed d) :
    (plan.commit s).Placed d := by
  have howner : op.newOwner.Known s.directory := by
    unfold RequestRecovery.plan at h
    obtain ⟨_, -, h⟩ := bind_eq_ok.1 h
    obtain ⟨_, -, h⟩ := bind_eq_ok.1 h
    obtain ⟨_, -, h⟩ := bind_eq_ok.1 h
    obtain ⟨_, hknown, -⟩ := bind_eq_ok.1 h
    exact State.checkAuthority_ok hknown
  obtain ⟨⟨a, ha, -⟩, rfl | ⟨-, -, rfl⟩⟩ := plan_ok h
  · exact { hs with recoveryRequests := hs.recoveryRequests.erase }
  · exact { hs with
      recoveryRequests := hs.recoveryRequests.insert
        ⟨rfl, hd.account _ (contains_of_get? ha), howner.mono hd⟩ }

/-- The new owner authority is known because the request that it fulfils is in its place. -/
theorem RecoverAccount.placed {op : RecoverAccount} {u : Unit} (h : op.check now s = .ok u)
    (hs : s.Placed d) : (op.commit now s).Placed d := by
  obtain ⟨⟨r, hr, -, howner⟩, -⟩ := check_ok h
  have hr := hs.recoveryRequests _ r hr
  have hdone : State.Placed d { s with recoveryRequests := s.recoveryRequests.erase op.account } :=
    { hs with recoveryRequests := hs.recoveryRequests.erase }
  exact (hdone.replaceOwner hr.known (howner ▸ hr.newOwner)).modifyAccount fun _ ha => { ha with }

theorem ChangeRecoveryPartner.placed {op : ChangeRecoveryPartner} {plan : ChangeRecoveryPartner.Plan}
    (hd : s.directory.Within d) (h : op.plan now s = .ok plan) (hs : s.Placed d) :
    (plan.commit s).Placed d := by
  obtain ⟨haccount, hpartner, rfl | rfl⟩ := plan_ok h
  · exact { hs with partnerChanges := hs.partnerChanges.erase }
  · exact { hs with
      partnerChanges := hs.partnerChanges.insert
        ⟨rfl, hd.account _ haccount, hd.account _ hpartner⟩ }

end ResearchLedger
