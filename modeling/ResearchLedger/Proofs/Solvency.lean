import ResearchLedger.Proofs.Spending

/-! No account, group or grant ever falls below zero. -/
namespace ResearchLedger

open SortedMap

variable {s s' : State} {l l' : Ledger} {config : Config}
  {genesis : Genesis} {a : Account} {amount x y : Amount} {n : AccountName}

namespace Amount

theorem max_nonneg : 0 ≤ Amount.max := by decide

theorem clamp_of_le (h₀ : 0 ≤ x) (h : x ≤ Amount.max) : clamp x = x := by
  unfold clamp Amount.min at *
  split
  · lia
  · rw [if_neg (by lia)]

theorem clamp_of_nonneg (h : 0 ≤ x) : clamp x = Min.min x Amount.max := by
  unfold clamp Amount.min Amount.max
  split
  · lia
  · split <;> lia

theorem clamp_nonneg (h : 0 ≤ x) : 0 ≤ clamp x := by
  unfold clamp Amount.min Amount.max
  split
  · lia
  · split <;> lia

theorem clamp_le_max (x : Amount) : clamp x ≤ Amount.max := by
  unfold clamp Amount.min
  split
  · decide
  · split <;> lia

theorem le_clamp (h : x ≤ y) (hm : x ≤ Amount.max) : x ≤ clamp y := by
  unfold clamp Amount.min
  split
  · lia
  · split <;> lia

end Amount

/-- The amounts of an account are those of somebody who owes nothing. -/
structure Account.Solvent (a : Account) : Prop where
  balance : 0 ≤ a.balance.amount
  commonTokens : 0 ≤ a.commonTokens
  commonTokens_le : a.commonTokens ≤ Amount.max
  delegated : 0 ≤ a.delegated
  rate : 0 ≤ a.powerDown.rate

/-- All accounts, grants and groups have what they are said to have, and no account routes more than
the whole of its payments. -/
structure State.Solvent (s : State) : Prop where
  accounts : s.accounts.All fun _ a => a.Solvent
  grants : s.grants.All fun _ g => 0 ≤ g.amount
  groups : s.groups.All fun _ g => 0 ≤ g.balance
  routes : s.withdrawRoutes.All fun _ rs => rs.sumOf (fun _ r => r.percent) ≤ wholePercent

namespace Account.Solvent

theorem credit (h : a.Solvent) (hx : 0 ≤ x) : (a.credit x).Solvent :=
  { h with balance := Amount.clamp_nonneg (Int.add_nonneg h.balance hx) }

theorem debit (h : a.Solvent) (hx : x ≤ a.balance.amount) : (a.debit x).Solvent :=
  { h with balance := Amount.clamp_nonneg (Int.sub_nonneg_of_le hx) }

theorem stake (h : a.Solvent) (hx : 0 ≤ x) : (a.stake x).Solvent :=
  { h with
    commonTokens := Amount.clamp_nonneg (Int.add_nonneg h.commonTokens hx)
    commonTokens_le := Amount.clamp_le_max _ }

theorem fresh (n : AccountName) (k : PublicKey) (now : Seconds) : (fresh n k now).Solvent where
  balance := le_refl _
  commonTokens := le_refl _
  commonTokens_le := show (0 : Amount) ≤ Amount.max by decide
  delegated := le_refl _
  rate := le_refl _

/-- A payment takes neither less than nothing nor more than the stake. -/
theorem nextPayment (h : a.Solvent) : 0 ≤ a.nextPayment ∧ a.nextPayment ≤ a.commonTokens := by
  have h₁ := h.commonTokens
  have h₂ := h.delegated
  have h₃ := h.rate
  unfold Account.nextPayment PowerDown.pending
  constructor
  · refine le_min (le_min h₃ (le_max_right _ _)) (le_max_right _ _)
  · refine (min_le_right _ _).trans (max_le ?_ h₁)
    linarith

theorem afterPayment {interval : Seconds} (h : a.Solvent) (h₀ : 0 ≤ x) (hx : x ≤ a.commonTokens) :
    (a.afterPayment x interval).Solvent where
  balance := h.balance
  commonTokens := Int.sub_nonneg_of_le hx
  commonTokens_le := (Int.sub_le_self _ h₀).trans h.commonTokens_le
  delegated := h.delegated
  rate := by
    unfold Account.afterPayment
    dsimp only
    split
    · exact le_refl _
    · exact h.rate

end Account.Solvent

namespace LedgerM

variable {deposit : Amount} {r : WithdrawRoute} {rs : List WithdrawRoute}

/-- What a route takes is its part of the payment. -/
theorem RoutePaid.deposit_eq (h : RoutePaid amount r l deposit l') (ha : 0 ≤ amount)
    (hm : amount ≤ Amount.max) (hp : r.percent ≤ wholePercent) :
    deposit = part amount r.percent wholePercent := by
  have heq := percentShare_eq ha hm hp
  cases h with
  | skip hd hn =>
    obtain rfl := Except.ok.inj (heq.symm.trans hd)
    exact le_antisymm (part_nonneg ha) hn
  | stake hd => exact (Except.ok.inj (heq.symm.trans hd)).symm
  | balance hd => exact (Except.ok.inj (heq.symm.trans hd)).symm

theorem RoutesPaid.deposit_eq (h : RoutesPaid amount rs l deposit l') (ha : 0 ≤ amount)
    (hm : amount ≤ Amount.max) (hp : (rs.map (·.percent)).sum ≤ wholePercent) :
    deposit = (rs.map fun r => part amount r.percent wholePercent).sum := by
  induction h with
  | nil => rfl
  | cons h _ ih =>
    simp only [List.map_cons, List.sum_cons] at hp ⊢
    rw [h.deposit_eq ha hm (by omega), ih (by omega)]

/-- Routes take no more than the payment. -/
theorem RoutesPaid.deposit_le (h : RoutesPaid amount rs l deposit l') (ha : 0 ≤ amount)
    (hm : amount ≤ Amount.max) (hp : (rs.map (·.percent)).sum ≤ wholePercent) :
    0 ≤ deposit ∧ deposit ≤ amount := by
  rw [h.deposit_eq ha hm hp]
  constructor
  · exact sum_map_nonneg fun _ _ => part_nonneg ha
  · exact (sum_part_le _ rs ha).trans (part_le ha hp)

end LedgerM

namespace State

theorem solvent_applyProxyEffects (e : ProxyEffects) (h : s.accounts.All fun _ a => a.Solvent) :
    (s.applyProxyEffects e).accounts.All fun _ a => a.Solvent := by
  rw [accounts_applyProxyEffects]
  exact h.foldl_modify fun _ _ _ _ ha => { ha with }

/-- The stake of an account, or zero. -/
def stakeOf (s : State) (n : AccountName) : Amount :=
  match s.accounts.get? n with
  | some a => a.commonTokens
  | none => 0

theorem stakeOf_eq (s : State) (n : AccountName) :
    s.stakeOf n = ((s.accounts.get? n).map (·.commonTokens)).getD 0 := by
  unfold stakeOf
  cases s.accounts.get? n <;> rfl

theorem stakeOf_congr (h : Keeps Account.commonTokens s.accounts s'.accounts) :
    s'.stakeOf n = s.stakeOf n := by
  rw [stakeOf_eq, stakeOf_eq, h.map_eq]

theorem stakeOf_keepsCore (h : Keeps Account.core s.accounts s'.accounts) (n : AccountName) :
    s'.stakeOf n = s.stakeOf n :=
  stakeOf_congr (h.map Account.commonTokens)

theorem stakeOf_applyProxyEffects (s : State) (e : ProxyEffects) (n : AccountName) :
    (s.applyProxyEffects e).stakeOf n = s.stakeOf n :=
  stakeOf_keepsCore (applyProxyEffects_keepsCore e) n

theorem stakeOf_modifyAccount {f : Account → Account} {k : AccountName} :
    (s.modifyAccount k f).stakeOf n =
      if k = n then ((s.accounts.get? n).map fun a => (f a).commonTokens).getD 0 else s.stakeOf n := by
  rw [stakeOf_eq, stakeOf_eq, modifyAccount, get?_modify]
  split
  · rw [Option.map_map]; rfl
  · rfl

theorem stakeOf_credit {k : AccountName} : (s.credit k x).stakeOf n = s.stakeOf n := by
  unfold credit
  rw [stakeOf_modifyAccount]
  split
  · rw [stakeOf_eq]; rfl
  · rfl

theorem stakeOf_of_get? (h : s.accounts.get? n = some a) : s.stakeOf n = a.commonTokens := by
  rw [stakeOf_eq, h]
  rfl

end State

namespace LedgerM

variable {deposit : Amount} {r : WithdrawRoute} {rs : List WithdrawRoute}

/-- Routes only add: nobody's stake falls. -/
theorem RoutePaid.stakeOf_le (h : RoutePaid amount r l deposit l')
    (hs : l.state.accounts.All fun _ a => a.Solvent) (n : AccountName) :
    l.state.stakeOf n ≤ l'.state.stakeOf n := by
  cases h with
  | skip => exact le_refl _
  | stake hd hp =>
    rw [State.stakeOf_applyProxyEffects]
    change _ ≤ (l.state.modifyAccount r.target (·.stake deposit)).stakeOf n
    rw [State.stakeOf_modifyAccount]
    split
    · rw [State.stakeOf_eq]
      cases ha : l.state.accounts.get? n with
      | none => exact le_refl _
      | some a =>
        refine Amount.le_clamp ?_ (hs _ _ ha).commonTokens_le
        exact Int.le_add_of_nonneg_right hp.le
    · exact le_refl _
  | balance => exact State.stakeOf_credit.ge

theorem RoutePaid.solvent (h : RoutePaid amount r l deposit l')
    (hs : l.state.accounts.All fun _ a => a.Solvent) :
    l'.state.accounts.All fun _ a => a.Solvent := by
  cases h with
  | skip => exact hs
  | stake _ hp => exact State.solvent_applyProxyEffects _ (hs.modify fun _ h => h.stake hp.le)
  | balance _ hp => exact hs.modify fun _ h => h.credit hp.le

theorem RoutesPaid.solvent (h : RoutesPaid amount rs l deposit l')
    (hs : l.state.accounts.All fun _ a => a.Solvent) :
    (l'.state.accounts.All fun _ a => a.Solvent) ∧ ∀ n, l.state.stakeOf n ≤ l'.state.stakeOf n := by
  refine h.preserves (P := fun x => (x.state.accounts.All fun _ a => a.Solvent) ∧
    ∀ n, l.state.stakeOf n ≤ x.state.stakeOf n) (fun _ _ _ _ h hp => ?_) ⟨hs, fun _ => le_refl _⟩
  exact ⟨h.solvent hp.1, fun n => (hp.2 n).trans (h.stakeOf_le hp.1 n)⟩

theorem RoutesPaid.solvent_state (h : RoutesPaid amount rs l deposit l') (hs : l.state.Solvent) :
    l'.state.Solvent := by
  have ha := (h.solvent hs.accounts).1
  obtain ⟨_, _, _, rfl⟩ := h.footprint
  exact { hs with accounts := ha }

/-- The routes of an account take at most the whole. -/
theorem sum_routes_le (hr : l.state.withdrawRoutes.All fun _ rs =>
    rs.sumOf (fun _ r => r.percent) ≤ wholePercent) (n : AccountName) :
    ((l.state.withdrawRoutes.getD n ∅).values.map (·.percent)).sum ≤ wholePercent := by
  rw [getD_eq]
  cases h : l.state.withdrawRoutes.get? n with
  | none => exact Nat.zero_le _
  | some rs =>
    have := hr n rs h
    rw [SortedMap.values, Option.getD_some, List.map_map]
    exact this

theorem payPowerDown_solvent {name : AccountName} {events : List Event}
    (h : payPowerDown name l = (.ok events, l')) (hs : l.state.Solvent) : l'.state.Solvent := by
  have hf := payPowerDown_footprint h
  obtain ⟨a, l₁, routed, effects, ha, -, hr, -, rfl⟩ := payPowerDown_ok h
  have hsa := hs.accounts _ _ ha
  obtain ⟨h₀, hle⟩ := hsa.nextPayment
  have hm := hle.trans hsa.commonTokens_le
  obtain ⟨h₁, hstake⟩ := hr.solvent hs.accounts
  have hrouted := hr.deposit_le h₀ hm (sum_routes_le hs.routes name)
  have hacc : (settle l₁.state name effects a.nextPayment (a.nextPayment - routed)).accounts.All
      fun _ a => a.Solvent := by
    rw [accounts_settle]
    have h₂ := (State.solvent_applyProxyEffects effects h₁).modify (k := name)
      (f := (·.credit (a.nextPayment - routed))) fun _ h => h.credit (by linarith [hrouted.2])
    refine h₂.modify_of fun b hb => (h₂ _ _ hb).afterPayment h₀ ?_
    have hb : ((l₁.state.applyProxyEffects effects).credit name _).stakeOf name = _ :=
      State.stakeOf_of_get? hb
    rw [State.stakeOf_credit, State.stakeOf_applyProxyEffects] at hb
    rw [← hb]
    have := hstake name
    rw [State.stakeOf_of_get? ha] at this
    exact hle.trans this
  obtain ⟨_, _, _, he⟩ := hf
  have he := congrArg Ledger.state he
  dsimp only at he
  rw [he] at hacc
  rw [he]
  exact { hs with accounts := hacc }

end LedgerM

namespace State.Solvent

theorem keepsCore {accounts : SortedMap AccountName Account} (h : s.Solvent)
    (hk : Keeps Account.core s.accounts accounts) : Solvent { s with accounts } := by
  refine { h with accounts := fun n a ha => ?_ }
  obtain ⟨b, hb, hab⟩ := hk.exists_of_get? ha
  have hsb := h.accounts n b hb
  constructor
  · exact (congrArg (·.balance.amount) hab).symm ▸ hsb.balance
  · exact (congrArg Account.commonTokens hab).symm ▸ hsb.commonTokens
  · exact (congrArg Account.commonTokens hab).symm ▸ hsb.commonTokens_le
  · exact (congrArg Account.delegated hab).symm ▸ hsb.delegated
  · exact (congrArg (·.powerDown.rate) hab).symm ▸ hsb.rate

theorem debit (h : s.Solvent) (ha : s.accounts.get? n = some a) (hx : x ≤ a.balance.amount) :
    (s.debit n x).Solvent := by
  refine { h with accounts := h.accounts.modify_of fun b hb => ?_ }
  obtain rfl := Option.some.inj (ha.symm.trans hb)
  exact (h.accounts _ _ ha).debit hx

/-- Payments of nothing less than nothing leave groups and accounts solvent. -/
theorem applyReward (h : s.Solvent) (now : Seconds) {p : RewardPlan} (hp : p.Sound s) :
    (s.applyReward now p).Solvent := by
  have ha : (s.applyReward now p).accounts.All fun _ a => a.Solvent := by
    rw [accounts_applyReward]
    exact h.accounts.foldl_modify fun x hx _ _ ha =>
      ha.credit (hp.balances _ _ (mem_entries_iff.1 hx)).2
  have hg : (s.applyReward now p).groups.All fun _ g => 0 ≤ g.balance := by
    rw [groups_applyReward]
    exact h.groups.foldl_modify fun x hx _ g hg =>
      Amount.clamp_nonneg (Int.add_nonneg hg (hp.groups _ _ (mem_entries_iff.1 hx)).2)
  obtain ⟨accounts, groups, tokens, he⟩ := applyReward_footprint s now p
  rw [he] at ha hg ⊢
  exact { h with accounts := ha, groups := hg }

/-- Groups are paid no more than the money of the grant. -/
theorem payShares (id : GrantId) (shares : List (GroupId × Amount)) {remaining : Amount}
    (h : s.groups.All fun _ g => 0 ≤ g.balance) (hr : 0 ≤ remaining) :
    ((payShares id s remaining shares).1.groups.All fun _ g => 0 ≤ g.balance) ∧
      0 ≤ (payShares id s remaining shares).2.1 := by
  induction shares generalizing s remaining with
  | nil => exact ⟨h, hr⟩
  | cons x shares ih =>
    rw [State.payShares]
    split
    · exact ⟨h, hr⟩
    · refine ih (h.modify fun g hg => ?_) (Int.sub_nonneg_of_le (min_le_right _ _))
      exact Amount.clamp_nonneg (Int.add_nonneg hg (by lia))

theorem afterShares (h : s.Solvent) (block : Nat) (id : GrantId) {g : Grant} (hg : 0 ≤ g.amount)
    (shares : SortedMap GroupId Amount) : (s.afterShares block id g shares).Solvent := by
  have hp := payShares id shares.entries h.groups hg
  obtain ⟨groups, he⟩ := payShares_footprint id shares.entries s g.amount
  unfold State.afterShares
  generalize State.payShares id s g.amount shares.entries = paid at hp he ⊢
  obtain ⟨s₁, remaining, events⟩ := paid
  subst he
  have h₁ : Solvent { s with groups } := { h with groups := hp.1 }
  unfold finishGrant
  dsimp only
  split
  · split
    · exact { h₁ with
        accounts := h.accounts.modify fun _ h => h.credit (by lia)
        grants := h.grants.erase }
    · exact { h₁ with grants := h.grants.erase }
  · exact { h₁ with grants := h.grants.modify fun _ _ => hp.2 }

end State.Solvent

theorem AccountCreate.check_ok {op : AccountCreate} {u : Unit} (h : op.check s = .ok u) :
    s.config.minAccountCreationFee ≤ op.fee.amount ∧ s.accounts.contains op.name = false ∧
      ∃ a, s.accounts.get? op.creator = some a ∧ op.fee.amount ≤ a.balance.amount := by
  unfold AccountCreate.check at h
  obtain ⟨_, -, h⟩ := bind_eq_ok.1 h
  obtain ⟨hf, h⟩ := guard_bind_eq_ok.1 h
  obtain ⟨_, hb, h⟩ := bind_eq_ok.1 h
  obtain ⟨hn, -⟩ := guard_bind_eq_ok.1 h
  obtain ⟨a, ha, -, hle⟩ := State.checkBalance_eq_ok.1 hb
  exact ⟨Int.not_lt.1 hf, by simpa using hn, a, ha, hle⟩

/-- The name of a new account is free, also once the fee is paid. -/
theorem AccountCreate.get?_debit {op : AccountCreate} {u : Unit} (h : op.check s = .ok u) :
    (s.debit op.creator op.fee.amount).accounts.get? op.name = none :=
  contains_eq_false_iff.1 (contains_modify.trans (check_ok h).2.1)

theorem Asset.fits_of_add {a b c : Asset} (h : a.add b = .ok c) :
    Amount.Fits (a.amount + b.amount) := by
  obtain ⟨_, -, h⟩ := bind_eq_ok.1 h
  unfold Amount.checked? at h
  split at h
  · rename_i hx
    exact Classical.not_not.1 fun hn => by rw [if_neg hn] at hx; cases hx
  · cases h

/-- A transfer that is admitted: the sender has the money, and the recipient has room for it. -/
theorem Transfer.check_ok {op : Transfer} {u : Unit} (h : op.check s = .ok u) :
    0 < op.amount.amount ∧
      (∃ b, s.accounts.get? op.recipient = some b ∧
        b.balance.amount + op.amount.amount ≤ Amount.max) ∧
      ∃ a, s.accounts.get? op.sender = some a ∧ op.amount.amount ≤ a.balance.amount := by
  unfold Transfer.check at h
  obtain ⟨_, -, h⟩ := bind_eq_ok.1 h
  obtain ⟨hp, h⟩ := guard_bind_eq_ok.1 h
  obtain ⟨_, -, h⟩ := bind_eq_ok.1 h
  obtain ⟨_, hc, h⟩ := bind_eq_ok.1 h
  obtain ⟨b, hb, h⟩ := bind_eq_ok.1 h
  obtain ⟨_, hadd, -⟩ := bind_eq_ok.1 h
  obtain ⟨a, ha, -, hle⟩ := State.checkBalance_eq_ok.1 hc
  exact ⟨Int.not_le.1 hp, ⟨b, State.account_eq_ok.1 hb, (Asset.fits_of_add hadd).2⟩, a, ha, hle⟩

theorem TransferToCommonTokens.plan_ok {op : TransferToCommonTokens} {effects : ProxyEffects}
    (h : op.plan s = .ok effects) : 0 < op.amount.amount ∧
      (∃ b, s.accounts.get? op.target = some b ∧
        b.commonTokens + op.amount.amount ≤ Amount.max) ∧
      (∃ a, s.accounts.get? op.sender = some a ∧ op.amount.amount ≤ a.balance.amount) ∧
      s.stakeEffects op.target op.amount.amount = .ok effects := by
  unfold TransferToCommonTokens.plan at h
  obtain ⟨_, -, h⟩ := bind_eq_ok.1 h
  obtain ⟨hp, h⟩ := guard_bind_eq_ok.1 h
  obtain ⟨b, hb, h⟩ := bind_eq_ok.1 h
  obtain ⟨_, hc, h⟩ := bind_eq_ok.1 h
  obtain ⟨hf, h⟩ := guard_bind_eq_ok.1 h
  obtain ⟨a, ha, -, hle⟩ := State.checkBalance_eq_ok.1 hc
  exact ⟨Int.not_le.1 hp, ⟨b, State.account_eq_ok.1 hb, (not_not.1 hf).2⟩, ⟨a, ha, hle⟩, h⟩

/-- A schedule that is admitted: within the free stake it begins anew, or it ends. -/
theorem WithdrawCommonTokens.plan_cases {op : WithdrawCommonTokens} {now : Seconds} {p : PowerDown}
    (h : op.plan now s = .ok p) :
    (∃ a, s.accounts.get? op.account = some a ∧ op.total ≤ a.commonTokens - a.delegated) ∧
      0 ≤ op.total ∧ (op.total = 0 ∧ p = .idle ∨ op.total ≠ 0 ∧ p =
        ⟨max (op.total / (s.config.withdrawIntervals : Int)) 1,
          now.after s.config.withdrawIntervalSeconds, op.total, 0⟩) := by
  unfold WithdrawCommonTokens.plan at h
  obtain ⟨a, ha, h⟩ := bind_eq_ok.1 h
  obtain ⟨h₀, h⟩ := guard_bind_eq_ok.1 h
  obtain ⟨hle, h⟩ := guard_bind_eq_ok.1 h
  refine ⟨⟨a, State.account_eq_ok.1 ha, Int.not_lt.1 hle⟩, Int.not_lt.1 h₀, ?_⟩
  have hrest : ∀ x : Except LedgerError PowerDown, x = .ok p → x = (if op.total = 0 then
      if a.powerDown.rate = 0 then throw LedgerError.withdrawRateUnchanged else pure .idle
    else if max (op.total / (s.config.withdrawIntervals : Int)) 1 = a.powerDown.rate then
      throw .withdrawRateUnchanged
    else pure ⟨max (op.total / (s.config.withdrawIntervals : Int)) 1,
      now.after s.config.withdrawIntervalSeconds, op.total, 0⟩) →
      op.total = 0 ∧ p = .idle ∨
      op.total ≠ 0 ∧ p = ⟨max (op.total / (s.config.withdrawIntervals : Int)) 1,
        now.after s.config.withdrawIntervalSeconds, op.total, 0⟩ := by
    rintro x hx rfl
    split at hx
    · exact .inl ⟨‹_›, (guard_eq_ok.1 hx).2.symm⟩
    · exact .inr ⟨‹_›, (guard_eq_ok.1 hx).2.symm⟩
  dsimp only at h
  split at h
  · exact hrest _ (guard_bind_eq_ok.1 h).2 rfl
  · exact hrest _ h rfl

/-- A schedule that is admitted starts with nothing withdrawn, and takes no more than the free stake. -/
theorem WithdrawCommonTokens.plan_ok {op : WithdrawCommonTokens} {now : Seconds} {p : PowerDown}
    (h : op.plan now s = .ok p) : 0 ≤ p.rate ∧ p.withdrawn = 0 ∧ 0 ≤ p.total ∧
      ∃ a, s.accounts.get? op.account = some a ∧ p.total ≤ a.commonTokens - a.delegated := by
  obtain ⟨⟨a, ha, hle⟩, h₀, ⟨-, rfl⟩ | ⟨-, rfl⟩⟩ := plan_cases h
  · exact ⟨le_refl _, rfl, le_refl _, a, ha, h₀.trans hle⟩
  · exact ⟨le_max_of_le_right (by decide), rfl, h₀, a, ha, hle⟩

/-- What one account has lent another, or zero. -/
def State.loan (s : State) (k : AccountName × AccountName) : Amount :=
  (s.delegations.get? k).elim 0 (·.amount)

namespace DelegateCommonTokens

variable {op : DelegateCommonTokens} {now : Seconds} {p : Plan}

/-- The changes of a loan that its owner may make: more of the free stake is lent, or a part is
called back. -/
inductive Admits (op : DelegateCommonTokens) (now : Seconds) (s : State) (a : Account) : Plan → Prop
  | grow (h : s.loan (op.delegator, op.delegatee) < op.amount)
      (hle : op.amount - s.loan (op.delegator, op.delegatee) ≤
        a.commonTokens - a.delegated - a.powerDown.pending) :
      Admits op now s a
        { delegator := op.delegator
          delegatee := op.delegatee
          delegation := some ⟨op.delegator, op.delegatee, op.amount, now⟩
          delegatedDelta := op.amount - s.loan (op.delegator, op.delegatee)
          receivedDelta := op.amount - s.loan (op.delegator, op.delegatee)
          expiring := none }
  | shrink (h₀ : 0 ≤ op.amount) (h : op.amount < s.loan (op.delegator, op.delegatee)) :
      Admits op now s a
        { delegator := op.delegator
          delegatee := op.delegatee
          delegation :=
            if 0 < op.amount then some ⟨op.delegator, op.delegatee, op.amount, now⟩ else none
          delegatedDelta := 0
          receivedDelta := -(s.loan (op.delegator, op.delegatee) - op.amount)
          expiring := some ⟨op.delegator, s.loan (op.delegator, op.delegatee) - op.amount,
            now.after s.config.delegationReturnPeriod⟩ }

theorem plan_ok (h : op.plan now s = .ok p) : op.delegator ≠ op.delegatee ∧
    s.accounts.contains op.delegatee = true ∧
    ∃ a, s.accounts.get? op.delegator = some a ∧ op.Admits now s a p := by
  unfold plan at h
  obtain ⟨hne, h⟩ := guard_bind_eq_ok.1 h
  obtain ⟨h₀, h⟩ := guard_bind_eq_ok.1 h
  obtain ⟨a, ha, h⟩ := bind_eq_ok.1 h
  obtain ⟨_, hb, h⟩ := bind_eq_ok.1 h
  refine ⟨hne, State.checkAccount_eq_ok.1 hb, a, State.account_eq_ok.1 ha, ?_⟩
  have grow := @Admits.grow op now s a
  have shrink := @Admits.shrink op now s a
  unfold State.loan at grow shrink
  generalize hd : s.delegation? op.delegator op.delegatee = present at h
  change s.delegations.get? (op.delegator, op.delegatee) = present at hd
  rw [hd] at grow shrink
  rcases present with _ | d
  · obtain ⟨hchanged, h⟩ := guard_bind_eq_ok.1 h
    dsimp only at h
    split at h
    · obtain ⟨hle, h⟩ := guard_bind_eq_ok.1 h
      cases h
      exact grow ‹_› (Int.not_lt.1 hle)
    · exact absurd (le_antisymm (Int.not_lt.1 ‹_›) (Int.not_lt.1 h₀)) hchanged
  · obtain ⟨hchanged, h⟩ := guard_bind_eq_ok.1 h
    dsimp only at h
    split at h
    · obtain ⟨hle, h⟩ := guard_bind_eq_ok.1 h
      cases h
      exact grow ‹_› (Int.not_lt.1 hle)
    · cases h
      exact shrink (Int.not_lt.1 h₀) (lt_of_le_of_ne (Int.not_lt.1 ‹_›) hchanged)

theorem Admits.delegatedDelta_nonneg (h : op.Admits now s a p) : 0 ≤ p.delegatedDelta := by
  cases h with
  | grow h => exact Int.sub_nonneg_of_le h.le
  | shrink => exact le_refl _

end DelegateCommonTokens

theorem AccountCreate.solvent {op : AccountCreate} {u : Unit} (now : Seconds)
    (h : op.check s = .ok u) (hs : s.Solvent) : (op.commit now s).Solvent := by
  obtain ⟨-, -, a, ha, hle⟩ := check_ok h
  have hd := hs.debit ha hle
  have hs' : State.Solvent { s with accounts :=
      (s.debit op.creator op.fee.amount).accounts.insert op.name (op.account now) } :=
    { hd with accounts := hd.accounts.insert { Account.Solvent.fresh op.name op.memoKey now with } }
  unfold AccountCreate.commit
  dsimp only
  split <;> exact { hs' with }

theorem DelegateCommonTokens.Plan.solvent {p : DelegateCommonTokens.Plan} (h : 0 ≤ p.delegatedDelta)
    (hs : s.accounts.All fun _ a => a.Solvent) : (p.commit s).accounts.All fun _ a => a.Solvent := by
  obtain ⟨delegator, delegatee, delegation, delta, _, expiring⟩ := p
  have ha : ((s.accounts.modify delegator fun a => { a with delegated := a.delegated + delta }).All
      fun _ a => a.Solvent) :=
    hs.modify fun _ ha => { ha with delegated := Int.add_nonneg ha.delegated h }
  cases delegation <;> cases expiring <;> exact ha.modify fun _ ha => { ha with }

theorem SetWithdrawRoute.solvent {op : SetWithdrawRoute} {plan : SetWithdrawRoute.Plan}
    (h : op.plan s = .ok plan) (hs : s.withdrawRoutes.All fun _ rs =>
      rs.sumOf (fun _ r => r.percent) ≤ wholePercent) :
    (op.commit plan s).withdrawRoutes.All fun _ rs =>
      rs.sumOf (fun _ r => r.percent) ≤ wholePercent := by
  have hothers : ((s.withdrawRoutes.getD op.source ∅).erase op.target).sumOf (fun _ r => r.percent) +
      op.percent ≤ wholePercent := by
    have := (plan_ok h).2.2
    unfold otherPercents SortedMap.values at this
    rw [List.map_map] at this
    exact this
  rcases routes_commit plan s with he | he | he <;> rw [he]
  · refine hs.insert ?_
    rw [sumOf_insert]
    exact (Nat.add_comm ..).trans_le hothers
  · exact hs.erase
  · exact hs.insert ((Nat.le_add_right ..).trans hothers)

theorem Operation.Effect.solvent {op : Operation} (h : op.Effect l l') (hs : l.state.Solvent) :
    l'.state.Solvent := by
  have hk := h.keepsCore
  cases op with
  | accountCreate op => cases h with | accountCreate hc => exact AccountCreate.solvent _ hc hs
  | transfer op =>
    cases h with | transfer hc =>
    obtain ⟨hp, -, a, ha, hle⟩ := Transfer.check_ok hc
    exact { hs.debit ha hle with
      accounts := (hs.debit ha hle).accounts.modify fun _ h => h.credit hp.le }
  | transferToCommonTokens op =>
    have hacc : l'.state.accounts.All fun _ a => a.Solvent := by
      cases h with | transferToCommonTokens hc =>
      obtain ⟨hp, -, ⟨a, ha, hle⟩, -⟩ := TransferToCommonTokens.plan_ok hc
      exact State.solvent_applyProxyEffects _
        ((hs.debit ha hle).accounts.modify fun _ h => h.stake hp.le)
    cases h.footprint
    exact { hs with accounts := hacc }
  | withdrawCommonTokens op =>
    cases h with | withdrawCommonTokens hc =>
    exact { hs with
      accounts := hs.accounts.modify fun _ h =>
        { h with rate := (WithdrawCommonTokens.plan_ok hc).1 } }
  | setWithdrawRoute op =>
    have hk := hk rfl
    have hroutes : l'.state.withdrawRoutes.All fun _ rs =>
        rs.sumOf (fun _ r => r.percent) ≤ wholePercent := by
      cases h with | setWithdrawRoute hc => exact SetWithdrawRoute.solvent hc hs.routes
    cases h.footprint
    exact { hs.keepsCore hk with routes := hroutes }
  | delegateCommonTokens op =>
    have hacc : l'.state.accounts.All fun _ a => a.Solvent := by
      cases h with | delegateCommonTokens hc =>
      obtain ⟨-, -, a, -, hadm⟩ := DelegateCommonTokens.plan_ok hc
      exact DelegateCommonTokens.Plan.solvent hadm.delegatedDelta_nonneg hs.accounts
    cases h.footprint
    exact { hs with accounts := hacc }
  | createGrant op =>
    cases h with | createGrant hc =>
    obtain ⟨-, -, hp, -, a, ha, hle⟩ := CreateGrant.plan_ok hc
    exact { hs.debit ha hle with grants := hs.grants.insert hp.le }
  | createGroup op =>
    cases h
    exact { hs with groups := hs.groups.insert (le_refl (0 : Amount)) }
  | _ =>
    have hk := hk rfl
    cases h.footprint
    exact { hs.keepsCore hk with }

theorem checkBudget_ok {budget : Asset} {u : Unit} (h : checkBudget budget = .ok u) :
    0 ≤ budget.amount := by
  obtain ⟨_, -, h⟩ := bind_eq_ok.1 h
  exact Int.not_lt.1 (guard_eq_ok.1 h).1

/-- Every reward plan that a ledger makes is sound, and within its amount. -/
theorem Ledger.Plans.sound {p : RewardPlan} (h : l.Plans amount p) (hs : l.state.Linked)
    (hl : l.state.Apportioned) (hb : l.Balanced) : p.Sound l.state ∧ p.distributed ≤ amount := by
  cases h with
  | pass hc hm h =>
    obtain ⟨q, hq, hsound⟩ := State.planReward_ok hs hl hb (checkBudget_ok hc) hm
    cases hq.symm.trans h
    exact hsound
  | @holders id _ _ hc hm h =>
    obtain ⟨r, hr, -⟩ := bind_eq_ok.1 h
    obtain ⟨q, hq, hsound⟩ :=
      State.planHolders_ok hs hl (State.research_eq_ok.1 hr) (checkBudget_ok hc) hm
    cases hq.symm.trans h
    exact hsound

/-- All that is needed to pay rewards out of a ledger. -/
structure Ledger.Sound (l : Ledger) : Prop where
  linked : l.state.Linked
  apportioned : l.state.Apportioned
  balanced : l.Balanced
  solvent : l.state.Solvent

theorem Upkeep.solvent (h : Upkeep l l') (hs : l.state.Solvent) : l'.state.Solvent := by
  cases h with
  | grant hg h =>
    obtain rfl | ⟨shares, -, rfl⟩ := State.processGrant_ok h
    · exact hs
    · exact hs.afterShares _ _ (hs.grants _ _ hg) _
  | requests => exact { hs with }
  | partners =>
    have hk := State.changePartners_keeps (f := Account.core) (fun _ _ => rfl) l.state l.head.time
    obtain ⟨_, _, he⟩ := State.changePartners_footprint l.state l.head.time
    rw [he] at hk ⊢
    exact { hs.keepsCore hk with }
  | history => exact { hs with }
  | returns =>
    have ha : (l.state.returnDelegations l.head.time).1.accounts.All fun _ a => a.Solvent := by
      rw [State.accounts_returnDelegations]
      exact hs.accounts.foldl_modify fun _ _ _ _ ha => { ha with delegated := le_max_right _ _ }
    obtain ⟨_, _, he⟩ := State.returnDelegations_footprint l.state l.head.time
    rw [he] at ha ⊢
    exact { hs with accounts := ha }
  | deactivation content =>
    obtain ⟨_, _, _, _, he⟩ := Ledger.deactivate_footprint l content
    rw [he]
    exact { hs with }
  | proposals => exact { hs with }
  | clock => exact hs

theorem Change.solvent (h : Change l l') (hl : l.Sound) : l'.state.Solvent := by
  have hs := hl.solvent
  cases h with
  | operation h => exact h.solvent hs
  | reward hp => exact hs.applyReward _ (hp.sound hl.linked hl.apportioned hl.balanced).1
  | payment h => exact LedgerM.payPowerDown_solvent h hs
  | upkeep h => exact h.solvent hs

theorem Change.sound (h : Change l l') (hl : l.Sound) : l'.Sound where
  linked := h.linked hl.linked
  apportioned := h.apportioned hl.linked hl.apportioned
  balanced := h.balanced hl.linked hl.balanced
  solvent := h.solvent hl

theorem State.Solvent.ofGenesis (h : ofGenesis config genesis = .ok s) (hg : genesis.Storable) :
    s.Solvent := by
  refine ofGenesis_invariant h (fun _ => ⟨.empty, .empty, .empty, .empty⟩) fun s s' hc hs => ?_
  cases hc with
  | discipline => exact { hs with }
  | account hmem _ hb hct =>
    refine { hs with accounts := hs.accounts.insert ?_ }
    exact ⟨hb, hct, (hg _ hmem).2, le_refl (0 : Amount), le_refl (0 : Amount)⟩
  | witness => exact { hs with }

theorem Ledger.Sound.ofGenesis (h : ofGenesis config genesis = .ok l) (hg : genesis.Storable) :
    l.Sound where
  linked := .ofGenesis (ofGenesis_ok h).1
  apportioned := .ofGenesis (ofGenesis_ok h).1
  balanced := .ofGenesis h
  solvent := .ofGenesis (ofGenesis_ok h).1 hg

theorem Ledger.Reachable.sound (h : l.Reachable config genesis) (hg : genesis.Storable) : l.Sound :=
  h.invariant (fun _ h₀ => .ofGenesis h₀ hg) fun _ _ => Change.sound

end ResearchLedger
