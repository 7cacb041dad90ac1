import ResearchLedger.Proofs.Solvency

/-! The money of a ledger, and what each kind of write does to it. -/
namespace ResearchLedger

open SortedMap

variable {s s' : State} {l l' : Ledger} {a : Account} {amount x : Amount} {n : AccountName}

section Totals

variable {κ α : Type} [KeyOrder κ] {m : SortedMap κ α} {k : κ} {v : α} {f : α → Amount}

/-- A clamped addition that stays in range raises the sum by what is added. -/
theorem SortedMap.sumOf_raised {u : α → α} (hu : f (u v) = Amount.clamp (f v + x))
    (hk : m.get? k = some v) (h₀ : 0 ≤ f v + x) (hm : f v + x ≤ Amount.max) :
    (m.modify k u).sumOf (fun _ v => f v) = m.sumOf (fun _ v => f v) + x := by
  have := sumOf_modify (u := u) (f := fun _ v => f v) hk
  rw [hu, Amount.clamp_of_le h₀ hm] at this
  linarith

/-- Additions that together stay in range raise the sum by all that is added. -/
theorem SortedMap.sumOf_foldl_raised [DecidableEq κ] {u : Amount → α → α}
    (hu : ∀ x v, f (u x v) = Amount.clamp (f v + x)) {xs : List (κ × Amount)}
    (hf : m.All fun _ v => 0 ≤ f v) (hx : ∀ y ∈ xs, m.contains y.1 = true ∧ 0 ≤ y.2)
    (hm : m.sumOf (fun _ v => f v) + (xs.map (·.2)).sum ≤ Amount.max) :
    (xs.foldl (fun m y => m.modify y.1 (u y.2)) m).sumOf (fun _ v => f v) =
      m.sumOf (fun _ v => f v) + (xs.map (·.2)).sum := by
  induction xs generalizing m with
  | nil => simp
  | cons y xs ih =>
    obtain ⟨hc, hy⟩ := hx y List.mem_cons_self
    obtain ⟨v, hv⟩ := contains_iff.1 hc
    have hfv := hf _ _ hv
    have hle := le_sumOf (f := fun _ v => f v) hf hv
    have hrest : 0 ≤ (xs.map (·.2)).sum :=
      sum_map_nonneg fun z hz => (hx z (List.mem_cons_of_mem _ hz)).2
    rw [List.map_cons, List.sum_cons] at hm ⊢
    have hsum := sumOf_raised (hu y.2 v) hv (by linarith) (by linarith)
    rw [List.foldl_cons, ih, hsum]
    · linarith
    · exact hf.modify fun w hw => (hu y.2 w).symm ▸ Amount.clamp_nonneg (by linarith)
    · exact fun z hz => ⟨contains_modify.trans (hx z (List.mem_cons_of_mem _ hz)).1,
        (hx z (List.mem_cons_of_mem _ hz)).2⟩
    · rw [hsum]
      linarith

theorem Keeps.sumOf {β : Type} {m m' : SortedMap AccountName Account} {f : Account → β}
    (h : Keeps f m m') (g : β → Amount) :
    m'.sumOf (fun _ a => g (f a)) = m.sumOf fun _ a => g (f a) :=
  sumOf_eq_of_get? fun n => ((h.map g).map_eq n)

end Totals

/-- The money of an account, liquid and staked. -/
def Account.holdings (a : Account) : Amount × Amount := (a.balance.amount, a.commonTokens)

namespace State

/-- The liquid money of all accounts. -/
def balances (s : State) : Amount := s.accounts.sumOf fun _ a => a.balance.amount

/-- The stake of all accounts. -/
def stakes (s : State) : Amount := s.accounts.sumOf fun _ a => a.commonTokens

/-- The money that grants hold. -/
def escrow (s : State) : Amount := s.grants.sumOf fun _ g => g.amount

/-- The money of all groups. -/
def funds (s : State) : Amount := s.groups.sumOf fun _ g => g.balance

/-- All the money there is. -/
def money (s : State) : Amount := s.balances + s.stakes + s.escrow + s.funds

namespace Solvent

theorem balances_nonneg (h : s.Solvent) : 0 ≤ s.balances :=
  sumOf_nonneg fun n a ha => (h.accounts n a ha).balance

theorem stakes_nonneg (h : s.Solvent) : 0 ≤ s.stakes :=
  sumOf_nonneg fun n a ha => (h.accounts n a ha).commonTokens

theorem escrow_nonneg (h : s.Solvent) : 0 ≤ s.escrow := sumOf_nonneg h.grants

theorem funds_nonneg (h : s.Solvent) : 0 ≤ s.funds := sumOf_nonneg h.groups

theorem money_nonneg (h : s.Solvent) : 0 ≤ s.money :=
  Int.add_nonneg (Int.add_nonneg (Int.add_nonneg h.balances_nonneg h.stakes_nonneg)
    h.escrow_nonneg) h.funds_nonneg

theorem balance_le (h : s.Solvent) (ha : s.accounts.get? n = some a) :
    a.balance.amount ≤ s.balances :=
  le_sumOf (f := fun _ (a : Account) => a.balance.amount) (fun n a ha => (h.accounts n a ha).balance) ha

theorem stake_le (h : s.Solvent) (ha : s.accounts.get? n = some a) : a.commonTokens ≤ s.stakes :=
  le_sumOf (f := fun _ (a : Account) => a.commonTokens) (fun n a ha => (h.accounts n a ha).commonTokens) ha

end Solvent

theorem money_of_keeps (h : Keeps Account.holdings s.accounts s'.accounts)
    (hg : s'.grants = s.grants) (hr : s'.groups = s.groups) : s'.money = s.money := by
  have hb : s'.balances = s.balances := h.sumOf Prod.fst
  have hc : s'.stakes = s.stakes := h.sumOf Prod.snd
  unfold money escrow funds
  rw [hb, hc, hg, hr]

theorem money_of_keepsCore (h : Keeps Account.core s.accounts s'.accounts)
    (hg : s'.grants = s.grants) (hr : s'.groups = s.groups) : s'.money = s.money :=
  money_of_keeps (h.map Account.holdings) hg hr

theorem stakes_modifyAccount {f : Account → Account} (hf : ∀ a, (f a).commonTokens = a.commonTokens) :
    (s.modifyAccount n f).stakes = s.stakes :=
  Keeps.sumOf (Keeps.modify_self hf) fun x => x

theorem balances_modifyAccount {f : Account → Account}
    (hf : ∀ a, (f a).balance.amount = a.balance.amount) :
    (s.modifyAccount n f).balances = s.balances :=
  Keeps.sumOf (f := fun a => a.balance.amount) (Keeps.modify_self hf) fun x => x

theorem money_credit (ha : s.accounts.get? n = some a) (h₀ : 0 ≤ a.balance.amount + x)
    (hm : a.balance.amount + x ≤ Amount.max) : (s.credit n x).money = s.money + x := by
  have hb : (s.credit n x).balances = s.balances + x :=
    sumOf_raised (f := fun a : Account => a.balance.amount) rfl ha h₀ hm
  have hc : (s.credit n x).stakes = s.stakes := stakes_modifyAccount fun _ => rfl
  unfold money
  rw [hb, hc]
  change s.balances + x + s.stakes + s.escrow + s.funds = _
  linarith

theorem money_debit (ha : s.accounts.get? n = some a) (h₀ : x ≤ a.balance.amount)
    (hm : a.balance.amount - x ≤ Amount.max) : (s.debit n x).money = s.money - x :=
  money_credit (x := -x) ha (Int.sub_nonneg_of_le h₀) hm

/-- A change of one stake alone changes the money by as much. -/
theorem money_modifyAccount {f : Account → Account} (ha : s.accounts.get? n = some a)
    (hf : ∀ a, (f a).balance.amount = a.balance.amount) :
    (s.modifyAccount n f).money = s.money - a.commonTokens + (f a).commonTokens := by
  have hc : (s.modifyAccount n f).stakes + a.commonTokens = s.stakes + (f a).commonTokens :=
    sumOf_modify ha
  have hb : (s.modifyAccount n f).balances = s.balances := balances_modifyAccount hf
  unfold money
  rw [hb]
  change s.balances + (s.modifyAccount n f).stakes + s.escrow + s.funds = _
  linarith

theorem money_stake (ha : s.accounts.get? n = some a) (h₀ : 0 ≤ a.commonTokens + x)
    (hm : a.commonTokens + x ≤ Amount.max) :
    (s.modifyAccount n (·.stake x)).money = s.money + x := by
  rw [money_modifyAccount (f := (·.stake x)) ha fun _ => rfl]
  change s.money - a.commonTokens + Amount.clamp (a.commonTokens + x) = _
  rw [Amount.clamp_of_le h₀ hm]
  linarith

theorem money_applyProxyEffects (e : ProxyEffects) : (s.applyProxyEffects e).money = s.money :=
  money_of_keepsCore (applyProxyEffects_keepsCore e) (by rw [applyProxyEffects_eq])
    (by rw [applyProxyEffects_eq])

/-- Every balance is one that can be stored. -/
def BalancesFit (s : State) : Prop := s.accounts.All fun _ a => a.balance.amount ≤ Amount.max

theorem BalancesFit.money_debit (h : s.BalancesFit) (ha : s.accounts.get? n = some a) (h₀ : 0 ≤ x)
    (hx : x ≤ a.balance.amount) : (s.debit n x).money = s.money - x :=
  State.money_debit ha hx ((Int.sub_le_self _ h₀).trans (h n a ha))

namespace Solvent

theorem stakeOf_nonneg (h : s.Solvent) (n : AccountName) : 0 ≤ s.stakeOf n := by
  unfold stakeOf
  split
  · exact (h.accounts _ _ ‹_›).commonTokens
  · exact le_refl _

theorem balance_add_stakeOf_le (h : s.Solvent) (ha : s.accounts.get? n = some a) (k : AccountName) :
    a.balance.amount + s.stakeOf k ≤ s.money := by
  have := h.balance_le ha
  have := h.escrow_nonneg
  have := h.funds_nonneg
  have : s.stakeOf k ≤ s.stakes := by
    unfold stakeOf
    split
    · exact h.stake_le ‹_›
    · exact h.stakes_nonneg
  unfold money
  linarith

theorem stake_add_stakeOf_le (h : s.Solvent) (ha : s.accounts.get? n = some a) {k : AccountName}
    (hne : n ≠ k) : a.commonTokens + s.stakeOf k ≤ s.money := by
  have := h.balances_nonneg
  have := h.escrow_nonneg
  have := h.funds_nonneg
  have : a.commonTokens + s.stakeOf k ≤ s.stakes := by
    unfold stakeOf
    split
    · exact add_le_sumOf (f := fun _ (a : Account) => a.commonTokens)
        (fun n a ha => (h.accounts n a ha).commonTokens) ha ‹_› hne
    · rw [add_zero]
      exact h.stake_le ha
  unfold money
  linarith

theorem balance_le_money (h : s.Solvent) (ha : s.accounts.get? n = some a) :
    a.balance.amount ≤ s.money := by
  have := h.balance_add_stakeOf_le ha n
  have := h.stakeOf_nonneg n
  linarith

theorem balancesFit (h : s.Solvent) (hm : s.money ≤ Amount.max) : s.BalancesFit :=
  fun _ _ ha => (h.balance_le_money ha).trans hm

theorem money_credit (h : s.Solvent) (hc : s.accounts.contains n = true) (h₀ : 0 ≤ x)
    (hm : s.money + x ≤ Amount.max) : (s.credit n x).money = s.money + x := by
  obtain ⟨a, ha⟩ := contains_iff.1 hc
  have := h.balance_le_money ha
  have := (h.accounts n a ha).balance
  exact State.money_credit ha (by linarith) (by linarith)

end Solvent

end State

/-- A new account brings no money, and takes none but the fee. -/
theorem AccountCreate.money_commit {op : AccountCreate} {u : Unit} (now : Seconds)
    (h : op.check s = .ok u) : (op.commit now s).money = (s.debit op.creator op.fee.amount).money := by
  have hnew := get?_debit h
  have hc : State.money { s with accounts :=
      (s.debit op.creator op.fee.amount).accounts.insert op.name (op.account now) } =
        (s.debit op.creator op.fee.amount).money := by
    have hzero : (op.account now).balance.amount = 0 ∧ (op.account now).commonTokens = 0 :=
      ⟨rfl, rfl⟩
    unfold State.money State.balances State.stakes
    rw [sumOf_insert_new hnew, sumOf_insert_new hnew, hzero.1, hzero.2, zero_add, zero_add]
    rfl
  rw [← hc]
  unfold commit
  dsimp only
  split <;> rfl

theorem Transfer.money_commit {op : Transfer} {u : Unit} (h : op.check s = .ok u) (hs : s.Solvent)
    (hb : s.BalancesFit) : (op.commit s).money = s.money := by
  obtain ⟨hp, ⟨b, hrecipient, hfit⟩, a, ha, hle⟩ := check_ok h
  have hd := hb.money_debit ha hp.le hle
  -- what the recipient has when the sender has paid: less, if the two are the same
  obtain ⟨c, hc, h₀, hm⟩ : ∃ c,
      (s.debit op.sender op.amount.amount).accounts.get? op.recipient = some c ∧
        0 ≤ c.balance.amount ∧ c.balance.amount ≤ b.balance.amount := by
    have hk := (hs.accounts _ _ hrecipient).balance
    unfold State.debit State.modifyAccount
    dsimp only
    rw [get?_modify, hrecipient]
    split
    · obtain rfl : a = b := Option.some.inj (ha.symm.trans (‹op.sender = _› ▸ hrecipient))
      have hcl : (a.debit op.amount.amount).balance.amount = a.balance.amount - op.amount.amount :=
        Amount.clamp_of_le (Int.sub_nonneg_of_le hle)
          ((Int.sub_le_self _ hp.le).trans (hb _ _ ha))
      exact ⟨_, rfl, by linarith, by linarith⟩
    · exact ⟨b, rfl, hk, le_refl _⟩
  unfold commit
  rw [State.money_credit hc (by linarith) (by linarith), hd]
  linarith

theorem TransferToCommonTokens.money_commit {op : TransferToCommonTokens} {effects : ProxyEffects}
    (now : Seconds) (h : op.plan s = .ok effects) (hs : s.Solvent) (hbal : s.BalancesFit) :
    (op.commit now effects s).money = s.money := by
  obtain ⟨hp, ⟨b, hb, hfit⟩, ⟨a, ha, hle⟩, -⟩ := plan_ok h
  have hd := hbal.money_debit ha hp.le hle
  have hk : Keeps Account.commonTokens s.accounts
    (s.debit op.sender op.amount.amount).accounts := .modify_self fun _ => rfl
  obtain ⟨b', hb', hstake⟩ := hk.exists_after hb
  have h₀ := (hs.accounts _ _ hb).commonTokens
  unfold commit
  dsimp only
  rw [State.money_applyProxyEffects]
  change (State.modifyAccount (s.debit op.sender op.amount.amount) op.target
    (·.stake op.amount.amount)).money = _
  rw [State.money_stake hb' (by linarith) (by rw [hstake]; exact hfit), hd]
  linarith

theorem DelegateCommonTokens.Plan.money_commit (p : Plan) (s : State) :
    (p.commit s).money = s.money := by
  have hk := keeps (f := Account.holdings) (fun _ _ => rfl) (fun _ _ => rfl) p s
  obtain ⟨delegator, delegatee, delegation, _, _, expiring⟩ := p
  cases delegation <;> cases expiring <;> exact State.money_of_keeps hk rfl rfl

/-- The money of a grant goes from its owner into escrow. -/
theorem CreateGrant.money_commit {op : CreateGrant} {g : Grant} {block : Nat}
    (h : op.plan block s = .ok g) (hl : s.Linked) (hb : s.BalancesFit) :
    (g.commit s).money = s.money := by
  obtain ⟨hid, -, hp, -, a, ha, hle⟩ := plan_ok h
  have hd := hb.money_debit ha hp.le hle
  have hnew : s.grants.get? g.id = none := hid ▸ hl.grant_none
  have he : (g.commit s).escrow = g.amount + s.escrow := sumOf_insert_new hnew
  have hg : (g.commit s).money = (s.debit g.owner g.amount).money + g.amount := by
    unfold State.money
    rw [he]
    change (s.debit g.owner g.amount).balances + (s.debit g.owner g.amount).stakes +
      (g.amount + (s.debit g.owner g.amount).escrow) + (s.debit g.owner g.amount).funds = _
    linarith
  rw [hg, hd]
  linarith

theorem CreateGroup.money_commit {op : CreateGroup} (hl : s.Linked) :
    (op.commit s).money = s.money := by
  have hg : (op.commit s).funds = 0 + s.funds := sumOf_insert_new hl.group_none
  change s.balances + s.stakes + s.escrow + (op.commit s).funds = s.money
  rw [hg, zero_add]
  rfl

/-- All operations but the creation of an account only move money. -/
theorem Operation.Effect.money_eq {op : Operation} (h : op.Effect l l') (hl : l.Sound)
    (hb : l.state.BalancesFit) (hc : ∀ c, op ≠ .accountCreate c) :
    l'.state.money = l.state.money := by
  have hs := hl.solvent
  have hk := h.keepsCore
  cases op with
  | accountCreate => exact absurd rfl (hc _)
  | transfer => cases h with | transfer h => exact Transfer.money_commit h hs hb
  | transferToCommonTokens =>
    cases h with | transferToCommonTokens h => exact TransferToCommonTokens.money_commit _ h hs hb
  | withdrawCommonTokens =>
    cases h
    exact State.money_of_keeps (.modify_self fun _ => rfl) rfl rfl
  | delegateCommonTokens =>
    cases h
    exact DelegateCommonTokens.Plan.money_commit _ _
  | createGrant =>
    cases h with | createGrant h => exact CreateGrant.money_commit h hl.linked hb
  | createGroup =>
    cases h
    exact CreateGroup.money_commit hl.linked
  | _ =>
    have hk := hk rfl
    cases h.footprint
    exact State.money_of_keepsCore hk rfl rfl

/-- Operations only move money, but for the fees of new accounts. -/
theorem Operation.Effect.money {op : Operation} (h : op.Effect l l') (hl : l.Sound)
    (hf : 0 ≤ l.state.config.minAccountCreationFee) (hm : l.state.money ≤ Amount.max) :
    l'.state.money = l.state.money - op.fee ∧ 0 ≤ op.fee := by
  have hb := hl.solvent.balancesFit hm
  cases op with
  | accountCreate op =>
    cases h with | accountCreate hc =>
    obtain ⟨hfee, -, a, ha, hle⟩ := AccountCreate.check_ok hc
    have h₀ := hf.trans hfee
    exact ⟨(AccountCreate.money_commit _ hc).trans (hb.money_debit ha h₀ hle), h₀⟩
  | _ =>
    have heq := h.money_eq hl hb fun _ he => by cases he
    exact ⟨heq.trans (sub_zero _).symm, le_refl _⟩

namespace State

/-- Parts of a payout go to groups that exist. -/
theorem grantShares_ok {d : DisciplineId} {payout : Amount} {shares : SortedMap GroupId Amount}
    (h : s.grantShares d payout = .ok shares) (hs : s.Linked) :
    shares.All fun id _ => s.groups.contains id = true := by
  have step : ∀ (disc : Discipline) (xs : List (ContentId × VoteTotals))
      (before after : SortedMap GroupId Amount),
      xs.foldlM (fun shares x => s.addGrantShare disc payout shares x.1 x.2) before = .ok after →
      (before.All fun id _ => s.groups.contains id = true) →
      after.All fun id _ => s.groups.contains id = true := by
    intro disc xs
    induction xs with
    | nil => intro before after h hb; cases h; exact hb
    | cons x xs ih =>
      intro before after h hb
      obtain ⟨mid, hx, h⟩ := foldlM_eq_ok_cons.1 h
      refine ih mid after h ?_
      unfold addGrantShare at hx
      split at hx
      · cases hx; exact hb
      · obtain ⟨c, -, hx⟩ := bind_eq_ok.1 hx
        split at hx
        · cases hx; exact hb
        · obtain ⟨part, -, hx⟩ := bind_eq_ok.1 hx
          split at hx
          · cases hx; exact hb
          · obtain ⟨r, hr, hx⟩ := bind_eq_ok.1 hx
            cases hx
            exact hb.insert (hs.researches _ _ (research_eq_ok.1 hr)).2.2
  obtain ⟨disc, -, h⟩ := bind_eq_ok.1 h
  split at h
  · cases h; exact .empty
  · exact step disc _ _ _ h .empty

theorem funds_creditGroup {id : GroupId} (hs : s.groups.All fun _ g => 0 ≤ g.balance)
    (hc : s.groups.contains id = true) (h₀ : 0 ≤ x) (hm : s.funds + x ≤ Amount.max) :
    (s.creditGroup id x).funds = s.funds + x := by
  obtain ⟨g, hg⟩ := contains_iff.1 hc
  have := hs id g hg
  have : g.balance ≤ s.funds := le_sumOf (f := fun _ (g : ResearchGroup) => g.balance) hs hg
  exact sumOf_raised (f := fun g : ResearchGroup => g.balance) rfl hg (by linarith) (by linarith)

/-- What groups receive is what the grant spends. -/
theorem funds_payShares (id : GrantId) {shares : List (GroupId × Amount)} {remaining : Amount}
    (hs : s.groups.All fun _ g => 0 ≤ g.balance)
    (hc : ∀ y ∈ shares, s.groups.contains y.1 = true) (hr : 0 ≤ remaining)
    (hm : s.funds + remaining ≤ Amount.max) :
    (payShares id s remaining shares).1.funds + (payShares id s remaining shares).2.1 =
      s.funds + remaining := by
  induction shares generalizing s remaining with
  | nil => rfl
  | cons y shares ih =>
    obtain ⟨group, part⟩ := y
    rw [payShares]
    split
    · rfl
    · have hp : 0 ≤ min part remaining := by lia
      have hle : min part remaining ≤ remaining := min_le_right _ _
      have hf := funds_creditGroup hs (hc _ List.mem_cons_self) hp (by linarith)
      have hs₁ : (s.creditGroup group (min part remaining)).groups.All fun _ g => 0 ≤ g.balance :=
        hs.modify fun g hg => Amount.clamp_nonneg (Int.add_nonneg hg hp)
      have := ih hs₁ (fun z hz => contains_modify.trans (hc z (List.mem_cons_of_mem _ hz)))
        (Int.sub_nonneg_of_le hle) (by rw [hf]; linarith)
      rw [hf] at this
      dsimp only
      linarith

/-- A grant that pays moves money to groups, and gives what is left back or keeps it. -/
theorem money_afterShares {block : Nat} {id : GrantId} {g : Grant}
    {shares : SortedMap GroupId Amount} (hs : s.Solvent) (hm : s.money ≤ Amount.max)
    (hg : s.grants.get? id = some g) (ho : s.accounts.contains g.owner = true)
    (hc : shares.All fun id _ => s.groups.contains id = true) :
    (s.afterShares block id g shares).money = s.money := by
  have hamount := hs.grants id g hg
  have hle : g.amount ≤ s.escrow := le_sumOf (f := fun _ (g : Grant) => g.amount) hs.grants hg
  have hbal := hs.balances_nonneg
  have hsta := hs.stakes_nonneg
  have hmoney : s.money = s.balances + s.stakes + s.escrow + s.funds := rfl
  have hpaid := funds_payShares id hs.groups
    (fun y hy => hc _ _ (mem_entries_iff.1 hy)) hamount (by linarith)
  have hrest := Solvent.payShares id shares.entries hs.groups hamount
  obtain ⟨groups, he⟩ := payShares_footprint id shares.entries s g.amount
  unfold afterShares
  generalize payShares id s g.amount shares.entries = paid at hpaid hrest he ⊢
  obtain ⟨s₁, rest, events⟩ := paid
  subst he
  dsimp only at hpaid hrest ⊢
  split
  · have hgone : State.money { s with groups, grants := s.grants.erase id } = s.money - rest := by
      have herase : s.escrow = g.amount + (s.grants.erase id).sumOf fun _ g => g.amount :=
        sumOf_eq_erase hg
      change s.balances + s.stakes + (s.grants.erase id).sumOf (fun _ g => g.amount) +
        State.funds { s with groups } = _
      linarith
    unfold finishGrant
    dsimp only
    split
    · have hs₁ : Solvent { s with groups, grants := s.grants.erase id } :=
        { hs with grants := hs.grants.erase, groups := hrest.1 }
      rw [hs₁.money_credit ho hrest.2 (by rw [hgone]; linarith), hgone]
      linarith
    · rw [hgone]
      linarith
  · have hkept := sumOf_modify (f := fun _ (g : Grant) => g.amount)
      (u := fun g => { g with amount := rest }) hg
    change s.balances + s.stakes + (s.grants.modify id _).sumOf (fun _ g => g.amount) +
      State.funds { s with groups } = _
    unfold escrow at hmoney
    linarith

end State

theorem Upkeep.money (h : Upkeep l l') (hl : l.Sound) (hm : l.state.money ≤ Amount.max) :
    l'.state.money = l.state.money := by
  cases h with
  | grant hg h =>
    obtain rfl | ⟨shares, hshares, rfl⟩ := State.processGrant_ok h
    · rfl
    · refine State.money_afterShares hl.solvent hm hg (hl.linked.grants _ _ hg).2 ?_
      rcases hshares with rfl | hshares
      · exact .empty
      · exact State.grantShares_ok hshares hl.linked
  | requests => rfl
  | partners =>
    have hk := State.changePartners_keeps (f := Account.core) (fun _ _ => rfl) l.state l.head.time
    obtain ⟨_, _, he⟩ := State.changePartners_footprint l.state l.head.time
    rw [he] at hk ⊢
    exact State.money_of_keepsCore hk rfl rfl
  | history => rfl
  | returns =>
    have hk := State.returnDelegations_keeps (f := Account.holdings) (fun _ _ => rfl) l.state l.head.time
    obtain ⟨_, _, he⟩ := State.returnDelegations_footprint l.state l.head.time
    rw [he] at hk ⊢
    exact State.money_of_keeps hk rfl rfl
  | deactivation content =>
    obtain ⟨_, _, _, _, he⟩ := Ledger.deactivate_footprint l content
    rw [he]
    rfl
  | proposals => rfl
  | clock => rfl

end ResearchLedger
