import ResearchLedger.Proofs.Conservation
import ResearchLedger.Proofs.GrantTurns
import ResearchLedger.Proofs.Routes

/-! What a block reports accounts for all that it moves, but for the stake that a payment loses when it
leads back to its source. -/
namespace ResearchLedger

open SortedMap

variable {s s' s₁ : State} {l l' : Ledger} {config : Config} {genesis : Genesis}
  {events more : List Event} {name n : AccountName} {amount deposit x : Amount}

namespace Event

/-- What an event adds to the balance of an account. -/
def toBalance (n : AccountName) : Event → Amount
  | withdrawFilled _ target _ deposited false => if target = n then deposited else 0
  | grantFinished _ owner refunded => if owner = n then refunded else 0
  | _ => 0

/-- What it adds to the stake of an account. -/
def toStake (n : AccountName) : Event → Amount
  | withdrawFilled _ target _ deposited true => if target = n then deposited else 0
  | _ => 0

/-- What it takes from the stake of an account. -/
def fromStake (n : AccountName) : Event → Amount
  | withdrawFilled source _ _ deposited _ => if source = n then deposited else 0
  | _ => 0

/-- What it gives back to an account that was on loan. -/
def returnedTo (n : AccountName) : Event → Amount
  | delegationReturned account amount => if account = n then amount else 0
  | _ => 0

/-- What it adds to the money of a group. -/
def grantedTo (id : GroupId) : Event → Amount
  | grantPaid _ group amount => if group = id then amount else 0
  | _ => 0

/-- An event that tells of no money. -/
structure Moneyless (e : Event) : Prop where
  balance : ∀ n, e.toBalance n = 0
  stake : ∀ n, e.toStake n = 0 ∧ e.fromStake n = 0
  delegated : ∀ n, e.returnedTo n = 0
  funds : ∀ id, e.grantedTo id = 0

end Event

namespace State

/-- The stake of an account that is on loan, or zero. -/
def delegatedOf (s : State) (n : AccountName) : Amount :=
  ((s.accounts.get? n).map (·.delegated)).getD 0

/-- By how much the stake of an account falls short of what events tell. -/
def shortfall (s : State) (events : List Event) (s' : State) (n : AccountName) : Amount :=
  s.stakeOf n + (events.map (·.toStake n)).sum - (events.map (·.fromStake n)).sum - s'.stakeOf n

/-- What events tell is all that happens to balances, to loans and to the money of groups, and to stakes
but for what is lost. -/
structure AccountedBy (s : State) (events : List Event) (lost : AccountName → Amount) (s' : State) :
    Prop where
  balance : ∀ n, s'.balanceOf n = s.balanceOf n + (events.map (·.toBalance n)).sum
  stake : ∀ n, s.shortfall events s' n = lost n
  delegated : ∀ n, s'.delegatedOf n = s.delegatedOf n - (events.map (·.returnedTo n)).sum
  funds : ∀ id, s'.fundsOf id = s.fundsOf id + (events.map (·.grantedTo id)).sum

/-- What happens one after the other falls short by what each part does. -/
theorem shortfall_append (n : AccountName) :
    s.shortfall (events ++ more) s' n = s.shortfall events s₁ n + s₁.shortfall more s' n := by
  unfold shortfall
  simp only [List.map_append, List.sum_append]
  abel

namespace AccountedBy

variable {lost lost' : AccountName → Amount}

theorem trans (h : s.AccountedBy events lost s₁) (h' : s₁.AccountedBy more lost' s') :
    s.AccountedBy (events ++ more) (fun n => lost n + lost' n) s' where
  balance n := by rw [h'.balance, h.balance, List.map_append, List.sum_append, add_assoc]
  stake n := by rw [shortfall_append, h.stake, h'.stake]
  delegated n := by rw [h'.delegated, h.delegated, List.map_append, List.sum_append, sub_sub]
  funds id := by rw [h'.funds, h.funds, List.map_append, List.sum_append, add_assoc]

theorem exact_trans (h : s.AccountedBy events (fun _ => 0) s₁) (h' : s₁.AccountedBy more lost s') :
    s.AccountedBy (events ++ more) lost s' := by
  simpa only [zero_add] using h.trans h'

theorem trans_exact (h : s.AccountedBy events lost s₁) (h' : s₁.AccountedBy more (fun _ => 0) s') :
    s.AccountedBy (events ++ more) lost s' := by
  simpa only [add_zero] using h.trans h'

/-- What moves no money and tells of none. -/
theorem moneyless (hk : Keeps (fun a => (a.balance.amount, a.commonTokens, a.delegated)) s.accounts
    s'.accounts) (hg : s'.groups = s.groups) (he : ∀ e ∈ events, e.Moneyless) :
    s.AccountedBy events (fun _ => 0) s' := by
  have hzero {f : Event → Amount} (hf : ∀ e : Event, e.Moneyless → f e = 0) :
      (events.map f).sum = 0 := by
    refine List.sum_eq_zero fun x hx => ?_
    obtain ⟨e, hmem, rfl⟩ := List.mem_map.1 hx
    exact hf e (he e hmem)
  constructor
  · intro n
    have hbalance : Keeps (fun a => a.balance.amount) s.accounts s'.accounts := hk.map Prod.fst
    rw [balanceOf_eq, balanceOf_eq, hbalance.map_eq n, hzero fun e he => he.balance n, add_zero]
  · intro n
    rw [shortfall, hzero fun e he => (he.stake n).1, hzero fun e he => (he.stake n).2,
      stakeOf_congr (hk.map fun x => x.2.1)]
    abel
  · intro n
    unfold delegatedOf
    rw [hzero fun e he => he.delegated n, sub_zero]
    exact congrArg (Option.getD · 0) ((hk.map fun x => x.2.2).map_eq n)
  · intro id
    unfold fundsOf
    rw [hg, hzero fun e he => he.funds id, add_zero]

end AccountedBy

variable {id : GrantId} {g : Grant} {block : Nat} {shares : SortedMap GroupId Amount}

theorem balanceOf_raised {a : Account} (ha : s.accounts.get? name = some a)
    (h₀ : 0 ≤ a.balance.amount + x) (hm : a.balance.amount + x ≤ Amount.max) (n : AccountName) :
    (s.credit name x).balanceOf n = s.balanceOf n + if name = n then x else 0 := by
  rw [balanceOf_credit (contains_of_get? ha)]
  split
  · subst n
    have hbalance : s.balanceOf name = a.balance.amount := by
      rw [balanceOf_eq, ha]
      rfl
    rw [hbalance]
    exact Amount.clamp_of_le h₀ hm
  · rw [add_zero]

theorem fundsOf_creditGroup {group : GroupId} (hs : s.groups.All fun _ g => 0 ≤ g.balance)
    (hc : s.groups.contains group = true) (h₀ : 0 ≤ x) (hm : s.funds + x ≤ Amount.max) (id : GroupId) :
    (s.creditGroup group x).fundsOf id = s.fundsOf id + if group = id then x else 0 := by
  obtain ⟨g, hg⟩ := contains_iff.1 hc
  have hle : g.balance ≤ s.funds := le_sumOf (f := fun _ (g : ResearchGroup) => g.balance) hs hg
  have hnonneg := hs _ _ hg
  unfold fundsOf
  change ((SortedMap.get? (s.groups.modify group _) id).map _).getD 0 = _
  rw [get?_modify]
  split
  · subst id
    rw [hg]
    exact Amount.clamp_of_le (by linarith) (by linarith)
  · rw [add_zero]

/-- Groups that are paid have as much more as is told. -/
theorem fundsOf_foldl_creditGroup {xs : List (GroupId × Amount)}
    (hs : s.groups.All fun _ g => 0 ≤ g.balance) (hc : ∀ y ∈ xs, s.groups.contains y.1 = true)
    (hp : ∀ y ∈ xs, 0 < y.2) (hm : s.funds + (xs.map (·.2)).sum ≤ Amount.max) (id : GroupId) :
    (xs.foldl (fun s y => s.creditGroup y.1 y.2) s).fundsOf id =
      s.fundsOf id + (xs.map fun y => if y.1 = id then y.2 else 0).sum := by
  induction xs generalizing s with
  | nil => exact (add_zero _).symm
  | cons y xs ih =>
    rw [List.forall_mem_cons] at hc hp
    rw [List.map_cons, List.sum_cons] at hm
    have hrest : 0 ≤ (xs.map (·.2)).sum := sum_map_nonneg fun z hz => (hp.2 z hz).le
    have hfunds := funds_creditGroup hs hc.1 hp.1.le (by linarith)
    have hfirst := fundsOf_creditGroup hs hc.1 hp.1.le (by linarith) id
    have hs₁ : (s.creditGroup y.1 y.2).groups.All fun _ g => 0 ≤ g.balance :=
      hs.modify fun g hg => Amount.clamp_nonneg (Int.add_nonneg hg hp.1.le)
    rw [List.foldl_cons, ih hs₁ (fun z hz => contains_modify.trans (hc.2 z hz)) hp.2
      (by rw [hfunds]; linarith), hfirst, List.map_cons, List.sum_cons, add_assoc]

/-- A grant tells of all that it pays. -/
theorem accountedBy_payGroups (hs : s.Solvent)
    (hc : shares.All fun id _ => s.groups.contains id = true) (hp : shares.All fun _ part => 0 < part)
    (hm : s.funds + shares.totalParts ≤ Amount.max) : s.AccountedBy
      (shares.entries.map fun x => .grantPaid id x.1 x.2) (fun _ => 0) (s.payGroups shares) := by
  have hgroups (k : GroupId) : (s.payGroups shares).fundsOf k =
      s.fundsOf k + (shares.entries.map fun y => if y.1 = k then y.2 else 0).sum :=
    fundsOf_foldl_creditGroup hs.groups (fun y hy => hc _ _ (mem_entries_iff.1 hy))
      (fun y hy => hp _ _ (mem_entries_iff.1 hy)) hm k
  have hsum {f : Event → Amount} (hf : ∀ x : GroupId × Amount, f (.grantPaid id x.1 x.2) = 0) :
      ((shares.entries.map fun x => Event.grantPaid id x.1 x.2).map f).sum = 0 := by
    simp [Function.comp_def, hf]
  have haccounts : (s.payGroups shares).accounts = s.accounts :=
    accounts_foldl_creditGroup (α := GroupId × Amount) (·.1) (·.2) shares.entries s
  constructor
  · intro n
    rw [balanceOf_eq, balanceOf_eq, haccounts, hsum fun _ => rfl, add_zero]
  · intro n
    rw [shortfall, stakeOf_eq, stakeOf_eq, haccounts, hsum fun _ => rfl, hsum fun _ => rfl]
    abel
  · intro n
    rw [delegatedOf, haccounts, hsum fun _ => rfl, sub_zero]
    rfl
  · intro k
    rw [hgroups, List.map_map]
    rfl

/-- A grant that ends tells what it gives back. -/
theorem accountedBy_finishGrant {a : Account} (ha : s.accounts.get? name = some a)
    (hb : 0 ≤ a.balance.amount) (h₀ : 0 ≤ x) (hm : a.balance.amount + x ≤ Amount.max) :
    s.AccountedBy [.grantFinished id name x] (fun _ => 0) (s.finishGrant id name x) := by
  have hcredit : s.AccountedBy [.grantFinished id name x] (fun _ => 0)
      (State.credit { s with grants := s.grants.erase id } name x) := by
    have hkeeps : Keeps (·.delegated) s.accounts (s.accounts.modify name (·.credit x)) :=
      .modify_self fun _ => rfl
    constructor
    · intro n
      refine (balanceOf_raised (s := { s with grants := s.grants.erase id }) ha
        (Int.add_nonneg hb h₀) hm n).trans ?_
      exact congrArg _ (add_zero _).symm
    · intro n
      rw [shortfall, stakeOf_credit]
      change s.stakeOf n + 0 - 0 - s.stakeOf n = 0
      abel
    · intro n
      exact (congrArg (Option.getD · 0) (hkeeps.map_eq n)).trans (sub_zero _).symm
    · exact fun _ => (add_zero _).symm
  unfold finishGrant
  dsimp only
  split
  · exact hcredit
  · obtain rfl : x = 0 := le_antisymm (not_lt.1 ‹_›) h₀
    refine .moneyless .refl rfl fun e he => ?_
    rw [List.mem_singleton.1 he]
    exact ⟨fun _ => ite_self _, fun _ => ⟨rfl, rfl⟩, fun _ => rfl, fun _ => rfl⟩

/-- A grant tells of all that it pays, and of what it gives back. -/
theorem accountedBy_afterTurn (hs : s.Solvent) (hm : s.money ≤ Amount.max)
    (hg : s.grants.get? id = some g) (ho : s.accounts.contains g.owner = true)
    (hc : shares.All fun id _ => s.groups.contains id = true) (hp : shares.All fun _ part => 0 < part)
    (hle : shares.totalParts ≤ g.amount) :
    s.AccountedBy ((shares.entries.map fun x => .grantPaid id x.1 x.2) ++
      if g.Ends block shares.totalParts then
        [.grantFinished id g.owner (g.amount - shares.totalParts)] else []) (fun _ => 0)
      (s.afterTurn block id g shares) := by
  have hescrow : g.amount ≤ s.escrow := le_sumOf (f := fun _ (g : Grant) => g.amount) hs.grants hg
  have hbalances := hs.balances_nonneg
  have hstakes := hs.stakes_nonneg
  have hfunds := hs.funds_nonneg
  have hmoney : s.money = s.balances + s.stakes + s.escrow + s.funds := rfl
  have hpaid : 0 ≤ shares.totalParts := sumOf_nonneg (hp.mono fun _ _ h => h.le)
  refine (accountedBy_payGroups hs hc hp (by linarith)).exact_trans ?_
  obtain ⟨a, ha⟩ := contains_iff.1 ho
  have hbalance := hs.balance_le ha
  obtain ⟨groups, he⟩ := s.payGroups_footprint shares
  unfold afterTurn
  rw [he]
  split
  · exact accountedBy_finishGrant ha (hs.accounts _ _ ha).balance (Int.sub_nonneg_of_le hle)
      (by linarith)
  · exact .moneyless .refl rfl fun _ he => absurd he List.not_mem_nil

/-- All that is due comes back to accounts that exist, and nothing to others. -/
theorem Lent.delegatedOf_returnDelegations (h : s.Lent) (now : Seconds) (n : AccountName) :
    (s.returnDelegations now).1.delegatedOf n = s.delegatedOf n -
      ((s.dueDelegations now).map fun e => if e.2.delegator = n then e.2.amount else 0).sum := by
  have hnames := returnDelegations_keeps (f := Account.name) (fun _ _ => rfl) s now
  rw [delegatedOf, delegatedOf]
  cases ha : s.accounts.get? n with
  | some a =>
    obtain ⟨b, hb, -⟩ := hnames.exists_after ha
    rw [hb]
    exact (h.returnDelegations now).2 n a b ha hb
  | none =>
    have hb : (s.returnDelegations now).1.accounts.get? n = none := by
      simpa [ha] using hnames.map_eq n
    have hnone : ∀ e ∈ s.dueDelegations now, e.2.delegator ≠ n := by
      intro e he heq
      have hc := (h.expiring _ _ (mem_entries_iff.1 (List.mem_filter.1 he).1)).2.2
      rw [heq, contains, ha] at hc
      cases hc
    rw [hb, List.map_congr_left fun e he => if_neg (hnone e he)]
    simp

/-- Each loan that comes back is told. -/
theorem Lent.accountedBy_returnDelegations (h : s.Lent) (now : Seconds) : s.AccountedBy
    (s.returnDelegations now).2 (fun _ => 0) (s.returnDelegations now).1 := by
  have hkeeps := returnDelegations_keeps (f := fun a => (a.balance.amount, a.commonTokens))
    (fun _ _ => rfl) s now
  have hsum {f : Event → Amount} (hf : ∀ n x, f (.delegationReturned n x) = 0) :
      ((s.returnDelegations now).2.map f).sum = 0 := by
    refine List.sum_eq_zero fun x hx => ?_
    obtain ⟨e, he, rfl⟩ := List.mem_map.1 hx
    obtain ⟨due, -, rfl⟩ := List.mem_map.1 he
    exact hf _ _
  constructor
  · intro n
    have hbalance : Keeps (fun a => a.balance.amount) s.accounts
        (s.returnDelegations now).1.accounts := hkeeps.map Prod.fst
    rw [balanceOf_eq, balanceOf_eq, hbalance.map_eq, hsum fun _ _ => rfl, add_zero]
  · intro n
    rw [shortfall, hsum fun _ _ => rfl, hsum fun _ _ => rfl, stakeOf_congr (hkeeps.map Prod.snd)]
    abel
  · intro n
    rw [h.delegatedOf_returnDelegations]
    unfold State.returnDelegations
    rw [List.map_map]
    rfl
  · intro id
    have hgroups : (s.returnDelegations now).1.groups = s.groups := by
      obtain ⟨_, _, he⟩ := returnDelegations_footprint s now
      rw [he]
    rw [fundsOf, hgroups, hsum fun _ _ => rfl, add_zero]
    rfl

end State

namespace LedgerM

theorem processGrant_accounted {id : GrantId} (hl : l.Granting) (hm : l.state.money ≤ Amount.max)
    (h : processGrant id l = (.ok events, l')) :
    l.state.AccountedBy events (fun _ => 0) l'.state := by
  obtain ⟨g, s, hg, hp, rfl⟩ := processGrant_eq_ok.1 h
  obtain ⟨-, rfl, rfl⟩ | ⟨shares, -, hdue, hidle, hpos, hle, rfl, rfl⟩ :=
    State.processGrant_cases hl hg hp
  · exact .moneyless .refl rfl fun _ he => absurd he List.not_mem_nil
  · have hc : shares.All fun id _ => l.state.groups.contains id = true := by
      by_cases hin : l.head.block ≤ g.endBlock
      · exact State.grantShares_ok (hdue hin) hl.sound.linked
      · rw [hidle (not_le.1 hin)]
        exact .empty
    exact State.accountedBy_afterTurn hl.sound.solvent hm hg (hl.sound.linked.grants _ _ hg).2 hc hpos
      (hle.trans (min_le_right _ _))

theorem processGrants_accounted (hl : l.Granting) (hm : l.state.money ≤ Amount.max)
    (h : processGrants l = (.ok events, l')) : l.state.AccountedBy events (fun _ => 0) l'.state := by
  obtain ⟨_, _, hget, h⟩ := bind_eq_ok.1 h
  cases hget
  refine (collect_relates (P := fun l => l.Granting ∧ l.state.money ≤ Amount.max)
    (R := fun l events l' => l.state.AccountedBy events (fun _ => 0) l'.state)
    (fun _ => .moneyless .refl rfl fun _ he => absurd he List.not_mem_nil)
    (fun _ _ _ _ _ => .exact_trans) (fun id _ l₁ e l₂ h hl => ?_) h ⟨hl, hm⟩).2
  have hu := upkeeps_processGrant id l₁
  rw [h] at hu
  exact ⟨⟨hu.granting hl.1, (hu.money hl.1.sound hl.2).2.1.trans_le hl.2⟩,
    processGrant_accounted hl.1 hl.2 h⟩

/-- What routes do that are paid: the source has more stake only as far as it can be stored. -/
structure Pours (source : AccountName) (s : State) (events : List Event) (s' : State) : Prop where
  balance : ∀ n, s'.balanceOf n = s.balanceOf n + (events.map (·.toBalance n)).sum
  others : ∀ n, n ≠ source → s'.stakeOf n = s.stakeOf n + (events.map (·.toStake n)).sum
  own : s'.stakeOf source = min (s.stakeOf source + (events.map (·.toStake source)).sum) Amount.max
  gained : 0 ≤ (events.map (·.toStake source)).sum

section Routes

variable {source : AccountName} {r : WithdrawRoute} {rs : List WithdrawRoute}

theorem Pours.nil (h : s.stakeOf source ≤ Amount.max) : Pours source s [] s where
  balance _ := (add_zero _).symm
  others _ _ := (add_zero _).symm
  own := ((min_eq_left ((add_zero _).trans_le h)).trans (add_zero _)).symm
  gained := le_refl _

theorem Pours.trans (h : Pours source s events s₁) (h' : Pours source s₁ more s') :
    Pours source s (events ++ more) s' where
  balance n := by rw [h'.balance, h.balance, List.map_append, List.sum_append, add_assoc]
  others n hn := by rw [h'.others n hn, h.others n hn, List.map_append, List.sum_append, add_assoc]
  own := by
    have := h'.gained
    rw [h'.own, h.own, List.map_append, List.sum_append]
    lia
  gained := by
    rw [List.map_append, List.sum_append]
    exact Int.add_nonneg h.gained h'.gained

/-- Stake that is credited, as far as it can be stored. -/
theorem stakeOf_staked {target : AccountName} {b : Account} (hb : s.accounts.get? target = some b)
    (h₀ : 0 ≤ b.commonTokens + x) (now : Seconds) (effects : ProxyEffects) (n : AccountName) :
    (State.applyProxyEffects (State.creditExpertise (s.modifyAccount target (·.stake x)) target
      commonDiscipline x now) effects).stakeOf n =
      if target = n then min (s.stakeOf n + x) Amount.max else s.stakeOf n := by
  rw [State.stakeOf_applyProxyEffects]
  change State.stakeOf (State.modifyAccount _ _ _) n = _
  rw [State.stakeOf_modifyAccount]
  split
  · subst n
    rw [hb, State.stakeOf_of_get? hb]
    exact Amount.clamp_of_nonneg h₀
  · rfl

theorem RoutePaid.pours (h : RoutePaid amount r l deposit l') (hs : l.state.Solvent)
    (hc : l.state.accounts.contains r.target = true) (h₀ : 0 ≤ amount) (ham : amount ≤ Amount.max)
    (hp : r.percent ≤ wholePercent)
    (hm : l.state.money - l.state.stakeOf source + deposit ≤ Amount.max)
    (hn : l.state.stakeOf source ≤ Amount.max) :
    Pours source l.state (r.fills source amount) l'.state := by
  have hshare : percentShare amount r.percent = .ok (r.deposit amount) := percentShare_eq h₀ ham hp
  obtain ⟨b, hb⟩ := contains_iff.1 hc
  have hsb := hs.accounts _ _ hb
  unfold WithdrawRoute.fills
  cases h with
  | skip hd hnone =>
    obtain rfl := Except.ok.inj (hshare.symm.trans hd)
    rw [if_pos hnone]
    exact .nil hn
  | @stake _ effects hd hpos hr he =>
    obtain rfl := Except.ok.inj (hshare.symm.trans hd)
    rw [if_neg (not_le.2 hpos), hr]
    generalize r.deposit amount = deposit at *
    have hstake := stakeOf_staked hb (Int.add_nonneg hsb.commonTokens hpos.le) l.head.time effects
    have hstaked : Keeps (fun a => a.balance.amount) l.state.accounts
        (l.state.accounts.modify r.target (·.stake deposit)) := .modify_self fun _ => rfl
    have hkeeps := hstaked.trans (State.applyProxyEffects_keeps (s := State.creditExpertise
      (l.state.modifyAccount r.target (·.stake deposit)) r.target commonDiscipline deposit l.head.time)
      (fun _ _ => rfl) effects)
    constructor
    · intro n
      rw [State.balanceOf_eq, State.balanceOf_eq, hkeeps.map_eq]
      exact (add_zero _).symm
    · intro n hne
      rw [hstake]
      change _ = _ + ((if r.target = n then deposit else 0) + 0)
      split
      · subst n
        -- The source still has its stake, so that of another account with the part fits.
        have hfit := hs.stake_add_stakeOf_le hb hne
        rw [State.stakeOf_of_get? hb, add_zero, min_eq_left (by linarith)]
      · rw [add_zero, add_zero]
    · rw [hstake]
      change _ = min (_ + ((if r.target = source then deposit else 0) + 0)) _
      split
      · rw [add_zero]
      · rw [add_zero, add_zero, min_eq_left hn]
    · change 0 ≤ (if r.target = source then deposit else 0) + 0
      split <;> linarith
  | balance hd hpos hr =>
    obtain rfl := Except.ok.inj (hshare.symm.trans hd)
    rw [if_neg (not_le.2 hpos), hr]
    generalize r.deposit amount = deposit at *
    have hfit := hs.balance_add_stakeOf_le hb source
    constructor
    · intro n
      refine (State.balanceOf_raised hb (Int.add_nonneg hsb.balance hpos.le) (by linarith) n).trans ?_
      exact congrArg _ (add_zero _).symm
    · intro n _
      exact State.stakeOf_credit.trans (add_zero _).symm
    · exact State.stakeOf_credit.trans ((min_eq_left ((add_zero _).trans_le hn)).trans (add_zero _)).symm
    · exact le_refl _

theorem RoutesPaid.pours (h : RoutesPaid amount rs l deposit l') (hs : l.state.Solvent)
    (hc : ∀ r ∈ rs, l.state.accounts.contains r.target = true) (h₀ : 0 ≤ amount)
    (ham : amount ≤ Amount.max) (hp : (rs.map (·.percent)).sum ≤ wholePercent)
    (hm : l.state.money - l.state.stakeOf source + deposit ≤ Amount.max)
    (hn : l.state.stakeOf source ≤ Amount.max) :
    Pours source l.state (rs.flatMap (·.fills source amount)) l'.state := by
  induction h with
  | nil => exact .nil hn
  | @cons r rs l l₁ l' deposit deposits h hrest ih =>
    rw [List.map_cons, List.sum_cons] at hp
    rw [List.forall_mem_cons] at hc
    have hd := h.deposit_eq h₀ ham (by omega)
    have hd₀ : 0 ≤ deposit := hd ▸ part_nonneg h₀
    have hds := (hrest.deposit_le h₀ ham (by omega)).1
    obtain ⟨hmoney, hstake⟩ := h.money source hs hc.1 rfl (by linarith) hn
    have hx : 0 ≤ (if r.target = source ∧ r.asCommonTokens = true then deposit else 0) := by
      split
      · exact hd₀
      · exact le_refl _
    generalize (if r.target = source ∧ r.asCommonTokens = true then deposit else 0) = x at *
    have hfirst : Pours source l.state (r.fills source amount) l₁.state :=
      h.pours hs hc.1 h₀ ham (by omega) (by linarith) hn
    have hs₁ : l₁.state.Solvent := (RoutesPaid.cons h .nil).solvent_state hs
    exact hfirst.trans (ih hs₁ (fun r hr => h.keepsNames.contains.trans (hc.2 r hr)) (by omega)
      (by lia) (by lia))

/-- At the end of a payment the source gives the amount and has the rest back. -/
theorem settle_amounts {b : Account} (effects : ProxyEffects) (amount : Amount)
    (hb : s.accounts.get? name = some b) (h₀ : 0 ≤ b.balance.amount + x)
    (hm : b.balance.amount + x ≤ Amount.max) (n : AccountName) :
    (settle s name effects amount x).balanceOf n = s.balanceOf n + (if name = n then x else 0) ∧
    (settle s name effects amount x).stakeOf n = s.stakeOf n - if name = n then amount else 0 := by
  have hk := State.applyProxyEffects_keeps (s := s) (f := fun a => (a.balance.amount, a.commonTokens))
    (fun _ _ => rfl) effects
  have hbalance : Keeps (fun a => a.balance.amount) s.accounts (s.applyProxyEffects effects).accounts :=
    hk.map Prod.fst
  obtain ⟨c, hc, hbc⟩ := hk.exists_after hb
  obtain ⟨hcb, hcs⟩ := Prod.mk.inj hbc
  constructor
  · have hafter : Keeps (fun a => a.balance.amount)
        ((s.applyProxyEffects effects).credit name x).accounts
        (settle s name effects amount x).accounts := .modify_self fun _ => rfl
    calc (settle s name effects amount x).balanceOf n
      _ = ((s.applyProxyEffects effects).credit name x).balanceOf n := by
        rw [State.balanceOf_eq, State.balanceOf_eq, hafter.map_eq]
      _ = (s.applyProxyEffects effects).balanceOf n + (if name = n then x else 0) :=
        State.balanceOf_raised hc (by rw [hcb]; exact h₀) (by rw [hcb]; exact hm) n
      _ = s.balanceOf n + (if name = n then x else 0) := by
        rw [State.balanceOf_eq, State.balanceOf_eq, hbalance.map_eq]
  · unfold settle
    dsimp only
    rw [State.stakeOf_modifyAccount]
    split
    · subst n
      change ((((s.applyProxyEffects effects).accounts.modify name _).get? name).map _).getD 0 = _
      rw [get?_modify_self, hc, State.stakeOf_of_get? hb, ← hcs]
      rfl
    · rw [State.stakeOf_credit, sub_zero]
      exact State.stakeOf_applyProxyEffects s effects n

/-- What events of a payment come to, by what each route comes to. -/
theorem sum_fills {f : Event → Amount} {g : WithdrawRoute → Amount}
    (hf : ∀ r, ((r.fills name amount).map f).sum = g r) (rs : List WithdrawRoute) :
    ((rs.flatMap (·.fills name amount)).map f).sum = (rs.map g).sum := by
  induction rs with
  | nil => rfl
  | cons r rs ih =>
    rw [List.flatMap_cons, List.map_append, List.sum_append, hf, ih, List.map_cons, List.sum_cons]

theorem sum_fill {f : Event → Amount} (hf : f (.withdrawFilled name r.target 0 0 r.asCommonTokens) = 0)
    (h₀ : 0 ≤ amount) : ((r.fills name amount).map f).sum =
      f (.withdrawFilled name r.target (r.deposit amount) (r.deposit amount) r.asCommonTokens) := by
  unfold WithdrawRoute.fills
  split
  · have hnone : r.deposit amount = 0 := le_antisymm ‹_› (part_nonneg h₀)
    rw [hnone, hf]
    rfl
  · exact add_zero _

theorem sum_fills_eq_zero {f : Event → Amount}
    (hf : ∀ source target withdrawn deposited b,
      f (.withdrawFilled source target withdrawn deposited b) = 0) (h₀ : 0 ≤ amount)
    (rs : List WithdrawRoute) : ((rs.flatMap (·.fills name amount)).map f).sum = 0 := by
  rw [sum_fills (g := fun _ => 0) fun r => (sum_fill (hf ..) h₀).trans (hf ..)]
  simp

theorem sum_fills_fromStake (name : AccountName) (h₀ : 0 ≤ amount) (rs : List WithdrawRoute)
    (n : AccountName) :
    ((rs.flatMap (·.fills name amount)).map (·.fromStake n)).sum =
      if name = n then (rs.map (·.deposit amount)).sum else 0 := by
  rw [sum_fills (g := fun r => if name = n then r.deposit amount else 0)
    fun r => sum_fill (ite_self _) h₀]
  split <;> simp

theorem sum_fills_toStake (name : AccountName) (h₀ : 0 ≤ amount) (rs : List WithdrawRoute) :
    ((rs.flatMap (·.fills name amount)).map (·.toStake name)).sum = restaked name amount rs := by
  refine sum_fills (fun r => ?_) rs
  cases hr : r.asCommonTokens with
  | true =>
    rw [sum_fill (by rw [hr]; exact ite_self _) h₀, hr]
    simp [Event.toStake, WithdrawRoute.deposit]
  | false =>
    rw [sum_fill (by rw [hr]; rfl) h₀, hr]
    simp [Event.toStake]

/-- What a payment comes to: the routes have their parts, and the source gives the payment after it has
had its own part back, as far as that could be stored, and keeps the rest. -/
theorem payPowerDown_amounts (h : payPowerDown name l = (.ok events, l')) (hl : l.Sound)
    (hm : l.state.money ≤ Amount.max) : ∃ a fills rest, l.state.accounts.get? name = some a ∧
      fills = (l.state.routesFrom name).values.flatMap (·.fills name a.nextPayment) ∧
      events = fills ++ [.withdrawFilled name name a.nextPayment rest false] ∧
      ((l.state.routesFrom name).values.map (·.deposit a.nextPayment)).sum + rest = a.nextPayment ∧
      (∀ n, l'.state.balanceOf n = l.state.balanceOf n + (fills.map (·.toBalance n)).sum +
        if name = n then rest else 0) ∧
      (∀ n, name ≠ n → l'.state.stakeOf n = l.state.stakeOf n + (fills.map (·.toStake n)).sum) ∧
      l'.state.stakeOf name =
        min (l.state.stakeOf name + (fills.map (·.toStake name)).sum) Amount.max - a.nextPayment := by
  obtain ⟨a, l₁, routed, effects, ha, -, hr, -, rfl⟩ := payPowerDown_ok h
  obtain ⟨a', _, rest, ha', hpaid, hsum, hrest, -⟩ := payPowerDown_splits h hl
  obtain rfl := Option.some.inj (ha.symm.trans ha')
  obtain rfl := Except.ok.inj (Prod.mk.inj (h.symm.trans hpaid)).1
  have hs := hl.solvent
  have hsa := hs.accounts _ _ ha
  obtain ⟨h₀, hle⟩ := hsa.nextPayment
  have hmax := hle.trans hsa.commonTokens_le
  have hpercent := sum_routes_le hs.routes name
  have hstake := State.stakeOf_of_get? ha
  have hdeposits : routed = ((l.state.routesFrom name).values.map (·.deposit a.nextPayment)).sum :=
    hr.deposit_eq h₀ hmax hpercent
  have hpours : Pours name l.state
      ((l.state.routesFrom name).values.flatMap (·.fills name a.nextPayment)) l₁.state :=
    hr.pours hs (hl.linked.routeTargets name) h₀ hmax hpercent (by rw [hstake]; linarith)
      (by rw [hstake]; exact hsa.commonTokens_le)
  -- What the source is left with fits, since the payment is still among its stake.
  obtain ⟨hmoney, hrouted⟩ := hr.trimmed ha hl hm
  have hlost : 0 ≤ l.trimmed name := le_max_right _ _
  have hs₁ := hr.solvent_state hs
  obtain ⟨b, hb, -⟩ := hr.keepsNames.exists_after ha
  have hgrown := (hr.solvent hs.accounts).2 name
  have hfit := hs₁.balance_add_stakeOf_le hb name
  have hbal := (hs₁.accounts _ _ hb).balance
  rw [hstake] at hgrown
  have hremain : a.nextPayment - routed = rest := by linarith
  rw [hremain]
  have hsettled := settle_amounts effects a.nextPayment (b := b) (x := rest) hb (by linarith)
    (by linarith)
  refine ⟨a, _, rest, ha, rfl, rfl, hsum, fun n => ?_, fun n hn => ?_, ?_⟩
  · rw [(hsettled n).1, hpours.balance n]
  · rw [(hsettled n).2, hpours.others n hn.symm, if_neg hn, sub_zero]
  · rw [(hsettled name).2, hpours.own, if_pos rfl]

/-- A payment tells of all that it moves, but for what its source cannot store in its course. -/
theorem payPowerDown_accounted (h : payPowerDown name l = (.ok events, l')) (hl : l.Sound)
    (hm : l.state.money ≤ Amount.max) : l.state.AccountedBy events
      (fun n => if name = n then l.trimmed name else 0) l'.state := by
  have hkeeps := payPowerDown_keeps (f := (·.delegated)) (fun _ _ => rfl) (fun _ _ => rfl)
    (fun _ _ => rfl) (fun _ _ _ => rfl) h
  obtain ⟨_, _, _, hfoot⟩ := payPowerDown_footprint h
  obtain ⟨a, fills, rest, ha, hfills, rfl, hsum, hbalance, hothers, hown⟩ := payPowerDown_amounts h hl hm
  have h₀ := (hl.solvent.accounts _ _ ha).nextPayment.1
  have hstake := State.stakeOf_of_get? ha
  constructor
  · intro n
    rw [hbalance, List.map_append, List.sum_append, add_assoc]
    exact congrArg _ (congrArg _ (add_zero _).symm)
  · intro n
    have hfrom := sum_fills_fromStake name h₀ (l.state.routesFrom name).values n
    rw [← hfills] at hfrom
    rw [State.shortfall, List.map_append, List.sum_append, List.map_append, List.sum_append, hfrom]
    change _ + (_ + 0) - (_ + ((if name = n then rest else 0) + 0)) - _ = _
    by_cases hn : name = n
    · subst hn
      have hto := sum_fills_toStake name h₀ (l.state.routesFrom name).values
      have hpeak : l.peakStake name =
          a.commonTokens + restaked name a.nextPayment (l.state.routesFrom name).values := by
        rw [Ledger.peakStake, ha]
        rfl
      rw [← hfills] at hto
      rw [hto, hstake] at hown
      rw [Ledger.trimmed, hpeak]
      simp only [if_true, hto, hown, hstake]
      lia
    · simp only [if_neg hn, hothers n hn]
      abel
  · intro n
    unfold State.delegatedOf
    rw [hkeeps.map_eq, hfills, List.map_append, List.sum_append,
      sum_fills_eq_zero (fun _ _ _ _ _ => rfl) h₀]
    exact (sub_zero _).symm
  · intro id
    rw [hfoot, hfills, List.map_append, List.sum_append,
      sum_fills_eq_zero (fun _ _ _ _ _ => rfl) h₀]
    exact (add_zero _).symm

end Routes

end LedgerM

/-- What payments lose of the stake of an account. -/
def lostStake (ps : List (Ledger × AccountName)) (n : AccountName) : Amount :=
  (ps.map fun p => if p.2 = n then p.1.trimmed p.2 else 0).sum

theorem lostStake_eq_zero {ps : List (Ledger × AccountName)} :
    lostStake ps n = 0 ↔ ∀ p ∈ ps, p.2 = n → p.1.peakStake n ≤ Amount.max := by
  have hnonneg (p : Ledger × AccountName) : 0 ≤ if p.2 = n then p.1.trimmed p.2 else 0 := by
    split
    · exact le_max_right _ _
    · exact le_refl _
  have hzero (p : Ledger × AccountName) : (if p.2 = n then p.1.trimmed p.2 else 0) = 0 ↔
      (p.2 = n → p.1.peakStake n ≤ Amount.max) := by
    by_cases hn : p.2 = n
    · subst hn
      rw [if_pos rfl, Ledger.trimmed, max_eq_right_iff]
      exact ⟨fun h _ => Int.le_of_sub_nonpos h, fun h => Int.sub_nonpos_of_le (h rfl)⟩
    · simp [hn]
  induction ps with
  | nil => simp [lostStake]
  | cons p ps ih =>
    have hp := hnonneg p
    have hps : 0 ≤ lostStake ps n := sum_map_nonneg fun p _ => hnonneg p
    rw [List.forall_mem_cons]
    change (if p.2 = n then p.1.trimmed p.2 else 0) + lostStake ps n = 0 ↔ _
    constructor
    · exact fun h => ⟨(hzero p).1 (by linarith), ih.1 (by linarith)⟩
    · rintro ⟨h, h'⟩
      rw [(hzero p).2 h, ih.2 h', add_zero]

namespace LedgerM

theorem payPowerDowns_accounted {names : List AccountName}
    (h : collect payPowerDown names l = (.ok events, l')) (hl : l.Sound)
    (hm : l.state.money ≤ Amount.max) :
    l.state.AccountedBy events (lostStake (l.turns payPowerDown names)) l'.state := by
  induction names generalizing l events with
  | nil =>
    cases h
    exact .moneyless .refl rfl fun _ he => absurd he List.not_mem_nil
  | cons name names ih =>
    obtain ⟨first, l₁, hpaid, h⟩ := bind_eq_ok.1 h
    obtain ⟨rest, _, hrest, h⟩ := bind_eq_ok.1 h
    cases h
    have hmoney := payPowerDown_money hpaid hl hm
    have hlost : 0 ≤ l.trimmed name := le_max_right _ _
    have := (payPowerDown_accounted hpaid hl hm).trans
      (ih hrest ((Change.payment hpaid).sound hl) (by linarith))
    rw [Ledger.turns, hpaid]
    exact this

/-- What is done before loans are given back moves no money. -/
theorem beforeReturns_accounted (l : Ledger) :
    l.state.AccountedBy [] (fun _ => 0) l.beforeReturns := by
  have hkeeps := State.changePartners_keeps
    (f := fun a => (a.balance.amount, a.commonTokens, a.delegated)) (fun _ _ => rfl)
    (l.state.dropRecoveryRequests l.head.time) l.head.time
  obtain ⟨_, _, hfoot⟩ := State.changePartners_footprint (l.state.dropRecoveryRequests l.head.time)
    l.head.time
  refine .moneyless hkeeps ?_ fun _ he => absurd he List.not_mem_nil
  unfold Ledger.beforeReturns
  rw [hfoot]
  rfl

/-- What is done after the power-downs moves no money. -/
theorem afterPayments_accounted (l : Ledger) (now : Seconds) : l.state.AccountedBy
    (l.expireContents.2 ++ (l.expireContents.1.state.expireProposals now).2) (fun _ => 0)
    (l.afterPayments now).state := by
  have hevents : ∀ e ∈ l.expireContents.2 ++ (l.expireContents.1.state.expireProposals now).2,
      e.Moneyless := by
    intro e he
    rcases List.mem_append.1 he with he | he
    · obtain ⟨_, -, rfl⟩ := List.mem_map.1 he
      exact ⟨fun _ => rfl, fun _ => ⟨rfl, rfl⟩, fun _ => rfl, fun _ => rfl⟩
    · obtain ⟨_, -, rfl⟩ := List.mem_map.1 he
      exact ⟨fun _ => rfl, fun _ => ⟨rfl, rfl⟩, fun _ => rfl, fun _ => rfl⟩
  obtain ⟨_, _, _, _, hfoot⟩ :=
    Ledger.foldl_deactivate_footprint (l.state.overdueContents l.head.time) l
  have hfoot : l.expireContents.1 = _ := hfoot
  unfold Ledger.afterPayments
  generalize (l.expireContents.2 ++ _ : List Event) = told at hevents ⊢
  rw [hfoot]
  exact .moneyless .refl rfl hevents

theorem maintain_accounted (hl : l.Ready) (hm : l.state.money ≤ Amount.max)
    (h : maintain l = (.ok events, l')) :
    l.state.AccountedBy events (lostStake l.blockPayments) l'.state := by
  obtain ⟨paid, l₁, hpaid, rfl, rfl⟩ := maintain_ok h
  have hreturns : Upkeeps l { l with state := l.beforeReturns } :=
    ((Relation.ReflTransGen.single .requests).tail .partners).tail .history
  have hbefore := upkeeps_beforePayments l
  have hreturned := (hreturns.ready hl).lent.accountedBy_returnDelegations l.head.time
  have hpayments := payPowerDowns_accounted hpaid (hbefore.ready hl).sound
    ((hbefore.money hl.sound hm).2.1.trans_le hm)
  rw [List.append_assoc]
  exact (((beforeReturns_accounted l).exact_trans hreturned).exact_trans hpayments).trans_exact
    (afterPayments_accounted l₁ l.head.time)

theorem endBlock_accounted {seconds : Seconds} (hl : l.Granting) (hm : l.state.money ≤ Amount.max)
    (h : endBlock seconds l = (.ok events, l')) :
    l.state.AccountedBy events (lostStake ((Step.endBlock seconds).payments l)) l'.state := by
  have hgranted : (Step.endBlock seconds).granted l = true := by
    rw [Step.granted, Step.perform, Step.run_return, h]
    rfl
  have hu := (endBlock_ok h).1
  obtain ⟨granted, due, hgrants, hblock, rfl⟩ := endBlock_reports h
  have hclock : Upkeep l { l with head := l.head.advance seconds } := .clock _ _
  have hpaid := processGrants_accounted ((Change.upkeep hclock).granting hl) hm hgrants
  have hdue := maintain_accounted (hu.ready hl.toReady) ((hu.money hl.sound hm).2.1.trans_le hm)
    (atomically_ok hblock)
  rw [Step.payments, if_pos hgranted]
  exact hpaid.exact_trans hdue

end LedgerM

/-- A block always ends, and what it reports is all that happens to balances, to stake on loan and to the
money of groups. It is all that happens to the stake of an account exactly if no payment of the block
raises it above what can be stored. -/
theorem Ledger.Reachable.block_accounted_iff (h : l.Reachable config genesis) (hg : genesis.Storable)
    (hm : l.state.money ≤ Amount.max) (seconds : Seconds) : ∃ events l',
      LedgerM.endBlock seconds l = (.ok events, l') ∧
      (∀ n, l'.state.balanceOf n = l.state.balanceOf n + (events.map (·.toBalance n)).sum) ∧
      (∀ n, l'.state.delegatedOf n = l.state.delegatedOf n - (events.map (·.returnedTo n)).sum) ∧
      (∀ id, l'.state.fundsOf id = l.state.fundsOf id + (events.map (·.grantedTo id)).sum) ∧
      (∀ n, l'.state.stakeOf n + lostStake ((Step.endBlock seconds).payments l) n =
        l.state.stakeOf n + (events.map (·.toStake n)).sum - (events.map (·.fromStake n)).sum) ∧
      ∀ n, l'.state.stakeOf n =
          l.state.stakeOf n + (events.map (·.toStake n)).sum - (events.map (·.fromStake n)).sum ↔
        ∀ p ∈ (Step.endBlock seconds).payments l, p.2 = n → p.1.peakStake n ≤ Amount.max := by
  have hl := h.granting hg
  obtain ⟨events, l', hend, -⟩ := LedgerM.endBlock_total hl.toReady seconds
  have hall := LedgerM.endBlock_accounted hl hm hend
  have hstake (n : AccountName) :
      l'.state.stakeOf n + lostStake ((Step.endBlock seconds).payments l) n =
        l.state.stakeOf n + (events.map (·.toStake n)).sum - (events.map (·.fromStake n)).sum := by
    rw [← hall.stake n, State.shortfall]
    abel
  refine ⟨events, l', hend, hall.balance, hall.delegated, hall.funds, hstake, fun n => ?_⟩
  rw [← lostStake_eq_zero, ← hstake n]
  exact left_eq_add

namespace Sample

/-- A loan that alice has called back and a payment of hers are due: the block tells of both, and the
stake of everybody is what it tells. -/
theorem lent_accounted : lent.state.money ≤ Amount.max ∧
    (LedgerM.endBlock 604800 lent).1.toOption.map List.length = some 2 ∧
    ∃ events l', LedgerM.endBlock 604800 lent = (.ok events, l') ∧ ∀ n, l'.state.stakeOf n =
      lent.state.stakeOf n + (events.map (·.toStake n)).sum - (events.map (·.fromStake n)).sum := by
  have hreachable : lent.Reachable {} (founders 200000 300 20) :=
    ⟨founded 200000 300 20, lending, rfl, by decide, rfl⟩
  have hmoney : lent.state.money ≤ Amount.max := by decide +kernel
  have hroom : ∀ p ∈ (Step.endBlock 604800).payments lent, p.1.peakStake p.2 ≤ Amount.max := by
    decide +kernel
  obtain ⟨events, l', hend, -, -, -, -, hiff⟩ :=
    Ledger.Reachable.block_accounted_iff hreachable (by decide) hmoney 604800
  exact ⟨hmoney, by decide +kernel, events, l', hend,
    fun n => (hiff n).2 fun p hp hn => hn ▸ hroom p hp⟩

/-- Alice has all the stake there can be, and her payment leads back to her. -/
def rounded : Ledger := (founded Amount.max 0 0).after (circle.take 2)

/-- Her block tells that a hundred is taken and a hundred given, but she has a hundred less. -/
theorem stake_misreported :
    let events : List Event := [.withdrawFilled alice alice 100 100 true,
      .withdrawFilled alice alice 100 0 false]
    rounded.Reachable {} (founders Amount.max 0 0) ∧ rounded.state.money = Amount.max ∧
    (LedgerM.endBlock 604800 rounded).1.toOption = some events ∧
    (LedgerM.endBlock 604800 rounded).2.state.stakeOf alice = Amount.max - 100 ∧
    rounded.state.stakeOf alice + (events.map (·.toStake alice)).sum -
      (events.map (·.fromStake alice)).sum = Amount.max :=
  ⟨⟨founded Amount.max 0 0, circle.take 2, rfl, by decide, rfl⟩, by decide +kernel⟩

end Sample

end ResearchLedger
