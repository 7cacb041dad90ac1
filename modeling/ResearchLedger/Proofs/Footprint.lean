import ResearchLedger.Proofs.Run

/-! Which stores the changes of a block and of a reward pass leave alone. -/
namespace ResearchLedger

variable {s s' : State} {l l' : Ledger} {events : List Event}

namespace State

theorem foldl_creditGroup {α : Type} (group : α → GroupId) (amount : α → Amount) (xs : List α)
    (s : State) : ∃ groups, xs.foldl (fun s x => s.creditGroup (group x) (amount x)) s =
      { s with groups } := by
  induction xs generalizing s with
  | nil => exact ⟨_, rfl⟩
  | cons x xs ih =>
    obtain ⟨groups, h⟩ := ih (s.creditGroup (group x) (amount x))
    exact ⟨groups, h⟩

/-- A reward pass pays accounts and groups, and then gives expertise. -/
theorem applyReward_eq (s : State) (now : Seconds) (p : RewardPlan) : ∃ groups,
    s.applyReward now p =
      p.expertise.entries.foldl (fun s x => s.creditExpertise x.1.1 x.1.2 x.2 now) { s with
        accounts := p.balances.entries.foldl (fun m x => m.modify x.1 (·.credit x.2)) s.accounts
        groups } := by
  unfold applyReward credit
  rw [foldl_modifyAccount]
  obtain ⟨groups, hg⟩ := foldl_creditGroup (α := GroupId × Amount) (·.1) (·.2) p.groups.entries
    { s with accounts := p.balances.entries.foldl (fun m x => m.modify x.1 (·.credit x.2)) s.accounts }
  dsimp only
  rw [hg]
  exact ⟨groups, rfl⟩

theorem applyReward_footprint (s : State) (now : Seconds) (p : RewardPlan) :
    ∃ accounts groups expertTokens,
      s.applyReward now p = { s with accounts, groups, expertTokens } := by
  obtain ⟨groups, h⟩ := applyReward_eq s now p
  obtain ⟨expertTokens, he⟩ := foldl_creditExpertise (α := (AccountName × DisciplineId) × Amount)
    (·.1.1) (·.1.2) (·.2) now p.expertise.entries { s with
      accounts := p.balances.entries.foldl (fun m x => m.modify x.1 (·.credit x.2)) s.accounts
      groups }
  exact ⟨_, groups, expertTokens, h.trans he⟩

theorem payShares_footprint (id : GrantId) (shares : List (GroupId × Amount)) (s : State)
    (remaining : Amount) : ∃ groups, (payShares id s remaining shares).1 = { s with groups } := by
  induction shares generalizing s remaining with
  | nil => exact ⟨_, rfl⟩
  | cons x shares ih =>
    obtain ⟨group, part⟩ := x
    rw [payShares]
    split
    · exact ⟨_, rfl⟩
    · obtain ⟨groups, h⟩ := ih (s.creditGroup group (min part remaining))
        (remaining - min part remaining)
      exact ⟨groups, h⟩

/-- The state after a grant has paid shares: the grant ends or goes on with what remains. -/
def afterShares (s : State) (block : Nat) (id : GrantId) (g : Grant)
    (shares : SortedMap GroupId Amount) : State :=
  let paid := payShares id s g.amount shares.entries
  if g.isOver block paid.2.1 then paid.1.finishGrant id g.owner paid.2.1
  else paid.1.keepGrant id paid.2.1

/-- What each credit of a reward pass preserves is preserved by the pass. -/
theorem applyReward_preserves {P : State → Prop} {now : Seconds} {p : RewardPlan}
    (hcredit : ∀ s n x, P s → P (s.credit n x)) (hgroup : ∀ s g x, P s → P (s.creditGroup g x))
    (hexpertise : ∀ s n d x, p.expertise.get? (n, d) = some x → P s →
      P (s.creditExpertise n d x now)) (h : P s) : P (s.applyReward now p) := by
  have balances : P (p.balances.entries.foldl (fun s e => s.credit e.1 e.2) s) :=
    List.foldlRecOn p.balances.entries _ h fun s hs e _ => hcredit s e.1 e.2 hs
  have groups : P (p.groups.entries.foldl (fun s e => s.creditGroup e.1 e.2)
      (p.balances.entries.foldl (fun s e => s.credit e.1 e.2) s)) :=
    List.foldlRecOn p.groups.entries _ balances fun s hs e _ => hgroup s e.1 e.2 hs
  exact List.foldlRecOn p.expertise.entries _ groups fun s hs e he =>
    hexpertise s e.1.1 e.1.2 e.2 (SortedMap.mem_entries_iff.1 he) hs

/-- What each credit to a group preserves is preserved by all shares of a grant. -/
theorem payShares_preserves {P : State → Prop} (hgroup : ∀ s g x, P s → P (s.creditGroup g x))
    (id : GrantId) (shares : List (GroupId × Amount)) (remaining : Amount) (h : P s) :
    P (payShares id s remaining shares).1 := by
  induction shares generalizing s remaining with
  | nil => exact h
  | cons x shares ih =>
    rw [payShares]
    split
    · exact h
    · exact ih _ (hgroup s x.1 _ h)

/-- What the shares of a grant preserve, and its end or its continuation. -/
theorem afterShares_preserves {P : State → Prop} {block : Nat} {id : GrantId} {g : Grant}
    {shares : SortedMap GroupId Amount} (hgroup : ∀ s g x, P s → P (s.creditGroup g x))
    (hcredit : ∀ s x, P s → P (s.credit g.owner x))
    (hend : ∀ s, P s → P { s with grants := s.grants.erase id })
    (hkeep : ∀ s x, P s → P (s.keepGrant id x)) (h : P s) :
    P (s.afterShares block id g shares) := by
  have hpaid := payShares_preserves hgroup id shares.entries g.amount h
  unfold afterShares finishGrant
  generalize payShares id s g.amount shares.entries = paid at hpaid ⊢
  dsimp only
  split
  · split
    · exact hcredit _ _ (hend _ hpaid)
    · exact hend _ hpaid
  · exact hkeep _ _ hpaid

theorem processGrant_ok {block : Nat} {id : GrantId} {g : Grant}
    (h : s.processGrant block id g = .ok (s', events)) :
    s' = s ∨ ∃ shares, (shares = ∅ ∨ s.grantShares g.discipline g.payout = .ok shares) ∧
      s' = s.afterShares block id g shares := by
  unfold processGrant at h
  split at h
  · cases h; exact Or.inl rfl
  · right
    extract_lets pay at h
    obtain ⟨shares, hs, h⟩ : ∃ shares,
        (shares = ∅ ∨ s.grantShares g.discipline g.payout = .ok shares) ∧ pay shares = .ok (s', events) := by
      split at h
      · obtain ⟨shares, hs, h⟩ := bind_eq_ok.1 h
        exact ⟨shares, Or.inr hs, h⟩
      · exact ⟨∅, Or.inl rfl, h⟩
    refine ⟨shares, hs, ?_⟩
    unfold afterShares
    dsimp only [pay] at h ⊢
    split at h <;> cases h
    · rw [if_pos ‹_›]
    · rw [if_neg ‹_›]

theorem afterShares_footprint (s : State) (block : Nat) (id : GrantId) (g : Grant)
    (shares : SortedMap GroupId Amount) :
    ∃ accounts groups grants,
      s.afterShares block id g shares = { s with accounts, groups, grants } := by
  obtain ⟨groups, hp⟩ := payShares_footprint id shares.entries s g.amount
  unfold afterShares finishGrant
  generalize payShares id s g.amount shares.entries = paid at hp ⊢
  obtain ⟨s₁, remaining, events⟩ := paid
  subst hp
  dsimp only
  split
  · split <;> exact ⟨_, _, _, rfl⟩
  · exact ⟨_, _, _, rfl⟩

theorem processGrant_footprint {block : Nat} {id : GrantId} {g : Grant}
    (h : s.processGrant block id g = .ok (s', events)) :
    ∃ accounts groups grants, s' = { s with accounts, groups, grants } := by
  obtain rfl | ⟨shares, -, rfl⟩ := processGrant_ok h
  · exact ⟨_, _, _, rfl⟩
  · exact afterShares_footprint ..

theorem changePartners_footprint (s : State) (now : Seconds) :
    ∃ accounts partnerChanges, s.changePartners now = { s with accounts, partnerChanges } := by
  unfold changePartners
  generalize (s.partnerChanges.values.filter (·.isDue now)).map (·.account) = names
  induction names generalizing s with
  | nil => exact ⟨_, _, rfl⟩
  | cons name names ih =>
    obtain ⟨_, _, h⟩ := ih (s.changePartner name)
    rw [List.foldl_cons, h]
    unfold changePartner
    split <;> exact ⟨_, _, rfl⟩

theorem returnDelegations_footprint (s : State) (now : Seconds) :
    ∃ accounts expiringDelegations,
      (s.returnDelegations now).1 = { s with accounts, expiringDelegations } := by
  unfold returnDelegations
  dsimp only
  generalize s.dueDelegations now = due
  induction due generalizing s with
  | nil => exact ⟨_, _, rfl⟩
  | cons e due ih =>
    obtain ⟨_, _, h⟩ := ih (s.returnDelegation e.1 e.2)
    exact ⟨_, _, h⟩

end State

namespace LedgerM

theorem processGrant_eq_ok {id : GrantId} : processGrant id l = (.ok events, l') ↔ ∃ g s,
    l.state.grants.get? id = some g ∧ l.state.processGrant l.head.block id g = .ok (s, events) ∧
      l' = { l with state := s } := by
  constructor
  · intro h
    obtain ⟨_, _, hl, h⟩ := bind_eq_ok.1 h
    cases hl
    obtain ⟨g, _, hx, h⟩ := bind_eq_ok.1 h
    obtain ⟨hg, rfl⟩ := lift_eq_ok.1 hx
    obtain ⟨⟨s, _⟩, _, hx, h⟩ := bind_eq_ok.1 h
    obtain ⟨hp, rfl⟩ := lift_eq_ok.1 hx
    cases h
    exact ⟨g, s, State.grant_eq_ok.1 hg, hp, rfl⟩
  · rintro ⟨g, s, hg, hp, rfl⟩
    exact bind_eq_ok.2 ⟨l, l, rfl, bind_eq_ok.2 ⟨g, l, lift_eq_ok.2 ⟨State.grant_eq_ok.2 hg, rfl⟩,
      bind_eq_ok.2 ⟨(s, events), l, lift_eq_ok.2 ⟨hp, rfl⟩, rfl⟩⟩⟩

/-- A route with a part in a payment: nothing, stake for its target, or balance for its target. -/
inductive RoutePaid (amount : Amount) (r : WithdrawRoute) (l : Ledger) : Amount → Ledger → Prop
  | skip {deposit : Amount} (hd : percentShare amount r.percent = .ok deposit) (hn : deposit ≤ 0) :
      RoutePaid amount r l 0 l
  | stake {deposit : Amount} {effects : ProxyEffects}
      (hd : percentShare amount r.percent = .ok deposit) (hp : 0 < deposit)
      (hr : r.asCommonTokens = true) (he : l.state.stakeEffects r.target deposit = .ok effects) :
      RoutePaid amount r l deposit
        { l with state :=
            ((l.state.modifyAccount r.target (·.stake deposit)).creditExpertise r.target
              commonDiscipline deposit l.head.time).applyProxyEffects effects }
  | balance {deposit : Amount} (hd : percentShare amount r.percent = .ok deposit) (hp : 0 < deposit)
      (hr : r.asCommonTokens = false) :
      RoutePaid amount r l deposit { l with state := l.state.credit r.target deposit }

/-- Routes that are paid one after the other, with what they take in all. -/
inductive RoutesPaid (amount : Amount) : List WithdrawRoute → Ledger → Amount → Ledger → Prop
  | nil {l : Ledger} : RoutesPaid amount [] l 0 l
  | cons {r : WithdrawRoute} {rs : List WithdrawRoute} {l l₁ l' : Ledger} {deposit deposits : Amount}
      (h : RoutePaid amount r l deposit l₁) (hs : RoutesPaid amount rs l₁ deposits l') :
      RoutesPaid amount (r :: rs) l (deposit + deposits) l'

theorem routePaid_of_ok {source : AccountName} {amount deposit : Amount} {r : WithdrawRoute}
    (h : payRoute source amount r l = (.ok (deposit, events), l')) :
    RoutePaid amount r l deposit l' := by
  unfold payRoute at h
  obtain ⟨part, _, hx, h⟩ := bind_eq_ok.1 h
  obtain ⟨hd, rfl⟩ := lift_eq_ok.1 hx
  split at h
  · cases h; exact .skip hd ‹_›
  · have hp : 0 < part := by lia
    obtain ⟨_, _, hl, h⟩ := bind_eq_ok.1 h
    cases hl
    by_cases hr : r.asCommonTokens = true
    · rw [if_pos hr] at h
      obtain ⟨effects, _, hx, h⟩ := bind_eq_ok.1 h
      obtain ⟨he, rfl⟩ := lift_eq_ok.1 hx
      obtain ⟨_, _, hl, h⟩ := bind_eq_ok.1 h
      cases hl
      cases h
      exact .stake hd hp hr he
    · rw [if_neg hr] at h
      obtain ⟨_, _, hl, h⟩ := bind_eq_ok.1 h
      cases hl
      cases h
      exact .balance hd hp (by simpa using hr)

theorem routesPaid_of_ok {source : AccountName} {amount deposit : Amount} {rs : List WithdrawRoute}
    (h : payRoutes source amount rs l = (.ok (deposit, events), l')) :
    RoutesPaid amount rs l deposit l' := by
  induction rs generalizing l deposit events with
  | nil => cases h; exact .nil
  | cons r rs ih =>
    obtain ⟨⟨first, _⟩, _, hr, h⟩ := bind_eq_ok.1 h
    obtain ⟨⟨others, _⟩, _, hrs, h⟩ := bind_eq_ok.1 h
    cases h
    exact .cons (routePaid_of_ok hr) (ih hrs)

/-- What every route preserves is preserved by all of them. -/
theorem RoutesPaid.preserves {P : Ledger → Prop} {amount deposit : Amount} {rs : List WithdrawRoute}
    (h : RoutesPaid amount rs l deposit l')
    (hr : ∀ r deposit l l', RoutePaid amount r l deposit l' → P l → P l') (hl : P l) : P l' := by
  induction h with
  | nil => exact hl
  | cons h _ ih => exact ih (hr _ _ _ _ h hl)

/-- The end of a payment: the source gives the amount and keeps what its routes have left of it. -/
def settle (s : State) (name : AccountName) (effects : ProxyEffects) (amount rest : Amount) : State :=
  let s := s.applyProxyEffects effects
  let s := s.debitExpertise name commonDiscipline amount
  let s := s.credit name rest
  s.modifyAccount name (·.afterPayment amount s.config.withdrawIntervalSeconds)

/-- The ledger in the middle of a payment: its routes are paid, and it is not yet taken. -/
def midPayment (l : Ledger) (name : AccountName) : Ledger :=
  match l.state.accounts.get? name with
  | some a => (payRoutes name a.nextPayment (l.state.withdrawRoutes.getD name ∅).values l).2
  | none => l

/-- A payment of a power-down that succeeds: the routes first, then the source itself. -/
theorem payPowerDown_ok {name : AccountName} (h : payPowerDown name l = (.ok events, l')) :
    ∃ a l₁ routed effects, l.state.accounts.get? name = some a ∧ midPayment l name = l₁ ∧
      RoutesPaid a.nextPayment (l.state.withdrawRoutes.getD name ∅).values l routed l₁ ∧
      l₁.state.stakeEffects name (-a.nextPayment) = .ok effects ∧
      l' = { l₁ with
        state := settle l₁.state name effects a.nextPayment (a.nextPayment - routed) } := by
  unfold payPowerDown at h
  obtain ⟨_, _, hl, h⟩ := bind_eq_ok.1 h
  cases hl
  obtain ⟨a, _, hx, h⟩ := bind_eq_ok.1 h
  obtain ⟨ha, rfl⟩ := lift_eq_ok.1 hx
  obtain ⟨⟨routed, _⟩, l₁, hr, h⟩ := bind_eq_ok.1 h
  obtain ⟨_, _, hl, h⟩ := bind_eq_ok.1 h
  cases hl
  obtain ⟨effects, _, hx, h⟩ := bind_eq_ok.1 h
  obtain ⟨he, rfl⟩ := lift_eq_ok.1 hx
  obtain ⟨_, _, hl, h⟩ := bind_eq_ok.1 h
  cases hl
  cases h
  have ha := State.account_eq_ok.1 ha
  have hmid : midPayment l name = l₁ := by
    rw [midPayment, ha]
    exact congrArg Prod.snd hr
  exact ⟨a, l₁, routed, effects, ha, hmid, routesPaid_of_ok hr, he, rfl⟩

theorem RoutePaid.footprint {amount deposit : Amount} {r : WithdrawRoute}
    (h : RoutePaid amount r l deposit l') : ∃ accounts expertTokens witnesses,
      l' = { l with state := { l.state with accounts, expertTokens, witnesses } } := by
  cases h with
  | skip => exact ⟨_, _, _, rfl⟩
  | stake => rw [State.applyProxyEffects_eq]; exact ⟨_, _, _, rfl⟩
  | balance => exact ⟨_, _, _, rfl⟩

theorem RoutesPaid.footprint {amount deposit : Amount} {rs : List WithdrawRoute}
    (h : RoutesPaid amount rs l deposit l') : ∃ accounts expertTokens witnesses,
      l' = { l with state := { l.state with accounts, expertTokens, witnesses } } := by
  induction h with
  | nil => exact ⟨_, _, _, rfl⟩
  | cons h _ ih =>
    obtain ⟨_, _, _, rfl⟩ := h.footprint
    obtain ⟨_, _, _, rfl⟩ := ih
    exact ⟨_, _, _, rfl⟩

theorem payPowerDown_footprint {name : AccountName} (h : payPowerDown name l = (.ok events, l')) :
    ∃ accounts expertTokens witnesses,
      l' = { l with state := { l.state with accounts, expertTokens, witnesses } } := by
  obtain ⟨a, l₁, routed, effects, -, -, hr, -, rfl⟩ := payPowerDown_ok h
  obtain ⟨_, _, _, rfl⟩ := hr.footprint
  unfold settle
  rw [State.applyProxyEffects_eq]
  exact ⟨_, _, _, rfl⟩

end LedgerM

theorem Ledger.deactivate_footprint (l : Ledger) (content : ContentId) :
    ∃ contents disciplines voteTotals activeWeight, l.deactivate content =
      { state := { l.state with contents, disciplines, voteTotals }
        head := { l.head with activeWeight } } := by
  unfold deactivate
  dsimp only
  generalize l.state.totalsOf content = totals
  generalize l.state.contents.modify content _ = contents
  induction totals generalizing l with
  | nil => exact ⟨_, _, _, _, rfl⟩
  | cons e totals ih =>
    obtain ⟨contents', disciplines, voteTotals, activeWeight, h⟩ :=
      ih (Ledger.withdrawTotals content { l with state := { l.state with contents } } e.1 e.2)
    exact ⟨contents', disciplines, voteTotals, activeWeight, h⟩

/-- What the time changes: the weights of a content, or only what no weight depends on. -/
inductive Upkeep.Footprint (l : Ledger) : Ledger → Prop
  | deactivation (content : ContentId) : Footprint l (l.deactivate content)
  | rest (accounts ownerHistory recoveryRequests partnerChanges expiringDelegations groups grants
      proposals time block) : Footprint l
        { state := { l.state with
            accounts, ownerHistory, recoveryRequests, partnerChanges, expiringDelegations, groups,
            grants, proposals }
          head := { l.head with time, block } }

theorem Upkeep.footprint (h : Upkeep l l') : Upkeep.Footprint l l' := by
  cases h with
  | grant _ h =>
    obtain ⟨_, _, _, rfl⟩ := State.processGrant_footprint h
    exact .rest ..
  | partners =>
    obtain ⟨_, _, he⟩ := State.changePartners_footprint l.state l.head.time
    rw [he]
    exact .rest ..
  | returns =>
    obtain ⟨_, _, he⟩ := State.returnDelegations_footprint l.state l.head.time
    rw [he]
    exact .rest ..
  | deactivation content => exact .deactivation content
  | _ => exact .rest ..

/-- The parameters of a ledger never change. -/
theorem Change.config_eq (h : Change l l') : l'.state.config = l.state.config := by
  cases h with
  | operation h => cases h.footprint <;> rfl
  | @reward _ plan =>
    obtain ⟨_, _, _, he⟩ := State.applyReward_footprint l.state l.head.time plan
    rw [he]
  | payment h => obtain ⟨_, _, _, rfl⟩ := LedgerM.payPowerDown_footprint h; rfl
  | upkeep h =>
    cases h.footprint with
    | deactivation content =>
      obtain ⟨_, _, _, _, he⟩ := Ledger.deactivate_footprint l content
      rw [he]
    | rest => rfl

end ResearchLedger
