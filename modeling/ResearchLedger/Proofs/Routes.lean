import ResearchLedger.Proofs.BlockPayments
import ResearchLedger.Proofs.Bystander
import ResearchLedger.Proofs.RewardPass

/-! Withdraw routes. Every account knows how many it has, their parts come to no more than the whole, and
so each payment is split among them and the account without a remainder. -/
namespace ResearchLedger

open SortedMap

variable {s s' : State} {l l' : Ledger} {config : Config} {genesis : Genesis} {n : AccountName}
  {a : Account} {steps : List Step} {events : List Event}

/-- The routes of an account, by their targets. -/
def State.routesFrom (s : State) (n : AccountName) : SortedMap AccountName WithdrawRoute :=
  s.withdrawRoutes.getD n ∅

/-- An account counts its routes and keeps to their limits. -/
structure Account.Routes (a : Account) (config : Config) (n : AccountName)
    (rs : SortedMap AccountName WithdrawRoute) : Prop where
  count : a.withdrawRoutes = rs.values.length
  count_le : a.withdrawRoutes ≤ config.maxWithdrawRoutes
  percents : rs.All fun _ r => r.source = n ∧ 1 ≤ r.percent ∧ r.percent ≤ wholePercent
  whole : (rs.values.map (·.percent)).sum ≤ wholePercent

/-- Only accounts have routes, and all keep to their limits. -/
structure State.Routed (s : State) : Prop where
  owned : s.withdrawRoutes.All fun n _ => s.accounts.contains n = true
  accounts : s.accounts.All fun n a => a.Routes s.config n (s.routesFrom n)

section Count

variable {κ α : Type} [KeyOrder κ] {m : SortedMap κ α} {k : κ} {v : α}

theorem SortedMap.length_values_insert :
    (m.insert k v).values.length = (m.erase k).values.length + 1 := by
  simpa [SortedMap.values] using (perm_insert (m := m) (k := k) (v := v)).length_eq

theorem SortedMap.length_values_erase (h : m.get? k = some v) :
    m.values.length = (m.erase k).values.length + 1 := by
  simpa [SortedMap.values] using (perm_erase h).length_eq

theorem SortedMap.sum_values_insert (f : α → Nat) :
    ((m.insert k v).values.map f).sum = f v + ((m.erase k).values.map f).sum := by
  simpa [SortedMap.values] using
    ((perm_insert (m := m) (k := k) (v := v)).map (f ∘ Prod.snd)).sum_eq

end Count

/-- Changes that leave the routes and their counts alone. -/
theorem State.Routed.congr (h : s.Routed) (hr : s'.withdrawRoutes = s.withdrawRoutes)
    (hc : s'.config = s.config) (hk : Keeps Account.withdrawRoutes s.accounts s'.accounts) :
    s'.Routed where
  owned := by
    rw [hr]
    exact h.owned.mono fun _ _ hn => hk.contains.trans hn
  accounts := fun n a ha => by
    obtain ⟨b, hb, hab⟩ := hk.exists_of_get? ha
    obtain ⟨hcount, hle, hpercents, hwhole⟩ := h.accounts n b hb
    unfold State.routesFrom
    rw [hr, hc]
    exact ⟨hab.trans hcount, hab.trans_le hle, hpercents, hwhole⟩

namespace SetWithdrawRoute

variable {op : SetWithdrawRoute} {plan : Plan}

/-- A route is made under another target if there is room for it; it is changed or taken away if it is
there. -/
theorem plan_cases (h : op.plan s = .ok plan) : op.percent ≤ wholePercent ∧
    ∃ a, s.accounts.get? op.source = some a ∧ match plan with
      | .create => 1 ≤ op.percent ∧ (s.routesFrom op.source).get? op.target = none ∧
          a.withdrawRoutes < s.config.maxWithdrawRoutes
      | .change => 1 ≤ op.percent ∧ ∃ r, (s.routesFrom op.source).get? op.target = some r
      | .remove => ∃ r, (s.routesFrom op.source).get? op.target = some r := by
  unfold SetWithdrawRoute.plan at h
  obtain ⟨a, ha, h⟩ := bind_eq_ok.1 h
  obtain ⟨_, -, h⟩ := bind_eq_ok.1 h
  obtain ⟨hpercent, h⟩ := guard_bind_eq_ok.1 h
  refine ⟨Nat.not_lt.1 hpercent, a, State.account_eq_ok.1 ha, ?_⟩
  dsimp only at h
  split at h
  · obtain ⟨r, hr⟩ := contains_iff.1 ‹_›
    obtain ⟨p, hp, h⟩ := bind_eq_ok.1 h
    obtain ⟨-, h⟩ := guard_bind_eq_ok.1 h
    cases h
    split at hp <;> cases hp
    · exact ⟨r, hr⟩
    · exact ⟨Nat.one_le_iff_ne_zero.2 ‹_›, r, hr⟩
  · rename_i hnew
    obtain ⟨hpos, h⟩ := guard_bind_eq_ok.1 h
    obtain ⟨hroom, h⟩ := guard_bind_eq_ok.1 h
    obtain ⟨p, hp, h⟩ := bind_eq_ok.1 h
    obtain ⟨-, h⟩ := guard_bind_eq_ok.1 h
    cases hp
    cases h
    exact ⟨Nat.one_le_iff_ne_zero.2 hpos, contains_eq_false_iff.1 (Bool.eq_false_iff.2 hnew),
      Nat.not_le.1 hroom⟩

/-- The routes of the source after the operation. -/
def routesAfter (op : SetWithdrawRoute) (plan : Plan) (rs : SortedMap AccountName WithdrawRoute) :
    SortedMap AccountName WithdrawRoute :=
  match plan with
  | .create | .change => rs.insert op.target op.route
  | .remove => rs.erase op.target

/-- How many routes the source counts after the operation. -/
def countAfter (plan : Plan) (count : Nat) : Nat :=
  match plan with
  | .create => count + 1
  | .change => count
  | .remove => count - 1

theorem routesFrom_commit : (op.commit plan s).routesFrom n =
    if op.source = n then op.routesAfter plan (s.routesFrom n) else s.routesFrom n := by
  have hstore (rs : SortedMap AccountName WithdrawRoute) :
      (s.withdrawRoutes.insert op.source rs).getD n ∅ =
        if op.source = n then rs else s.routesFrom n := by
    unfold State.routesFrom
    rw [getD_eq, getD_eq, get?_insert]
    split <;> rfl
  cases plan with
  | create | change =>
    refine (hstore _).trans ?_
    split
    · subst n; rfl
    · rfl
  | remove =>
    unfold State.routesFrom SetWithdrawRoute.commit clear
    dsimp only
    split
    · -- The last route takes the whole row with it.
      rename_i hlast
      change (s.withdrawRoutes.erase op.source).getD n ∅ = _
      rw [getD_eq, get?_erase]
      split
      · subst n
        exact (eq_empty_of_isEmpty hlast).symm
      · rfl
    · refine (hstore _).trans ?_
      split
      · subst n; rfl
      · rfl

theorem get?_accounts_commit : (op.commit plan s).accounts.get? n =
    if op.source = n then (s.accounts.get? n).map fun a =>
      { a with withdrawRoutes := countAfter plan a.withdrawRoutes }
    else s.accounts.get? n := by
  cases plan with
  | create => exact get?_modify
  | change =>
    change s.accounts.get? n = _
    unfold countAfter
    cases s.accounts.get? n <;> simp
  | remove =>
    unfold SetWithdrawRoute.commit clear
    dsimp only
    split <;> exact get?_modify

/-- The source still counts its routes and keeps to their limits. -/
theorem routes (h : op.plan s = .ok plan) (ha : s.accounts.get? op.source = some a)
    (hr : a.Routes s.config op.source (s.routesFrom op.source)) :
    { a with withdrawRoutes := countAfter plan a.withdrawRoutes : Account }.Routes s.config op.source
      (op.routesAfter plan (s.routesFrom op.source)) := by
  obtain ⟨hpercent, a', ha', hplan⟩ := plan_cases h
  obtain rfl := Option.some.inj (ha.symm.trans ha')
  have hothers : (((s.routesFrom op.source).erase op.target).values.map (·.percent)).sum + op.percent ≤
      wholePercent := (plan_ok h).2.2
  obtain ⟨hcount, hle, hpercents, hwhole⟩ := hr
  have hsum := sum_values_insert (m := s.routesFrom op.source) (k := op.target) (v := op.route)
    WithdrawRoute.percent
  have hlen := length_values_insert (m := s.routesFrom op.source) (k := op.target) (v := op.route)
  cases plan with
  | create =>
    obtain ⟨hpos, hnew, hroom⟩ := hplan
    rw [erase_of_none hnew, ← hcount] at hlen
    exact ⟨hlen.symm, hroom, hpercents.insert ⟨rfl, hpos, hpercent⟩,
      hsum.trans_le ((Nat.add_comm ..).trans_le hothers)⟩
  | change =>
    obtain ⟨hpos, r, hold⟩ := hplan
    rw [← length_values_erase hold, ← hcount] at hlen
    exact ⟨hlen.symm, hle, hpercents.insert ⟨rfl, hpos, hpercent⟩,
      hsum.trans_le ((Nat.add_comm ..).trans_le hothers)⟩
  | remove =>
    obtain ⟨r, hold⟩ := hplan
    have hlen := length_values_erase hold
    refine ⟨?_, (Nat.sub_le _ _).trans hle, hpercents.erase, (Nat.le_add_right ..).trans hothers⟩
    change a.withdrawRoutes - 1 = _
    rw [hcount, hlen]
    rfl

theorem routed (h : op.plan s = .ok plan) (hs : s.Routed) : (op.commit plan s).Routed := by
  have hcontains (k : AccountName) : (op.commit plan s).accounts.contains k = s.accounts.contains k := by
    unfold SortedMap.contains
    rw [get?_accounts_commit]
    split <;> simp
  have hconfig : (op.commit plan s).config = s.config := by
    cases plan with
    | create | change => rfl
    | remove =>
      unfold SetWithdrawRoute.commit clear
      dsimp only
      split <;> rfl
  refine ⟨?_, fun k b hb => ?_⟩
  · have howned : (op.commit plan s).withdrawRoutes.All fun k _ => s.accounts.contains k = true := by
      have hsource := (plan_ok h).1
      rcases routes_commit plan s with he | he | he <;> rw [he]
      · exact hs.owned.insert hsource
      · exact hs.owned.erase
      · exact hs.owned.insert hsource
    exact howned.mono fun k _ hk => (hcontains k).trans hk
  · rw [get?_accounts_commit] at hb
    rw [routesFrom_commit, hconfig]
    split at hb
    · subst k
      obtain ⟨a, ha, rfl⟩ := Option.map_eq_some_iff.1 hb
      rw [if_pos rfl]
      exact routes h ha (hs.accounts _ _ ha)
    · rw [if_neg ‹_›]
      exact hs.accounts k b hb

end SetWithdrawRoute

/-- A new account has no routes, and the others keep theirs. -/
theorem AccountCreate.routed {op : AccountCreate} {u : Unit} (now : Seconds) (h : op.check s = .ok u)
    (hs : s.Routed) : (op.commit now s).Routed := by
  have hfresh : s.routesFrom op.name = ∅ := by
    have hnone : s.withdrawRoutes.get? op.name = none := hs.owned.get?_eq_none fun _ hc => by
      rw [(check_ok h).2.1] at hc
      cases hc
    rw [State.routesFrom, getD_eq, hnone]
    rfl
  have hs' : State.Routed { s with accounts :=
      (s.debit op.creator op.fee.amount).accounts.insert op.name (op.account now) } := by
    have hpaid : (s.debit op.creator op.fee.amount).Routed := hs.congr rfl rfl (.modify_self fun _ => rfl)
    refine ⟨hpaid.owned.mono fun _ _ hn => Within.insert _ hn, hpaid.accounts.insert ?_⟩
    change (op.account now).Routes s.config op.name (s.routesFrom op.name)
    rw [hfresh]
    exact ⟨rfl, Nat.zero_le _, .empty, Nat.zero_le _⟩
  unfold AccountCreate.commit
  dsimp only
  split
  · exact hs'.congr rfl rfl .refl
  · exact hs'.congr rfl rfl .refl

/-- All other operations leave the counts of the routes alone. -/
theorem Operation.Effect.keepsRoutes {op : Operation} (h : op.Effect l l')
    (hc : ∀ o, op ≠ .accountCreate o) (hr : ∀ o, op ≠ .setWithdrawRoute o) :
    Keeps Account.withdrawRoutes l.state.accounts l'.state.accounts := by
  cases op with
  | accountCreate => exact absurd rfl (hc _)
  | setWithdrawRoute => exact absurd rfl (hr _)
  | accountUpdate =>
    cases h
    dsimp only
    rw [AccountUpdate.accounts_commit]
    exact .modify_self fun _ => rfl
  | transfer => cases h; exact .modify_both (fun _ => rfl) fun _ => rfl
  | transferToCommonTokens =>
    cases h
    unfold TransferToCommonTokens.commit
    refine .trans ?_ (State.applyProxyEffects_keeps (fun _ _ => rfl) _)
    exact .modify_both (fun _ => rfl) fun _ => rfl
  | withdrawCommonTokens | createGrant => cases h; exact .modify_self fun _ => rfl
  | delegateCommonTokens =>
    cases h with | @delegateCommonTokens _ plan _ =>
    exact plan.keeps (fun _ _ => rfl) (fun _ _ => rfl) _
  | setWitnessProxy =>
    cases h with | @setWitnessProxy _ plan _ =>
    obtain ⟨_, hacc⟩ := SetWitnessProxy.accounts_commit plan l.state
    dsimp only
    rw [hacc]
    exact (State.applyProxyEffects_keeps (fun _ _ => rfl) _).modify fun _ => rfl
  | witnessVote op =>
    cases h with | @witnessVote _ weight _ =>
    obtain ⟨_, hacc⟩ := WitnessVote.accounts_commit op weight l.state
    dsimp only
    rw [hacc]
    exact .modify_self fun _ => rfl
  | recoverAccount =>
    cases h
    dsimp only
    rw [RecoverAccount.accounts_commit]
    exact .modify_self fun _ => rfl
  | _ => cases h.footprint; exact .refl

theorem Operation.Effect.routed {op : Operation} (h : op.Effect l l') (hs : l.state.Routed) :
    l'.state.Routed := by
  have hk := h.keepsRoutes
  cases op with
  | accountCreate => cases h with | accountCreate hc => exact AccountCreate.routed _ hc hs
  | setWithdrawRoute => cases h with | setWithdrawRoute hc => exact SetWithdrawRoute.routed hc hs
  | _ =>
    have hk := hk (fun _ he => by cases he) fun _ he => by cases he
    cases h.footprint
    exact hs.congr rfl rfl hk

theorem Change.routed (h : Change l l') (hs : l.state.Routed) : l'.state.Routed := by
  cases h with
  | operation h => exact h.routed hs
  | @reward _ plan _ =>
    have hk := State.applyReward_keeps (f := Account.withdrawRoutes) (fun _ _ => rfl) l.state
      l.head.time plan
    obtain ⟨_, _, _, he⟩ := State.applyReward_footprint l.state l.head.time plan
    rw [he] at hk ⊢
    exact hs.congr rfl rfl hk
  | payment h =>
    have hk := LedgerM.payPowerDown_keeps (f := Account.withdrawRoutes) (fun _ _ => rfl)
      (fun _ _ => rfl) (fun _ _ => rfl) (fun _ _ _ => rfl) h
    obtain ⟨_, _, _, rfl⟩ := LedgerM.payPowerDown_footprint h
    exact hs.congr rfl rfl hk
  | upkeep h =>
    have hk := h.keeps (f := Account.withdrawRoutes) (fun _ _ => rfl) (fun _ _ => rfl)
      fun _ _ => rfl
    cases h.footprint with
    | deactivation content =>
      obtain ⟨_, _, _, _, he⟩ := Ledger.deactivate_footprint l content
      rw [he]
      exact hs.congr rfl rfl .refl
    | rest => exact hs.congr rfl rfl hk

theorem State.Routed.ofGenesis (h : ofGenesis config genesis = .ok s) : s.Routed := by
  refine ofGenesis_invariant h (fun _ => ⟨.empty, .empty⟩) fun s s' hc hs => ?_
  cases hc with
  | discipline => exact hs.congr rfl rfl .refl
  | @account g _ hn _ _ _ _ =>
    refine ⟨hs.owned.mono fun _ _ hk => Within.insert _ hk, hs.accounts.insert ?_⟩
    have hnone : s.withdrawRoutes.get? g.name = none := hs.owned.get?_eq_none fun _ hc => by
      rw [hn] at hc
      cases hc
    unfold routesFrom
    rw [getD_eq, hnone]
    exact ⟨rfl, Nat.zero_le _, .empty, Nat.zero_le _⟩
  | witness => exact hs.congr rfl rfl .refl

/-- The part of a payment that a route takes. -/
def WithdrawRoute.deposit (r : WithdrawRoute) (amount : Amount) : Amount :=
  part amount r.percent wholePercent

/-- What is reported of it, unless it is nothing. -/
def WithdrawRoute.fills (r : WithdrawRoute) (source : AccountName) (amount : Amount) : List Event :=
  if r.deposit amount ≤ 0 then []
  else [.withdrawFilled source r.target (r.deposit amount) (r.deposit amount) r.asCommonTokens]

namespace LedgerM

variable {amount deposit : Amount} {r : WithdrawRoute} {rs : List WithdrawRoute}

theorem payRoute_reports (h : payRoute n amount r l = (.ok (deposit, events), l')) (h₀ : 0 ≤ amount)
    (hm : amount ≤ Amount.max) (hp : r.percent ≤ wholePercent) :
    deposit = r.deposit amount ∧ events = r.fills n amount := by
  have hdeposit : deposit = r.deposit amount := (routePaid_of_ok h).deposit_eq h₀ hm hp
  refine ⟨hdeposit, ?_⟩
  unfold payRoute at h
  obtain ⟨part, _, hx, h⟩ := bind_eq_ok.1 h
  obtain ⟨hpart, rfl⟩ := lift_eq_ok.1 hx
  obtain rfl : part = r.deposit amount :=
    Except.ok.inj (hpart.symm.trans (percentShare_eq h₀ hm hp))
  unfold WithdrawRoute.fills
  split at h
  · cases h
    rw [if_pos ‹_›]
  · obtain ⟨_, _, -, h⟩ := bind_eq_ok.1 h
    rw [if_neg ‹_›]
    split at h
    · obtain ⟨_, _, -, h⟩ := bind_eq_ok.1 h
      obtain ⟨_, _, -, h⟩ := bind_eq_ok.1 h
      cases h
      rfl
    · obtain ⟨_, _, -, h⟩ := bind_eq_ok.1 h
      cases h
      rfl

theorem payRoutes_reports (h : payRoutes n amount rs l = (.ok (deposit, events), l'))
    (h₀ : 0 ≤ amount) (hm : amount ≤ Amount.max) (hp : (rs.map (·.percent)).sum ≤ wholePercent) :
    deposit = (rs.map (·.deposit amount)).sum ∧ events = rs.flatMap (·.fills n amount) := by
  induction rs generalizing l deposit events with
  | nil => cases h; exact ⟨rfl, rfl⟩
  | cons r rs ih =>
    rw [List.map_cons, List.sum_cons] at hp
    obtain ⟨⟨first, fills⟩, _, hr, h⟩ := bind_eq_ok.1 h
    obtain ⟨⟨others, more⟩, _, hrs, h⟩ := bind_eq_ok.1 h
    cases h
    obtain ⟨rfl, rfl⟩ := payRoute_reports hr h₀ hm (by omega)
    obtain ⟨rfl, rfl⟩ := ih hrs (by omega)
    exact ⟨rfl, rfl⟩

end LedgerM

/-- A payment is split among the routes of its source, who keeps the rest: each part is reported, and
together they are the payment. -/
def Ledger.SplitsPayment (l : Ledger) (n : AccountName) : Prop :=
  ∃ a l' rest, l.state.accounts.get? n = some a ∧
    LedgerM.payPowerDown n l = (.ok ((l.state.routesFrom n).values.flatMap (·.fills n a.nextPayment) ++
      [.withdrawFilled n n a.nextPayment rest false]), l') ∧
    ((l.state.routesFrom n).values.map (·.deposit a.nextPayment)).sum + rest = a.nextPayment ∧
    0 ≤ rest ∧
    l'.state.balanceOf n = Amount.clamp ((LedgerM.midPayment l n).state.balanceOf n + rest)

/-- What is credited at the end of a payment is the rest. -/
theorem LedgerM.balanceOf_settle {effects : ProxyEffects} {amount rest : Amount}
    (hn : s.accounts.contains n = true) :
    (settle s n effects amount rest).balanceOf n = Amount.clamp (s.balanceOf n + rest) := by
  obtain ⟨a, ha⟩ := contains_iff.1 hn
  have hk := State.applyProxyEffects_keeps (s := s) (f := fun a => a.balance.amount) (fun _ _ => rfl)
    effects
  obtain ⟨b, hb, hab⟩ := hk.exists_after ha
  rw [State.balanceOf_eq, State.balanceOf_eq, accounts_settle, get?_modify_self, get?_modify_self, hb,
    ha]
  change Amount.clamp (b.balance.amount + rest) = _
  rw [hab]
  rfl

theorem LedgerM.payPowerDown_splits (h : payPowerDown n l = (.ok events, l')) (hl : l.Sound) :
    l.SplitsPayment n := by
  obtain ⟨a, l₁, routed, effects, ha, hmid, hr, he, hl'⟩ := payPowerDown_ok h
  have hsa := hl.solvent.accounts _ _ ha
  obtain ⟨h₀, hle⟩ := hsa.nextPayment
  have hm := hle.trans hsa.commonTokens_le
  have hp := sum_routes_le hl.solvent.routes n
  have hrouted := hr.deposit_le h₀ hm hp
  have hreported := h
  unfold payPowerDown at h
  obtain ⟨_, _, hget, h⟩ := bind_eq_ok.1 h
  cases hget
  obtain ⟨b, _, hx, h⟩ := bind_eq_ok.1 h
  obtain ⟨hb, rfl⟩ := lift_eq_ok.1 hx
  obtain rfl := Option.some.inj (ha.symm.trans (State.account_eq_ok.1 hb))
  obtain ⟨⟨deposits, fills⟩, _, hroutes, h⟩ := bind_eq_ok.1 h
  obtain ⟨_, _, -, h⟩ := bind_eq_ok.1 h
  obtain ⟨_, _, -, h⟩ := bind_eq_ok.1 h
  obtain ⟨_, _, -, h⟩ := bind_eq_ok.1 h
  obtain ⟨rfl, rfl⟩ := payRoutes_reports hroutes h₀ hm hp
  cases h
  obtain rfl := hr.deposit_eq h₀ hm hp
  refine ⟨a, _, _, ha, hreported, add_sub_cancel _ _, Int.sub_nonneg_of_le hrouted.2, ?_⟩
  rw [hmid, hl']
  exact balanceOf_settle (hr.keepsNames.contains.trans (contains_of_get? ha))

/-- All along a run, every account counts its routes, they keep to their limits, and each payment is
split among them and the account to the last unit. -/
theorem Ledger.Reachable.payments_split (h : l.Reachable config genesis) (hg : genesis.Storable)
    (hs : ∀ step ∈ steps, step.Storable) :
    (∀ l' ∈ l.visited steps, l'.state.Routed) ∧ ∀ p ∈ l.payments steps, p.1.SplitsPayment p.2 := by
  have hrouted : l.state.Routed :=
    h.invariant (fun _ h₀ => .ofGenesis (ofGenesis_ok h₀).1) fun _ _ => Change.routed
  refine ⟨(visited_invariant (P := (·.state.Routed)) hs (fun _ _ => Change.routed) hrouted).2,
    fun p hp => ?_⟩
  obtain ⟨hvisited, events, l', hpaid⟩ := payments_granted hs p hp
  have hsound := (visited_invariant hs (fun _ _ => Change.sound) (h.sound hg)).2 p.1 hvisited
  exact LedgerM.payPowerDown_splits hpaid hsound

namespace Sample

/-- Alice powers down with one route back to herself and one to bob. -/
def forked : List Step :=
  [.operation (.setWithdrawRoute ⟨alice, alice, 2500, true⟩),
    .operation (.setWithdrawRoute ⟨alice, bob, 3333, false⟩),
    .operation (.withdrawCommonTokens ⟨alice, 130000⟩),
    .endBlock 604800]

/-- Her one payment in this run is split in three. -/
theorem forked_split : ((founded 200000 300 20).payments forked).map (·.2) = [alice] ∧
    ((founded 200000 300 20).after forked).state.Routed ∧
    ∀ p ∈ (founded 200000 300 20).payments forked, p.1.SplitsPayment p.2 :=
  have hr : (founded 200000 300 20).Reachable {} (founders 200000 300 20) :=
    ⟨_, [], rfl, by decide, rfl⟩
  have hs : ∀ step ∈ forked, step.Storable := by decide
  have h := Ledger.Reachable.payments_split hr (by decide) hs
  ⟨by decide +kernel, h.1 _ (Ledger.after_mem_visited _ _), h.2⟩

end Sample

end ResearchLedger
