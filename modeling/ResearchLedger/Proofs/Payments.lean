import ResearchLedger.Proofs.Money

/-! What the payments of power-downs do to the money: they move it, but a route that leads back to its
source as stake is paid before the payment is taken, and what cannot be stored then is lost. -/
namespace ResearchLedger

open SortedMap

variable {l l' : Ledger} {amount deposit : Amount} {name : AccountName} {r : WithdrawRoute}
  {rs : List WithdrawRoute} {events : List Event}

/-- What a payment adds to the stake of its own source. -/
def restaked (name : AccountName) (amount : Amount) (rs : List WithdrawRoute) : Amount :=
  (rs.map fun r =>
    if r.target = name ∧ r.asCommonTokens = true then part amount r.percent wholePercent else 0).sum

namespace Ledger

/-- The greatest stake of an account in the course of its next payment. -/
def peakStake (l : Ledger) (name : AccountName) : Amount :=
  match l.state.accounts.get? name with
  | some a =>
    a.commonTokens + restaked name a.nextPayment (l.state.withdrawRoutes.getD name ∅).values
  | none => 0

/-- What the next payment of an account loses. -/
def trimmed (l : Ledger) (name : AccountName) : Amount := max (l.peakStake name - Amount.max) 0

end Ledger

theorem restaked_nonneg (name : AccountName) (rs : List WithdrawRoute) (h : 0 ≤ amount) :
    0 ≤ restaked name amount rs := by
  refine sum_map_nonneg fun r _ => ?_
  split
  · exact part_nonneg h
  · exact le_refl _

namespace LedgerM

/-- A route moves its part, but for what its source cannot store. -/
theorem RoutePaid.money (name : AccountName) (h : RoutePaid amount r l deposit l') (hs : l.state.Solvent)
    (hc : l.state.accounts.contains r.target = true) {x : Amount}
    (hx : x = if r.target = name ∧ r.asCommonTokens = true then deposit else 0)
    (hm : l.state.money - l.state.stakeOf name + deposit ≤ Amount.max)
    (hn : l.state.stakeOf name ≤ Amount.max) :
    l'.state.money + max (l.state.stakeOf name + x - Amount.max) 0 = l.state.money + deposit ∧
      l'.state.stakeOf name = min (l.state.stakeOf name + x) Amount.max := by
  obtain ⟨b, hb⟩ := contains_iff.1 hc
  have hsb := hs.accounts _ _ hb
  cases h with
  | skip =>
    rw [ite_self] at hx
    subst hx
    rw [add_zero, add_zero, min_eq_left hn, max_eq_right (Int.sub_nonpos_of_le hn), add_zero]
    exact ⟨rfl, rfl⟩
  | stake hd hp hr he =>
    have hmoney := State.money_modifyAccount (f := (·.stake deposit)) hb fun _ => rfl
    have hstake := State.stakeOf_modifyAccount (s := l.state) (f := (·.stake deposit)) (k := r.target)
      (n := name)
    rw [State.money_applyProxyEffects, State.stakeOf_applyProxyEffects]
    change State.money (State.modifyAccount _ _ _) + _ = _ ∧ State.stakeOf (State.modifyAccount _ _ _) _ = _
    rw [hmoney, hstake]
    have hclamp : (b.stake deposit).commonTokens = min (b.commonTokens + deposit) Amount.max :=
      Amount.clamp_of_nonneg (Int.add_nonneg hsb.commonTokens hp.le)
    rw [hclamp]
    by_cases hself : r.target = name
    · -- The part comes back: only here it may meet a stake that it does not fit on.
      subst hself
      rw [if_pos ⟨rfl, hr⟩] at hx
      subst hx
      rw [if_pos rfl, hb, State.stakeOf_of_get? hb]
      refine ⟨?_, hclamp⟩
      lia
    · rw [if_neg fun h => hself h.1] at hx
      subst hx
      rw [if_neg hself, add_zero, min_eq_left hn, max_eq_right (Int.sub_nonpos_of_le hn), add_zero]
      have hfit := hs.stake_add_stakeOf_le hb hself
      rw [min_eq_left (by linarith)]
      exact ⟨by linarith, rfl⟩
  | balance hd hp hr =>
    rw [if_neg fun h => by simp [hr] at h] at hx
    subst hx
    rw [State.stakeOf_credit, add_zero, min_eq_left hn, max_eq_right (Int.sub_nonpos_of_le hn), add_zero]
    have hfit := hs.balance_add_stakeOf_le hb name
    exact ⟨State.money_credit hb (Int.add_nonneg hsb.balance hp.le) (by linarith), rfl⟩

theorem RoutesPaid.money (name : AccountName) (h : RoutesPaid amount rs l deposit l') (hs : l.state.Solvent)
    (hc : ∀ r ∈ rs, l.state.accounts.contains r.target = true) (ha : 0 ≤ amount)
    (ham : amount ≤ Amount.max) (hp : (rs.map (·.percent)).sum ≤ wholePercent)
    (hm : l.state.money - l.state.stakeOf name + deposit ≤ Amount.max)
    (hn : l.state.stakeOf name ≤ Amount.max) :
    l'.state.money + max (l.state.stakeOf name + restaked name amount rs - Amount.max) 0 =
      l.state.money + deposit := by
  induction h with
  | nil =>
    rw [restaked, List.map_nil, List.sum_nil, add_zero, max_eq_right (Int.sub_nonpos_of_le hn)]
  | @cons r rs l l₁ l' deposit deposits h hrest ih =>
    rw [List.map_cons, List.sum_cons] at hp
    have hd := h.deposit_eq ha ham (by omega)
    have hd₀ : 0 ≤ deposit := hd ▸ part_nonneg ha
    have hds := (hrest.deposit_le ha ham (by omega)).1
    obtain ⟨hmoney, hstake⟩ := h.money name hs (hc r List.mem_cons_self) rfl (by linarith) hn
    have hrestaked : restaked name amount (r :: rs) =
        (if r.target = name ∧ r.asCommonTokens = true then deposit else 0) + restaked name amount rs := by
      rw [restaked, List.map_cons, List.sum_cons, hd]
      rfl
    have hx : 0 ≤ (if r.target = name ∧ r.asCommonTokens = true then deposit else 0) := by
      split
      · exact hd₀
      · exact le_refl _
    have hr := restaked_nonneg name rs ha
    have hs₁ : l₁.state.Solvent := (RoutesPaid.cons h .nil).solvent_state hs
    rw [hrestaked]
    generalize (if r.target = name ∧ r.asCommonTokens = true then deposit else 0) = x at *
    have := ih hs₁ (fun r hr => h.keepsNames.contains.trans (hc r (List.mem_cons_of_mem _ hr)))
      (by omega) (by lia) (by lia)
    lia

theorem money_settle {s : State} {a : Account} {effects : ProxyEffects} {rest : Amount}
    (ha : s.accounts.get? name = some a) (h₀ : 0 ≤ a.balance.amount + rest)
    (hm : a.balance.amount + rest ≤ Amount.max) :
    (settle s name effects amount rest).money = s.money + rest - amount := by
  have hk := (State.applyProxyEffects_keepsCore (s := s) effects).map Account.holdings
  obtain ⟨b, hb, hab⟩ := hk.exists_after ha
  have hbal : b.balance.amount = a.balance.amount := congrArg Prod.fst hab
  have hcredit : ((s.applyProxyEffects effects).credit name rest).money = s.money + rest := by
    rw [State.money_credit hb (by rw [hbal]; exact h₀) (by rw [hbal]; exact hm),
      State.money_applyProxyEffects]
  have hpaid := State.money_modifyAccount (s := (s.applyProxyEffects effects).credit name rest)
    (f := (·.afterPayment amount (s.applyProxyEffects effects).config.withdrawIntervalSeconds))
    (get?_modify_self.trans (congrArg _ hb)) fun _ => rfl
  refine (Eq.trans ?_ hpaid).trans ?_
  · rfl
  rw [hcredit]
  change s.money + rest - b.commonTokens + (b.commonTokens - amount) = _
  linarith

/-- In the middle of a payment the routes have been paid beside what is still the source's, but for
what the source cannot store. -/
theorem RoutesPaid.trimmed {a : Account} (ha : l.state.accounts.get? name = some a)
    (h : RoutesPaid a.nextPayment (l.state.withdrawRoutes.getD name ∅).values l deposit l')
    (hl : l.Sound) (hm : l.state.money ≤ Amount.max) :
    l'.state.money + l.trimmed name = l.state.money + deposit ∧ deposit ≤ a.nextPayment := by
  have hs := hl.solvent
  have hsa := hs.accounts _ _ ha
  obtain ⟨h₀, hle⟩ := hsa.nextPayment
  have hmax := hle.trans hsa.commonTokens_le
  have hstake := State.stakeOf_of_get? ha
  have hpercent := sum_routes_le hs.routes name
  have hrouted := (h.deposit_le h₀ hmax hpercent).2
  refine ⟨?_, hrouted⟩
  have hmoney := h.money name hs (hl.linked.routeTargets name) h₀ hmax hpercent
    (by rw [hstake]; linarith) (by rw [hstake]; exact hsa.commonTokens_le)
  rw [Ledger.trimmed, Ledger.peakStake, ha]
  rwa [hstake] at hmoney

/-- A payment loses what its source cannot store in its course, and nothing else. -/
theorem payPowerDown_money (h : payPowerDown name l = (.ok events, l')) (hl : l.Sound)
    (hm : l.state.money ≤ Amount.max) : l'.state.money + l.trimmed name = l.state.money := by
  obtain ⟨a, l₁, routed, effects, ha, -, hr, -, rfl⟩ := payPowerDown_ok h
  have hs := hl.solvent
  have hle := (hs.accounts _ _ ha).nextPayment.2
  obtain ⟨hmoney, hrouted⟩ := hr.trimmed ha hl hm
  have hlost : 0 ≤ l.trimmed name := le_max_right _ _
  have hs₁ := hr.solvent_state hs
  obtain ⟨b, hb, -⟩ := hr.keepsNames.exists_after ha
  have hgrown := (hr.solvent hs.accounts).2 name
  have hfit := hs₁.balance_add_stakeOf_le hb name
  have hbal := (hs₁.accounts _ _ hb).balance
  rw [State.stakeOf_of_get? ha] at hgrown
  change (settle l₁.state name effects a.nextPayment (a.nextPayment - routed)).money + _ = _
  rw [money_settle hb (by linarith) (by linarith)]
  linarith

end LedgerM

end ResearchLedger
