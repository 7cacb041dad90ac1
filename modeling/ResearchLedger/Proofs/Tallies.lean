import ResearchLedger.Proofs.Elections
import ResearchLedger.Proofs.Payments

/-! Along every run proxies and votes hang together, and the numbers that elections rest on are exact
but for what payments raise above the greatest that can be kept. -/
namespace ResearchLedger

open SortedMap

variable {s : State} {l l' : Ledger} {c : Count} {config : Config} {genesis : Genesis}
  {steps : List Step}

namespace State

/-- Every account keeps, for each distance, the stake whose chain of proxies reaches it there, and every
witness the weights of the accounts that approve it. -/
structure Tallied (s : State) : Prop where
  proxied : ∀ n a, s.accounts.get? n = some a → ∀ slot : Fin maxProxyDepth, a.proxied.get slot =
    s.accounts.sumOf fun x b => if climb s.proxyOf (slot + 1) x = some n then b.commonTokens else 0
  votes : ∀ n w, s.witnesses.get? n = some w → w.votes =
    s.accounts.sumOf fun x b => if s.approves x n then b.witnessVoteWeight else 0

theorem count_through (n : AccountName) (slot : Fin maxProxyDepth) : s.count (.through n slot) =
    s.accounts.sumOf fun x b =>
      if climb s.proxyOf (slot + 1) x = some n then b.commonTokens else 0 := by
  simp [count, counts]

/-- The stake that votes for a witness in the end is the weight of its voters. -/
theorem count_votes (hs : s.Chained)
    (hslots : ∀ n slot x, s.noted (.through n slot) = some x → x = s.count (.through n slot))
    (witness : AccountName) : s.count (.votes witness) =
      s.accounts.sumOf fun x b => if s.approves x witness then b.witnessVoteWeight else 0 := by
  have habsent : ∀ x, s.accounts.get? x = none → s.approves x witness = false := by
    intro x hx
    refine Bool.eq_false_iff.2 fun hw => ?_
    have := (hs.voters x witness hw).2.1
    rw [contains_eq_false_iff.2 hx] at this
    cases this
  have hweight : (s.accounts.sumOf fun x b =>
      if s.approves x witness then b.witnessVoteWeight else 0) =
        ∑ i ∈ Finset.range (maxProxyDepth + 1), s.accounts.sumOf fun x _ =>
          s.accounts.sumOf fun y b => if climb s.proxyOf i y = some x then
            if s.approves x witness then b.commonTokens else 0 else 0 := by
    rw [← sumOf_sum]
    refine sumOf_congr fun x a ha => ?_
    split
    · rw [← ProxyDelta.weigh_weight, weigh_ofAccount (hslots x) ha]
      simp only [mul_one]
      rfl
    · simp only [ite_self, sumOf_zero, Finset.sum_const_zero]
  -- Both sides go over the pairs of a stake and a voter, in either order.
  rw [hweight, count_eq_gather hs]
  simp only [gather_eq_sum, Finset.mul_sum, sumOf_sum]
  refine Finset.sum_congr rfl fun i _ => ?_
  rw [sumOf_comm]
  refine sumOf_congr fun y b _ => ?_
  rw [sumOf_pick _ fun x hx => if_neg (Bool.eq_false_iff.1 (habsent x hx))]
  cases climb s.proxyOf i y with
  | none => exact mul_zero _
  | some x =>
    simp only [Option.elim_some, mark]
    split
    · exact mul_one _
    · exact mul_zero _

theorem tallied_iff (hs : s.Chained) : s.Tallied ↔ s.Exact := by
  constructor
  · intro h
    have hslots : ∀ n slot x, s.noted (.through n slot) = some x → x = s.count (.through n slot) := by
      intro n slot x hx
      obtain ⟨a, ha, rfl⟩ := Option.map_eq_some_iff.1 hx
      exact (h.proxied n a ha slot).trans (count_through n slot).symm
    intro c x hx
    cases c with
    | through n slot => exact hslots n slot x hx
    | votes n =>
      obtain ⟨w, hw, rfl⟩ := Option.map_eq_some_iff.1 hx
      exact (h.votes n w hw).trans (count_votes hs hslots n).symm
  · intro h
    refine ⟨fun n a ha slot => ?_, fun n w hw => ?_⟩
    · exact (h (.through n slot) _ (noted_through ha slot)).trans (count_through n slot)
    · have := h (.votes n) w.votes (by rw [noted, hw]; rfl)
      exact this.trans (count_votes hs (fun n slot => h (.through n slot)) n)

end State

namespace LedgerM

theorem exact_operations {ops : List Operation} (h : Collects Operation.apply ops l l')
    (hl : l.Sound) (hs : l.state.Chained) (he : l.state.Exact)
    (hm : ∀ x ∈ l.turns Operation.apply ops, x.1.state.money ≤ Amount.max)
    (hm' : l'.state.money ≤ Amount.max) :
    l'.state.Exact ∧ ∀ x ∈ l.turns Operation.apply ops, x.1.state.Exact := by
  induction h with
  | nil => exact ⟨he, fun _ hx => absurd hx List.not_mem_nil⟩
  | @cons op ops events l l₁ l' h hrest ih =>
    rw [Ledger.turns, List.forall_mem_cons, h] at hm
    rw [Ledger.turns, List.forall_mem_cons, h]
    have heffect := Operation.effect_of_run (apply_ok h)
    have hsound := (Change.operation heffect).sound hl
    have hm₁ : l₁.state.money ≤ Amount.max := by
      cases hrest with
      | nil => exact hm'
      | cons => exact hm.2 (l₁, _) List.mem_cons_self
    have he₁ := heffect.exact hl.linked hs he hl.solvent hm.1 hsound.solvent hm₁
    obtain ⟨hend, hturns⟩ := ih hsound (heffect.chained hl.linked hs) he₁ hm.2 hm'
    exact ⟨hend, he, hturns⟩

theorem exact_payments_iff {names : List AccountName} (h : Collects payPowerDown names l l')
    (hl : l.Sound) (hs : l.state.Chained) (he : l.state.Exact)
    (hm : ∀ x ∈ l.turns payPowerDown names, x.1.state.money ≤ Amount.max) :
    (l'.state.Exact ∧ ∀ x ∈ l.turns payPowerDown names, x.1.state.Exact) ↔
      ∀ x ∈ l.turns payPowerDown names, x.1.Roomy x.2 := by
  induction h with
  | nil => simp [Ledger.turns, he]
  | @cons name names events l l₁ l' h hrest ih =>
    rw [Ledger.turns, List.forall_mem_cons, h] at hm
    rw [Ledger.turns, List.forall_mem_cons, List.forall_mem_cons, h]
    have hiff := payPowerDown_exact_iff h hs hl.solvent hm.1 he
    have ih := ih ((Change.payment h).sound hl) (payPowerDown_chained h hs)
    constructor
    · rintro ⟨hend, -, hturns⟩
      have he₁ : l₁.state.Exact := by
        cases hrest with
        | nil => exact hend
        | cons => exact hturns (l₁, _) List.mem_cons_self
      exact ⟨hiff.1 he₁, (ih he₁ hm.2).1 ⟨hend, hturns⟩⟩
    · rintro ⟨hroomy, hrooms⟩
      obtain ⟨hend, hturns⟩ := (ih (hiff.2 hroomy) hm.2).2 hrooms
      exact ⟨hend, he, hturns⟩

end LedgerM

/-- A request leaves the numbers exact at all its stages exactly if each of its payments has room. -/
theorem Step.exact_iff (step : Step) (hstep : step.Storable) (hl : l.Sound) (hs : l.state.Chained)
    (he : l.state.Exact) (hm : ∀ l' ∈ step.stages l, l'.state.money ≤ Amount.max)
    (hm' : (step.next l).state.money ≤ Amount.max) :
    ((step.next l).state.Exact ∧ ∀ l' ∈ step.stages l, l'.state.Exact) ↔
      ∀ p ∈ step.payments l, p.1.Roomy p.2 := by
  cases step.proceeds l hstep with
  | upkeep h hstages hp =>
    rw [hstages, hp]
    simp [h.exact_iff, he]
  | operations h hstages hp =>
    rw [hstages] at hm
    rw [hstages, hp]
    simp only [List.forall_mem_map] at hm ⊢
    exact iff_of_true (LedgerM.exact_operations h hl hs he hm hm') (by simp)
  | reward h hn hstages hp =>
    rw [hstages, hp, hn]
    simp [(State.samePoll_applyReward ..).exact_iff, he]
  | block before paid after hstages hp =>
    rw [hstages, hp] at hm
    rw [hstages, hp, after.exact_iff]
    simp only [List.forall_mem_map] at hm ⊢
    have hbefore : ∀ l', Upkeeps l l' → l'.Sound ∧ l'.state.Chained := by
      intro l' h
      induction h with
      | refl => exact ⟨hl, hs⟩
      | tail _ hc ih => exact ⟨(Change.upkeep hc).sound ih.1, hc.samePoll.chained ih.2⟩
    obtain ⟨hsound, hchained⟩ := hbefore _ before
    exact LedgerM.exact_payments_iff paid hsound hchained (before.exact_iff.2 he) hm

/-- A payment has room if twice the money there is can be kept. -/
theorem LedgerM.payPowerDown_roomy {name : AccountName} {events : List Event}
    (h : payPowerDown name l = (.ok events, l')) (hl : l.Sound)
    (hm : 2 * l.state.money ≤ Amount.max) : l.Roomy name := by
  obtain ⟨a, l₁, routed, effects, ha, hmid, hr, -, -⟩ := payPowerDown_ok h
  have hs := hl.solvent
  have h₀ := hs.money_nonneg
  obtain ⟨hmoney, hrouted⟩ := hr.trimmed ha hl (by linarith)
  have hle := (hs.accounts _ _ ha).nextPayment.2
  have hfit := hs.balance_add_stakeOf_le ha name
  have hbal := (hs.accounts _ _ ha).balance
  have hlost : 0 ≤ l.trimmed name := le_max_right _ _
  rw [State.stakeOf_of_get? ha] at hfit
  unfold Ledger.Roomy
  rw [hmid]
  intro c x _
  have := (hr.solvent_state hs).count_le_money c
  linarith

namespace Ledger

theorem exact_visited_iff (hsteps : ∀ step ∈ steps, step.Storable) (hl : l.Sound)
    (hs : l.state.Chained) (he : l.state.Exact)
    (hm : ∀ l' ∈ l.visited steps, l'.state.money ≤ Amount.max) :
    (∀ l' ∈ l.visited steps, l'.state.Exact) ↔ ∀ p ∈ l.payments steps, p.1.Roomy p.2 := by
  induction steps generalizing l with
  | nil => simp [visited, payments, he]
  | cons step steps ih =>
    obtain ⟨hstep, hsteps⟩ := List.forall_mem_cons.1 hsteps
    obtain ⟨-, hm⟩ := List.forall_mem_cons.1 hm
    obtain ⟨hstages, hrest⟩ := List.forall_mem_append.1 hm
    have hstart := (step.next l).mem_visited_self steps
    have hnext := (step.invariant (P := fun l => l.Sound ∧ l.state.Chained) hstep
      (fun _ _ h hp => ⟨h.sound hp.1, h.chained hp.1.linked hp.2⟩) ⟨hl, hs⟩).1
    have hiff := step.exact_iff hstep hl hs he hstages (hrest _ hstart)
    have ih := fun he => ih hsteps hnext.1 hnext.2 he hrest
    rw [visited, payments, List.forall_mem_cons, List.forall_mem_append, List.forall_mem_append]
    constructor
    · rintro ⟨-, hs, hv⟩
      exact ⟨hiff.1 ⟨hv _ hstart, hs⟩, (ih (hv _ hstart)).1 hv⟩
    · rintro ⟨hp, hps⟩
      obtain ⟨hend, hs⟩ := hiff.2 hp
      exact ⟨he, hs, (ih hend).2 hps⟩

theorem payments_roomy (hsteps : ∀ step ∈ steps, step.Storable) (hl : l.Sound)
    (hm : ∀ l' ∈ l.visited steps, 2 * l'.state.money ≤ Amount.max) :
    ∀ p ∈ l.payments steps, p.1.Roomy p.2 := by
  intro p hp
  obtain ⟨hmem, events, l', h⟩ := payments_granted hsteps p hp
  have hsound := (visited_invariant hsteps (fun _ _ h => h.sound) hl).2 _ hmem
  exact LedgerM.payPowerDown_roomy h hsound (hm _ hmem)

/-- Along a run no proxies form a circle, and an account with a proxy approves no witness; the tallies
are right at all times exactly if no payment on the way raises one above what can be kept, as is the
case when twice the money can be kept. -/
theorem tallied_iff_roomy (h : ofGenesis config genesis = .ok l) (hg : genesis.Storable)
    (hsteps : ∀ step ∈ steps, step.Storable)
    (hm : ∀ l' ∈ l.visited steps, l'.state.money ≤ Amount.max) :
    (∀ l' ∈ l.visited steps, Acyclic l'.state.proxyOf ∧
      ∀ n w, l'.state.approves n w = true → l'.state.proxyOf n = none) ∧
    ((∀ l' ∈ l.visited steps, l'.state.Tallied) ↔ ∀ p ∈ l.payments steps, p.1.Roomy p.2) ∧
    ((∀ l' ∈ l.visited steps, 2 * l'.state.money ≤ Amount.max) →
      ∀ l' ∈ l.visited steps, l'.state.Tallied) := by
  have hl := Sound.ofGenesis h hg
  have hs := State.Unpolled.ofGenesis (ofGenesis_ok h).1
  have hchained := (visited_invariant (P := fun l => l.Sound ∧ l.state.Chained) hsteps
    (fun _ _ hc hp => ⟨hc.sound hp.1, hc.chained hp.1.linked hp.2⟩) ⟨hl, hs.chained⟩).2
  have hiff : (∀ l' ∈ l.visited steps, l'.state.Tallied) ↔
      ∀ p ∈ l.payments steps, p.1.Roomy p.2 := by
    rw [← exact_visited_iff hsteps hl hs.chained hs.exact hm]
    exact forall₂_congr fun l' hl' => State.tallied_iff (hchained l' hl').2
  refine ⟨fun l' hl' => ?_, hiff, fun hhalf => hiff.2 (payments_roomy hsteps hl hhalf)⟩
  obtain ⟨-, hc⟩ := hchained l' hl'
  exact ⟨hc.acyclic, fun n w hw => (hc.voters n w hw).1⟩

end Ledger

namespace Sample

/-- Carol votes for herself, and alice powers down in favour of bob. -/
def favour : List Step :=
  [.operation (.witnessVote ⟨carol, carol, true⟩),
    .operation (.setWithdrawRoute ⟨alice, bob, 10000, true⟩),
    .operation (.withdrawCommonTokens ⟨alice, 1300⟩),
    .endBlock 604800]

/-- Alice and bob both have carol as their proxy. -/
def fan : List Step :=
  .operation (.setWitnessProxy ⟨alice, some carol⟩) ::
    .operation (.setWitnessProxy ⟨bob, some carol⟩) :: favour

/-- With all the stake there can be behind carol, a payment of a hundred from alice to bob is counted
for both in its course, which has no effect, and then taken off. -/
theorem tally_lost : Ledger.ofGenesis {} (founders (2 ^ 62) (2 ^ 62 - 1) 0) =
      .ok (founded (2 ^ 62) (2 ^ 62 - 1) 0) ∧
    (∀ l ∈ (founded (2 ^ 62) (2 ^ 62 - 1) 0).visited fan, l.state.money ≤ Amount.max) ∧
    ¬ ((founded (2 ^ 62) (2 ^ 62 - 1) 0).after fan).state.Tallied := by
  refine ⟨by decide +kernel, by decide +kernel, fun h => ?_⟩
  have hkept : (((founded (2 ^ 62) (2 ^ 62 - 1) 0).after fan).state.accounts.get? carol).map
      (·.proxied.get ⟨0, by decide⟩) = some (Amount.max - 100) := by decide +kernel
  have hsum : ((founded (2 ^ 62) (2 ^ 62 - 1) 0).after fan).state.count (.through carol ⟨0, by decide⟩) =
      Amount.max := by decide +kernel
  obtain ⟨a, ha, hslot⟩ := Option.map_eq_some_iff.1 hkept
  have hslot' := h.proxied carol a ha ⟨0, by decide⟩
  rw [← State.count_through, hsum] at hslot'
  have hdiff : Amount.max - 100 = Amount.max := hslot.symm.trans hslot'
  exact absurd hdiff (by decide)

/-- Alice has bob as her proxy, who has carol as his. -/
def row : List Step :=
  .operation (.setWitnessProxy ⟨bob, some carol⟩) ::
    .operation (.setWitnessProxy ⟨alice, some bob⟩) :: favour

/-- Here the payment has room, and moves stake from the second place below carol to the first. -/
theorem row_tallied : ((founded 2000 300 20).payments row).map (·.2) = [alice] ∧
    (∀ l ∈ (founded 2000 300 20).visited row, l.state.Tallied) ∧
    (((founded 2000 300 20).after row).state.accounts.get? carol).map (·.proxied.toList) =
      some [400, 1900, 0, 0] :=
  have h := @Ledger.tallied_iff_roomy (founded 2000 300 20) {} (founders 2000 300 20) row rfl
    (by decide) (by decide) (by decide +kernel)
  ⟨by decide +kernel, h.2.2 (by decide +kernel), by decide +kernel⟩

end Sample

end ResearchLedger
