import ResearchLedger.Proofs.Money

/-! A reward pass always succeeds, keeps to its budget, and pays out exactly what it reports. -/
namespace ResearchLedger

open SortedMap

variable {s : State} {l : Ledger} {config : Config} {genesis : Genesis} {p : RewardPlan}

section Increase

variable {κ α : Type} [KeyOrder κ] {m m' : SortedMap κ α} {f : α → Amount}

/-- The increases of all entries come to the increase of the sum. -/
theorem SortedMap.sumOf_increase (hc : ∀ k, m'.contains k = m.contains k) :
    m'.sumOf (fun k v => f v - ((m.get? k).map f).getD 0) =
      m'.sumOf (fun _ v => f v) - m.sumOf fun _ v => f v := by
  have hold : m'.sumOf (fun k _ => ((m.get? k).map f).getD 0) = m.sumOf fun _ v => f v := by
    refine sumOf_eq_of_get? fun k => ?_
    have := hc k
    unfold SortedMap.contains at this
    cases h' : m'.get? k <;> cases h : m.get? k <;> simp_all
  have hadd := sumOf_add (m := m') (f := fun k v => f v - ((m.get? k).map f).getD 0)
    (g := fun k _ => ((m.get? k).map f).getD 0)
  simp only [sub_add_cancel] at hadd
  linarith

/-- Additions of nothing less than nothing lower no entry. -/
theorem SortedMap.le_foldl_raised [DecidableEq κ] {u : Amount → α → α}
    (hu : ∀ x v, f (u x v) = Amount.clamp (f v + x)) {xs : List (κ × Amount)}
    (hf : m.All fun _ v => f v ≤ Amount.max) (hx : ∀ y ∈ xs, 0 ≤ y.2) (k : κ) :
    ((m.get? k).map f).getD 0 ≤
      (((xs.foldl (fun m y => m.modify y.1 (u y.2)) m).get? k).map f).getD 0 := by
  induction xs generalizing m with
  | nil => exact le_refl _
  | cons y xs ih =>
    have hnext : (m.modify y.1 (u y.2)).All fun _ v => f v ≤ Amount.max :=
      hf.modify fun v _ => (hu y.2 v).symm ▸ Amount.clamp_le_max _
    refine le_trans ?_ (ih hnext fun z hz => hx z (List.mem_cons_of_mem _ hz))
    rw [get?_modify]
    split
    · cases hv : m.get? k with
      | none => exact le_refl _
      | some v =>
        have := hx y List.mem_cons_self
        simp only [Option.map_some, Option.getD_some, hu]
        exact Amount.le_clamp (by linarith) (hf k v hv)
    · exact le_refl _

end Increase

namespace State

/-- The money of a group, or zero. -/
def fundsOf (s : State) (id : GroupId) : Amount := ((s.groups.get? id).map (·.balance)).getD 0

theorem balanceOf_eq (s : State) (n : AccountName) :
    s.balanceOf n = ((s.accounts.get? n).map (·.balance.amount)).getD 0 := by
  unfold balanceOf
  cases s.accounts.get? n <;> rfl

/-- No balance of an account or group falls, and the increases come to `x`. -/
structure RisesBy (s s' : State) (x : Amount) : Prop where
  balanceOf_le : ∀ n, s.balanceOf n ≤ s'.balanceOf n
  fundsOf_le : ∀ id, s.fundsOf id ≤ s'.fundsOf id
  sum : (s'.accounts.sumOf fun n a => a.balance.amount - s.balanceOf n) +
    (s'.groups.sumOf fun id g => g.balance - s.fundsOf id) = x

end State

namespace RewardPlan.Sound

variable (hp : p.Sound s) (hs : s.Solvent) (now : Seconds)

include hp hs

theorem balances_applyReward (hm : s.money + p.distributed ≤ Amount.max) :
    (s.applyReward now p).balances = s.balances + p.balances.sumOf fun _ amount => amount := by
  have := hs.stakes_nonneg
  have := hs.escrow_nonneg
  have := hs.funds_nonneg
  have := hp.groups_nonneg
  have hd := hp.distributed
  unfold State.money at hm
  unfold State.balances
  rw [State.accounts_applyReward]
  refine sumOf_foldl_raised (f := fun a : Account => a.balance.amount)
    (u := fun x a => a.credit x) (fun _ _ => rfl)
    (fun n a ha => (hs.accounts n a ha).balance) (fun y hy => hp.balances _ _ (mem_entries_iff.1 hy)) ?_
  change s.balances + p.balances.sumOf (fun _ amount => amount) ≤ _
  linarith

theorem funds_applyReward (hm : s.money + p.distributed ≤ Amount.max) :
    (s.applyReward now p).funds = s.funds + p.groups.sumOf fun _ amount => amount := by
  have := hs.stakes_nonneg
  have := hs.escrow_nonneg
  have := hs.balances_nonneg
  have := hp.balances_nonneg
  have hd := hp.distributed
  unfold State.money at hm
  unfold State.funds
  rw [State.groups_applyReward]
  refine sumOf_foldl_raised (f := fun g : ResearchGroup => g.balance)
    (u := fun x g => { g with balance := Amount.clamp (g.balance + x) }) (fun _ _ => rfl) hs.groups
    (fun y hy => hp.groups _ _ (mem_entries_iff.1 hy)) ?_
  change s.funds + p.groups.sumOf (fun _ amount => amount) ≤ _
  linarith

theorem money_applyReward (hm : s.money + p.distributed ≤ Amount.max) :
    (s.applyReward now p).money = s.money + p.distributed := by
  have hb := hp.balances_applyReward hs now hm
  have hf := hp.funds_applyReward hs now hm
  have hk := State.applyReward_keeps (f := Account.commonTokens) (fun _ _ => rfl) s now p
  have hc : (s.applyReward now p).stakes = s.stakes := hk.sumOf fun x => x
  have he : (s.applyReward now p).escrow = s.escrow := by
    obtain ⟨_, _, _, he⟩ := State.applyReward_footprint s now p
    rw [he]
    rfl
  have hd := hp.distributed
  unfold State.money
  rw [hb, hc, he, hf]
  linarith

/-- The payments of a plan raise balances by what it distributes. -/
theorem risesBy (hm : s.money + p.distributed ≤ Amount.max) :
    s.RisesBy (s.applyReward now p) p.distributed := by
  have h₁ := hs.balances_nonneg
  have h₂ := hs.stakes_nonneg
  have h₃ := hs.escrow_nonneg
  have h₄ := hs.funds_nonneg
  have h₅ := hp.distributed_nonneg
  have hmoney : s.money = s.balances + s.stakes + s.escrow + s.funds := rfl
  constructor
  · intro n
    rw [State.balanceOf_eq, State.balanceOf_eq, State.accounts_applyReward]
    refine le_foldl_raised (f := fun a : Account => a.balance.amount) (u := fun x a => a.credit x)
      (fun _ _ => rfl) (fun n a ha => ?_) (fun y hy => (hp.balances _ _ (mem_entries_iff.1 hy)).2) n
    have := hs.balance_le ha
    linarith
  · intro id
    unfold State.fundsOf
    rw [State.groups_applyReward]
    refine le_foldl_raised (f := fun g : ResearchGroup => g.balance)
      (u := fun x g => { g with balance := Amount.clamp (g.balance + x) }) (fun _ _ => rfl)
      (fun id g hg => ?_) (fun y hy => (hp.groups _ _ (mem_entries_iff.1 hy)).2) id
    have : g.balance ≤ s.funds := le_sumOf (f := fun _ (g : ResearchGroup) => g.balance) hs.groups hg
    linarith
  · have hacc : ∀ n, (s.applyReward now p).accounts.contains n = s.accounts.contains n :=
      fun n => (State.applyReward_keepsNames s now p).contains
    have hgrp : ∀ id, (s.applyReward now p).groups.contains id = s.groups.contains id := by
      intro id
      rw [State.groups_applyReward]
      exact contains_foldl_modify
    have hb := sumOf_increase (f := fun a : Account => a.balance.amount) hacc
    have hf := sumOf_increase (f := fun g : ResearchGroup => g.balance) hgrp
    have hb' := hp.balances_applyReward hs now hm
    have hf' := hp.funds_applyReward hs now hm
    have hd := hp.distributed
    simp only [State.balanceOf_eq]
    unfold State.balances at hb'
    unfold State.funds at hf'
    unfold State.fundsOf
    rw [hb, hf]
    linarith

end RewardPlan.Sound

theorem checkBudget_eq {budget : Asset} (hb : budget.symbol = .primary) (h₀ : 0 ≤ budget.amount) :
    checkBudget budget = .ok () := by
  simp [checkBudget, Asset.ensureSymbol, hb, Int.not_lt.2 h₀, pure, Except.pure, bind, Except.bind]

/-- A budget was divided: nothing was refused, no more than the budget was given away, the rest is
reported, and the balances rose by what was given. -/
structure Ledger.Divides (l : Ledger) (budget : Amount) (report : RewardReport) (l' : Ledger) :
    Prop where
  distributed_nonneg : 0 ≤ report.distributed
  distributed_le : report.distributed ≤ budget
  rest : report.distributed + report.unused = budget
  rises : l.state.RisesBy l'.state report.distributed

theorem Ledger.Sound.divides {amount : Amount} (hl : l.Sound) (hp : p.Sound l.state)
    (hle : p.distributed ≤ amount) (hm : l.state.money + amount ≤ Amount.max) :
    l.Divides amount (p.toReport amount)
      { l with state := l.state.applyReward l.head.time p } where
  distributed_nonneg := hp.distributed_nonneg
  distributed_le := hle
  rest := add_sub_cancel p.distributed amount
  rises := hp.risesBy hl.solvent _ (by linarith)

namespace Ledger.Sound

variable {budget : Asset} (hl : l.Sound) (hb : budget.symbol = .primary) (h₀ : 0 ≤ budget.amount)
  (hm : l.state.money + budget.amount ≤ Amount.max)

include hl hb h₀ hm

theorem distributeReward : ∃ report l', LedgerM.distributeReward budget l = (.ok report, l') ∧
    l.Divides budget.amount report l' := by
  have := hl.solvent.money_nonneg
  obtain ⟨p, hp, hsound, hle⟩ := State.planReward_ok hl.linked hl.apportioned hl.balanced h₀
    (by linarith)
  refine ⟨_, _, ?_, hl.divides hsound hle hm⟩
  rw [LedgerM.run_distributeReward, checkBudget_eq hb h₀, hp]

theorem rewardHolders {id : ResearchId} (hr : l.state.researches.contains id = true) :
    ∃ report l', LedgerM.rewardHolders id budget l = (.ok report, l') ∧
      l.Divides budget.amount report l' := by
  have := hl.solvent.money_nonneg
  obtain ⟨r, hr⟩ := contains_iff.1 hr
  obtain ⟨p, hp, hsound, hle⟩ := State.planHolders_ok hl.linked hl.apportioned hr h₀ (by linarith)
  refine ⟨_, _, ?_, hl.divides hsound hle hm⟩
  rw [LedgerM.run_rewardHolders, checkBudget_eq hb h₀, hp]

end Ledger.Sound

/-- A reward pass over a reachable ledger is never refused, nor is a distribution over the holders
of an existing research: both keep to their budget, report the rest, and raise balances by exactly
what they report. -/
theorem Ledger.Reachable.rewards_conserved (h : l.Reachable config genesis) (hg : genesis.Storable)
    (budget : Asset) (hb : budget.symbol = .primary) (h₀ : 0 ≤ budget.amount)
    (hm : l.state.money + budget.amount ≤ Amount.max) :
    (∃ report l', LedgerM.distributeReward budget l = (.ok report, l') ∧
      l.Divides budget.amount report l') ∧
    ∀ id, l.state.researches.contains id = true →
      ∃ report l', LedgerM.rewardHolders id budget l = (.ok report, l') ∧
        l.Divides budget.amount report l' :=
  ⟨(h.sound hg).distributeReward hb h₀ hm, fun _ => (h.sound hg).rewardHolders hb h₀ hm⟩

/-- A budget of a thousand on a ledger with one voted content. The holders of its research get 750, and
the parts of its reviews, references and curators are left, since it has none with a weight. A
distribution over the holders alone pays everything. -/
theorem Sample.published_rewards :
    (∃ report l', LedgerM.distributeReward ⟨1000, .primary⟩ published = (.ok report, l') ∧
      published.Divides 1000 report l' ∧ report.distributed = 750 ∧ report.events.length = 3) ∧
    ∃ report l', LedgerM.rewardHolders 0 ⟨1000, .primary⟩ published = (.ok report, l') ∧
      published.Divides 1000 report l' ∧ report.distributed = 1000 := by
  obtain ⟨⟨report, l', hpass, hdivides⟩, hholders⟩ :=
    Ledger.Reachable.rewards_conserved published_reachable (by decide) ⟨1000, .primary⟩ rfl
      (by decide) (by decide +kernel)
  obtain ⟨report₀, l₀, hrun, hdivides₀⟩ := hholders 0 (by decide +kernel)
  have hpaid : (LedgerM.distributeReward ⟨1000, .primary⟩ published).1.toOption.map
      (fun r => (r.distributed, r.events.length)) = some (750, 3) := by decide +kernel
  have hpaid₀ : (LedgerM.rewardHolders 0 ⟨1000, .primary⟩ published).1.toOption.map
      (·.distributed) = some 1000 := by decide +kernel
  rw [hpass] at hpaid
  rw [hrun] at hpaid₀
  obtain ⟨hamount, hevents⟩ := Prod.mk.inj (Option.some.inj hpaid)
  exact ⟨⟨report, l', hpass, hdivides, hamount, hevents⟩,
    report₀, l₀, hrun, hdivides₀, Option.some.inj hpaid₀⟩

end ResearchLedger
