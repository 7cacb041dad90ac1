import ResearchLedger.Proofs.Payments
import ResearchLedger.Proofs.RewardPass

/-! Along every run the money changes by fees and rewards alone, but for what payments lose. -/
namespace ResearchLedger

open SortedMap

variable {l l' : Ledger} {config : Config} {genesis : Genesis} {steps : List Step}

theorem Upkeeps.money (h : Upkeeps l l') (hl : l.Sound) (hm : l.state.money ≤ Amount.max) :
    l'.Sound ∧ l'.state.money = l.state.money ∧ l'.state.config = l.state.config := by
  induction h with
  | refl => exact ⟨hl, rfl, rfl⟩
  | tail _ hc ih =>
    obtain ⟨hs, hmoney, hconfig⟩ := ih
    exact ⟨(Change.upkeep hc).sound hs, (hc.money hs (hmoney ▸ hm)).trans hmoney,
      (Change.upkeep hc).config_eq.trans hconfig⟩

namespace LedgerM

theorem money_operations {ops : List Operation} (h : Collects Operation.apply ops l l')
    (hl : l.Sound) (hf : 0 ≤ l.state.config.minAccountCreationFee)
    (hm : l.state.money ≤ Amount.max) : l'.state.money = l.state.money - (ops.map Operation.fee).sum ∧
      0 ≤ (ops.map Operation.fee).sum := by
  induction h with
  | nil => exact ⟨(sub_zero _).symm, le_refl _⟩
  | cons h _ ih =>
    have he := Operation.effect_of_run (apply_ok h)
    obtain ⟨hmoney, hfee⟩ := he.money hl hf hm
    obtain ⟨hrest, hfees⟩ := ih ((Change.operation he).sound hl)
      ((Change.operation he).config_eq ▸ hf) (by linarith)
    rw [List.map_cons, List.sum_cons]
    exact ⟨by linarith, Int.add_nonneg hfee hfees⟩

theorem money_payments {names : List AccountName} (h : Collects payPowerDown names l l')
    (hl : l.Sound) (hm : l.state.money ≤ Amount.max) : l'.Sound ∧ l'.state.money +
      ((l.turns payPowerDown names).map fun p => p.1.trimmed p.2).sum = l.state.money := by
  induction h with
  | nil => exact ⟨hl, add_zero _⟩
  | @cons name names events l l₁ l' h _ ih =>
    have hpaid := payPowerDown_money h hl hm
    have hlost : 0 ≤ l.trimmed name := le_max_right _ _
    obtain ⟨hs, hrest⟩ := ih ((Change.payment h).sound hl) (by linarith)
    refine ⟨hs, ?_⟩
    rw [Ledger.turns, List.map_cons, List.sum_cons, h]
    linarith

end LedgerM

namespace Step

/-- What the payments of a request lose. -/
def trimmed (step : Step) (l : Ledger) : Amount :=
  ((step.payments l).map fun p => p.1.trimmed p.2).sum

theorem trimmed_nonneg (step : Step) (l : Ledger) : 0 ≤ step.trimmed l :=
  sum_map_nonneg fun _ _ => le_max_right _ _

theorem budget_nonneg (step : Step) : 0 ≤ step.budget := by
  cases step <;> simp [budget]

theorem storable_of_budget_le {step : Step} (h : step.budget ≤ Amount.max) : step.Storable := by
  cases step with
  | distributeReward => exact (le_max_left _ _).trans h
  | rewardHolders => exact (le_max_left _ _).trans h
  | _ => trivial

/-- A request takes fees, gives rewards within its budget, and may lose by its payments. -/
theorem money (step : Step) (hl : l.Sound) (hf : 0 ≤ l.state.config.minAccountCreationFee)
    (hm : l.state.money + step.budget ≤ Amount.max) :
    (step.next l).state.money + step.trimmed l =
      l.state.money - step.fees l + step.distributed l ∧
    0 ≤ step.fees l ∧ step.distributed l ≤ step.budget := by
  have h₀ := hl.solvent.money_nonneg
  have hb := step.budget_nonneg
  have hm' : l.state.money ≤ Amount.max := by linarith
  unfold trimmed
  cases step.proceeds l (storable_of_budget_le (by linarith)) with
  | upkeep h _ hp hf hd =>
    rw [hp, hf, hd, List.map_nil, List.sum_nil, (h.money hl hm').2.1]
    exact ⟨by linarith, le_refl _, hb⟩
  | operations h _ hp hf' hd =>
    obtain ⟨hmoney, hfees⟩ := LedgerM.money_operations h hl hf hm'
    rw [hp, hf', hd, List.map_nil, List.sum_nil, hmoney]
    exact ⟨by linarith, hfees, hb⟩
  | reward h hn _ hp hf hd hle =>
    obtain ⟨hsound, hamount⟩ := h.sound hl.linked hl.apportioned hl.balanced
    have hmoney := hsound.money_applyReward hl.solvent l.head.time (by linarith)
    rw [hp, hf, hd, List.map_nil, List.sum_nil, hn, hmoney]
    exact ⟨by linarith, le_refl _, hamount.trans hle⟩
  | block before paid after _ hp hf hd =>
    obtain ⟨hs₁, hmoney₁, -⟩ := before.money hl hm'
    obtain ⟨hs₂, hmoney₂⟩ := LedgerM.money_payments paid hs₁ (hmoney₁ ▸ hm')
    have hlost : 0 ≤ step.trimmed l := step.trimmed_nonneg l
    unfold trimmed at hlost
    rw [hp] at hlost ⊢
    rw [hf, hd, (after.money hs₂ (by linarith)).2.1]
    exact ⟨by linarith, le_refl _, hb⟩

theorem next_sound (step : Step) (hs : step.Storable) (hl : l.Sound) : (step.next l).Sound :=
  (step.invariant hs (fun _ _ h => h.sound) hl).1

theorem next_config (step : Step) (hs : step.Storable) (l : Ledger) :
    (step.next l).state.config = l.state.config :=
  (step.invariant (P := fun l' => l'.state.config = l.state.config) hs
    (fun _ _ h he => h.config_eq.trans he) rfl).1

end Step

namespace Ledger

theorem budgets_nonneg (steps : List Step) : 0 ≤ (steps.map Step.budget).sum :=
  sum_map_nonneg fun step _ => step.budget_nonneg

theorem storable_of_budgets_le (h : (steps.map Step.budget).sum ≤ Amount.max) :
    ∀ step ∈ steps, step.Storable := by
  intro step hstep
  refine Step.storable_of_budget_le (le_trans ?_ h)
  refine List.single_le_sum (fun x hx => ?_) _ (List.mem_map_of_mem hstep)
  obtain ⟨step, -, rfl⟩ := List.mem_map.1 hx
  exact step.budget_nonneg

/-- The money after a run, by the fees, the rewards and the losses of its requests. -/
theorem Sound.money_after (hl : l.Sound) (hf : 0 ≤ l.state.config.minAccountCreationFee)
    (hm : l.state.money + (steps.map Step.budget).sum ≤ Amount.max) :
    (l.after steps).state.money + l.sumOver Step.trimmed steps =
      l.state.money - l.sumOver Step.fees steps + l.sumOver Step.distributed steps := by
  induction steps generalizing l with
  | nil => exact (add_zero _).trans ((add_zero _).trans (sub_zero _)).symm
  | cons step steps ih =>
    rw [List.map_cons, List.sum_cons] at hm
    have hrest := budgets_nonneg steps
    obtain ⟨hmoney, hfees, hgiven⟩ := step.money hl hf (by linarith)
    have hlost := step.trimmed_nonneg l
    have h₀ := hl.solvent.money_nonneg
    have hs : step.Storable := Step.storable_of_budget_le (by linarith)
    have := ih (step.next_sound hs hl) (step.next_config hs l ▸ hf) (by linarith)
    simp only [after, sumOver]
    linarith

theorem sumOver_trimmed (l : Ledger) (steps : List Step) : l.sumOver Step.trimmed steps =
    ((l.payments steps).map fun p => p.1.trimmed p.2).sum := by
  induction steps generalizing l with
  | nil => rfl
  | cons step steps ih =>
    rw [payments, List.map_append, List.sum_append, ← ih]
    rfl

theorem sumOver_trimmed_eq_zero : l.sumOver Step.trimmed steps = 0 ↔
    ∀ p ∈ l.payments steps, p.1.peakStake p.2 ≤ Amount.max := by
  rw [sumOver_trimmed]
  generalize l.payments steps = ps
  induction ps with
  | nil => simp
  | cons p ps ih =>
    have hp : 0 ≤ p.1.trimmed p.2 := le_max_right _ _
    have hps : 0 ≤ (ps.map fun p => p.1.trimmed p.2).sum :=
      sum_map_nonneg fun _ _ => le_max_right _ _
    have hzero : p.1.trimmed p.2 = 0 ↔ p.1.peakStake p.2 ≤ Amount.max := by
      unfold trimmed
      rw [max_eq_right_iff]
      exact ⟨Int.le_of_sub_nonpos, Int.sub_nonpos_of_le⟩
    rw [List.forall_mem_cons, ← ih, ← hzero, List.map_cons, List.sum_cons]
    constructor
    · intro h
      exact ⟨by linarith, by linarith⟩
    · intro h
      rw [h.1, h.2, add_zero]

/-- Along a run the money changes by the fees and rewards and by what payments lose; it is conserved
but for fees and rewards exactly if no payment on the way raises the stake of its own source above what
can be stored; and nobody ever owes anything. -/
theorem money_conserved_iff (h : ofGenesis config genesis = .ok l) (hg : genesis.Storable)
    (hf : 0 ≤ config.minAccountCreationFee)
    (hm : l.state.money + (steps.map Step.budget).sum ≤ Amount.max) :
    (l.after steps).state.money + ((l.payments steps).map fun p => p.1.trimmed p.2).sum =
      l.state.money - l.sumOver Step.fees steps + l.sumOver Step.distributed steps ∧
    ((l.after steps).state.money =
        l.state.money - l.sumOver Step.fees steps + l.sumOver Step.distributed steps ↔
      ∀ p ∈ l.payments steps, p.1.peakStake p.2 ≤ Amount.max) ∧
    ∀ l' ∈ l.visited steps, l'.state.Solvent := by
  have hl := Sound.ofGenesis h hg
  have hc : l.state.config = config := State.config_ofGenesis (ofGenesis_ok h).1
  have h₀ := hl.solvent.money_nonneg
  have hs : ∀ step ∈ steps, step.Storable := storable_of_budgets_le (by linarith)
  have hmoney := hl.money_after (hc ▸ hf) hm
  refine ⟨l.sumOver_trimmed steps ▸ hmoney, ?_, fun l' hl' => ?_⟩
  · rw [← sumOver_trimmed_eq_zero]
    constructor <;> intro <;> linarith
  · exact ((visited_invariant hs (fun _ _ hc => hc.sound) hl).2 l' hl').solvent

end Ledger

namespace Sample

/-- Alice powers down with a route that leads back to herself. -/
def circle : List Step :=
  [.operation (.setWithdrawRoute ⟨alice, alice, 10000, true⟩),
    .operation (.withdrawCommonTokens ⟨alice, 1300⟩),
    .endBlock 604800]

/-- With all the stake there can be, the payment of a hundred is first added, which has no effect, and
then taken. -/
theorem money_lost : Ledger.ofGenesis {} (founders Amount.max 0 0) = .ok (founded Amount.max 0 0) ∧
    (founded Amount.max 0 0).state.money + (circle.map Step.budget).sum = Amount.max ∧
    (founded Amount.max 0 0).sumOver Step.fees circle = 0 ∧
    (founded Amount.max 0 0).sumOver Step.distributed circle = 0 ∧
    ((founded Amount.max 0 0).after circle).state.money =
      (founded Amount.max 0 0).state.money - 100 := by
  decide +kernel

/-- Alice powers down and publishes, and pays for a new account before a reward is given. -/
def busy : List Step :=
  .operation (.withdrawCommonTokens ⟨alice, 130000⟩) :: publish ++
    [.endBlock 604800,
      .operation (.accountCreate
        ⟨.primary 1000, alice, dave, .ofKey .empty, .ofKey .empty, .ofKey .empty, .empty, ""⟩),
      .distributeReward (.primary 1000)]

/-- Here no payment leads back, and the fee and the reward are all that the money changes by. -/
theorem busy_conserved : (founded 200000 300 20).sumOver Step.fees busy = 1000 ∧
    (founded 200000 300 20).sumOver Step.distributed busy = 750 ∧
    ((founded 200000 300 20).after busy).state.money =
      (founded 200000 300 20).state.money - (founded 200000 300 20).sumOver Step.fees busy +
        (founded 200000 300 20).sumOver Step.distributed busy :=
  have h := @Ledger.money_conserved_iff (founded 200000 300 20) {} (founders 200000 300 20) busy rfl
    (by decide) (by decide) (by decide +kernel)
  ⟨by decide +kernel, by decide +kernel, h.2.1.2 (by decide +kernel)⟩

end Sample

end ResearchLedger
