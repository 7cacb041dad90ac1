import ResearchLedger.Proofs.Mirroring

/-! What an account has of common expertise beyond its stake: along a run it is what the creation of
the account, the registrar and rewards have given. -/
namespace ResearchLedger

variable {l l' : Ledger} {config : Config} {genesis : Genesis} {n : AccountName}

open SortedMap

namespace LedgerM.Collects

/-- Operations in a row add what each gives, unless the end of the range is reached. -/
theorem unstaked {ops : List Operation} (h : Collects Operation.apply ops l l')
    (hs : l.state.Mirrored n)
    (hroom : ∀ x ∈ l.turns Operation.apply ops, x.1.state.expertiseOf n < Amount.max)
    (hend : l'.state.expertiseOf n < Amount.max) : l'.state.unstaked n =
      l.state.unstaked n + ((l.turns Operation.apply ops).map fun x => x.2.expertiseGift n).sum := by
  induction h with
  | nil => exact (add_zero _).symm
  | @cons op ops events l l₁ l' ha hrest ih =>
    rw [Ledger.turns, List.forall_mem_cons, ha] at hroom
    obtain ⟨_, hgrown⟩ := (Operation.effect_of_run (apply_ok ha)).grows hs
    -- The operation leads to the ledger of the next turn, or to the last one.
    have hroom₁ : l₁.state.expertiseOf n < Amount.max := by
      cases hrest with
      | nil => exact hend
      | cons => exact hroom.2 (l₁, _) List.mem_cons_self
    rw [ih (hgrown.mirrored hs) hroom.2 hend, hgrown.unstaked hs hroom₁, Ledger.turns, ha,
      List.map_cons, List.sum_cons, add_assoc]

/-- Payments in a row make no difference, unless the end of the range is reached in their course. -/
theorem unstaked_paid {names : List AccountName} (h : Collects payPowerDown names l l')
    (hl : l.Sound) (hs : l.state.Mirrored n)
    (hmid : ∀ p ∈ l.turns payPowerDown names, (midPayment p.1 p.2).state.expertiseOf n < Amount.max) :
    l'.state.unstaked n = l.state.unstaked n := by
  induction h with
  | nil => rfl
  | cons hp _ ih =>
    rw [Ledger.turns, List.forall_mem_cons, hp] at hmid
    obtain ⟨_, -, ⟨_, hgrown⟩, hpaid⟩ := payPowerDown_mirrors hp hl hs
    have hchange := Change.payment hp
    rw [ih (hchange.sound hl) (hchange.mirrored hl hs) hmid.2, hpaid.unstaked,
      hgrown.unstaked hs hmid.1, add_zero]

end LedgerM.Collects

namespace Step

/-- The common expertise that a request reports to have rewarded an account with. -/
def expertiseRewarded (n : AccountName) (step : Step) (l : Ledger) : Amount :=
  ((step.reported l).map (Event.expertiseTo n commonDiscipline)).sum

theorem unstaked {step : Step} (hstep : step.Storable) (hl : l.Sound) (hs : l.state.Mirrored n)
    (hroom : ∀ l' ∈ step.stages l, l'.state.expertiseOf n < Amount.max)
    (hend : (step.next l).state.expertiseOf n < Amount.max)
    (hmid : ∀ p ∈ step.payments l,
      (LedgerM.midPayment p.1 p.2).state.expertiseOf n < Amount.max) :
    (step.next l).state.unstaked n = l.state.unstaked n +
      (((step.carriedOut l).map fun x => x.2.expertiseGift n).sum + step.expertiseRewarded n l) := by
  have hupkeep {l₁ l₂ : Ledger} (h : Upkeeps l₁ l₂) : l₂.state.unstaked n = l₁.state.unstaked n :=
    congrArg₂ (· - ·) h.mirrors.2 h.mirrors.1
  unfold expertiseRewarded
  cases step.proceeds l hstep with
  | upkeep h hstages hp hf hd hr =>
    rw [hupkeep h, carriedOut_eq_nil (by rw [hstages, hp, List.map_nil]), hr]
    exact (add_zero _).symm
  | operations h hstages hp hf hd hr =>
    rw [hstages] at hroom
    rw [carriedOut_of_stages hstages hp, hr, h.unstaked hs (fun x hx => ?_) hend]
    · exact (congrArg _ (add_zero _)).symm
    · exact hroom _ (List.mem_map_of_mem hx)
  | reward h hn hstages hp hf hd hb hr =>
    have hplan := (h.sound hl.linked hl.apportioned hl.balanced).1
    rw [hn] at hend ⊢
    rw [(State.Grows.applyReward hs hplan _).unstaked hs hend, h.reported,
      carriedOut_eq_nil (by rw [hstages, hp, List.map_nil]), hr, List.map_nil, List.sum_nil, zero_add]
  | block before paid after hstages hp hf hd hr =>
    obtain ⟨hl₁, hs₁⟩ := before.invariant (P := fun l => l.Sound ∧ l.state.Mirrored n)
      (fun _ _ hc h => ⟨hc.sound h.1, hc.mirrored h.1 h.2⟩) ⟨hl, hs⟩
    rw [hp] at hmid
    rw [hupkeep after, paid.unstaked_paid hl₁ hs₁ hmid, hupkeep before, carriedOut_eq_nil hstages, hr]
    exact (add_zero _).symm

end Step

namespace Ledger

variable {steps : List Step}

/-- What an account has of common expertise beyond its stake is what it is given along the run, as long
as its expertise stays below the end of the range. -/
theorem unstaked_after (hsteps : ∀ step ∈ steps, step.Storable) (hl : l.Sound)
    (hs : l.state.Mirrored n) (hroom : ∀ l' ∈ l.visited steps, l'.state.expertiseOf n < Amount.max)
    (hmid : ∀ p ∈ l.payments steps,
      (LedgerM.midPayment p.1 p.2).state.expertiseOf n < Amount.max) :
    (l.after steps).state.unstaked n = l.state.unstaked n +
      (((l.carriedOut steps).map fun x => x.2.expertiseGift n).sum +
        l.sumOver (Step.expertiseRewarded n) steps) := by
  induction steps generalizing l with
  | nil => exact (add_zero _).symm
  | cons step steps ih =>
    rw [List.forall_mem_cons] at hsteps
    rw [visited, List.forall_mem_cons, List.forall_mem_append] at hroom
    rw [payments, List.forall_mem_append] at hmid
    obtain ⟨hl', hs'⟩ := (step.invariant (P := fun l => l.Sound ∧ l.state.Mirrored n) hsteps.1
      (fun _ _ hc h => ⟨hc.sound h.1, hc.mirrored h.1 h.2⟩) ⟨hl, hs⟩).1
    have hnext := hroom.2.2 _ ((step.next l).mem_visited_self steps)
    rw [after, ih hsteps.2 hl' hs' hroom.2.2 hmid.2,
      Step.unstaked hsteps.1 hl hs hroom.2.1 hnext hmid.1, carriedOut, List.map_append, List.sum_append,
      sumOver]
    abel

/-- Along every run the stake of an account is mirrored by its common expertise: whoever has stake has
an expert token for at least as much; no payment of a power-down takes more expertise than there is;
and as long as its expertise stays below the end of the range, an account has beyond its stake what its
creation, the registrar and rewards have given it. -/
theorem common_tokens_mirrored (h : ofGenesis config genesis = .ok l) (hg : genesis.Storable)
    (hsteps : ∀ step ∈ steps, step.Storable) (n : AccountName) :
    (∀ l' ∈ l.visited steps, ∀ a, l'.state.accounts.get? n = some a → 0 < a.commonTokens →
      ∃ t, l'.state.expertToken? n commonDiscipline = some t ∧ a.commonTokens ≤ t.amount) ∧
    (∀ p ∈ l.payments steps, ∃ a, p.1.state.accounts.get? p.2 = some a ∧
      a.nextPayment ≤ (LedgerM.midPayment p.1 p.2).state.expertiseOf p.2 ∧
      (LedgerM.payPowerDown p.2 p.1).2.state.expertiseOf p.2 =
        (LedgerM.midPayment p.1 p.2).state.expertiseOf p.2 - a.nextPayment) ∧
    ((∀ l' ∈ l.visited steps, l'.state.expertiseOf n < Amount.max) →
      (∀ p ∈ l.payments steps, (LedgerM.midPayment p.1 p.2).state.expertiseOf n < Amount.max) →
      (l.after steps).state.expertiseOf n - (l.after steps).state.stakeOf n =
        ((l.carriedOut steps).map fun x => x.2.creationFee n).sum +
          ((l.carriedOut steps).map fun x => x.2.registrarGrant n).sum +
          l.sumOver (Step.expertiseRewarded n) steps) := by
  have hl := Sound.ofGenesis h hg
  have hstart (n : AccountName) := State.mirrored_ofGenesis (ofGenesis_ok h).1 hg n
  have hvisited (n : AccountName) : ∀ l' ∈ l.visited steps, l'.Sound ∧ l'.state.Mirrored n :=
    (visited_invariant (P := fun l => l.Sound ∧ l.state.Mirrored n) hsteps
      (fun _ _ hc h => ⟨hc.sound h.1, hc.mirrored h.1 h.2⟩) ⟨hl, (hstart n).1⟩).2
  refine ⟨fun l' hl' a ha hpos => (hvisited n l' hl').2.token ha hpos, fun p hp => ?_,
    fun hroom hmid => ?_⟩
  · obtain ⟨hmem, events, l', hpaid⟩ := payments_granted hsteps p hp
    obtain ⟨hsound, hmirrored⟩ := hvisited p.2 p.1 hmem
    obtain ⟨a, ha, ⟨_, hgrown⟩, htaken⟩ := LedgerM.payPowerDown_mirrors hpaid hsound hmirrored
    rw [if_pos rfl] at htaken
    rw [hpaid]
    exact ⟨a, ha, htaken.taken_le.trans (hgrown.mirrored hmirrored).stake_le, htaken.expertise⟩
  · have hsum := unstaked_after hsteps hl (hstart n).1 hroom hmid
    rw [(hstart n).2, zero_add] at hsum
    rw [← List.sum_map_add]
    exact hsum

end Ledger

namespace Sample

/-- A payment lets alice pay for the accounts of dave and of the registrar, who adds to the expertise
of dave. Dave publishes and is rewarded, and half of the next payment becomes stake of his. -/
def endowed : List Step :=
  [.operation (.withdrawCommonTokens ⟨alice, 130000⟩),
    .endBlock 604800,
    .operation (.accountCreate ⟨.primary 1000, alice, dave, .ofKey .empty, .ofKey .empty,
      .ofKey .empty, .empty, ""⟩),
    .operation (.accountCreate ⟨.primary 1000, alice, .registrar, .ofKey .empty, .ofKey .empty,
      .ofKey .empty, .empty, ""⟩),
    .operation (.addExpertise ⟨.registrar, dave, [(0, 70)]⟩),
    .operation (.createGroup ⟨dave, "Group", "group", "", 5000⟩),
    .operation (.createResearch ⟨dave, 0, "Research", "", "research", 1000, [0]⟩),
    .operation (.createContent ⟨dave, 0, .milestone, "Content", "", "content", [dave], [], []⟩),
    .operation (.voteForContent ⟨dave, 0, 10000, 0, 0⟩),
    .distributeReward (.primary 1000),
    .operation (.setWithdrawRoute ⟨alice, dave, 5000, true⟩),
    .endBlock 604800]

/-- Beyond his stake of 5000 dave has the fee of his creation, what the registrar added, and the
reward. -/
theorem endowed_mirrored :
    (∃ t, ((founded 200000 300 20).after endowed).state.expertToken? dave commonDiscipline = some t ∧
      5000 ≤ t.amount) ∧
    (∀ p ∈ (founded 200000 300 20).payments endowed, ∃ a, p.1.state.accounts.get? p.2 = some a ∧
      a.nextPayment ≤ (LedgerM.midPayment p.1 p.2).state.expertiseOf p.2 ∧
      (LedgerM.payPowerDown p.2 p.1).2.state.expertiseOf p.2 =
        (LedgerM.midPayment p.1 p.2).state.expertiseOf p.2 - a.nextPayment) ∧
    ((founded 200000 300 20).after endowed).state.expertiseOf dave - 5000 = 1000 + 70 + 750 := by
  obtain ⟨htoken, hpaid, hgiven⟩ := @Ledger.common_tokens_mirrored (founded 200000 300 20) {}
    (founders 200000 300 20) endowed rfl (by decide) (by decide) dave
  have hstake : ((founded 200000 300 20).after endowed).state.stakeOf dave = 5000 := by
    decide +kernel
  have hfee : (((founded 200000 300 20).carriedOut endowed).map fun x =>
    x.2.creationFee dave).sum = 1000 := by decide +kernel
  have hadded : (((founded 200000 300 20).carriedOut endowed).map fun x =>
    x.2.registrarGrant dave).sum = 70 := by decide +kernel
  have hrewarded : (founded 200000 300 20).sumOver (Step.expertiseRewarded dave) endowed = 750 := by
    decide +kernel
  have hgiven := hgiven (by decide +kernel) (by decide +kernel)
  rw [hstake, hfee, hadded, hrewarded] at hgiven
  obtain ⟨a, ha⟩ := contains_iff.1 (show
    ((founded 200000 300 20).after endowed).state.accounts.contains dave = true by decide +kernel)
  have hcommon : a.commonTokens = 5000 := (State.stakeOf_of_get? ha).symm.trans hstake
  obtain ⟨t, ht, hle⟩ := htoken _ (Ledger.after_mem_visited _ _) a ha (by rw [hcommon]; decide)
  rw [hcommon] at hle
  exact ⟨⟨t, ht, hle⟩, hpaid, hgiven⟩

end Sample

end ResearchLedger
