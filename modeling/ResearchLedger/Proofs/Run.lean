import Mathlib.Logic.Relation
import ResearchLedger.Block.Maintenance
import ResearchLedger.Genesis.Basic
import ResearchLedger.Proofs.Effect
import ResearchLedger.Reward.Distribution

/-! Runs of a ledger: what a caller may ask of it, and the single changes each request is made of. -/
namespace ResearchLedger

/-- A request to a ledger. Each may succeed or be refused. -/
inductive Step where
  | operation (op : Operation)
  | transaction (ops : List Operation)
  | endBlock (seconds : Seconds)
  | processGrants
  | processBlock
  | distributeReward (budget : Asset)
  | rewardHolders (research : ResearchId) (amount : Asset)
  /-- The caller keeps the clock and may set it at will. -/
  | setClock (time : Seconds) (block : Nat)

/-- What a granted request answers. -/
inductive Outcome where
  | events (events : List Event)
  | report (report : RewardReport)

namespace Step

/-- The amount to be given away can be stored. -/
def Storable : Step → Prop
  | distributeReward budget => budget.amount ≤ Amount.max
  | rewardHolders _ amount => amount.amount ≤ Amount.max
  | _ => True

instance : DecidablePred Storable := fun step => by cases step <;> unfold Storable <;> infer_instance

def perform : Step → LedgerM Outcome
  | operation op => do return .events (← op.apply)
  | transaction ops => do return .events (← LedgerM.applyTransaction ops)
  | endBlock seconds => do return .events (← LedgerM.endBlock seconds)
  | processGrants => do return .events (← LedgerM.processGrants)
  | processBlock => do return .events (← LedgerM.processBlock)
  | distributeReward budget => do return .report (← LedgerM.distributeReward budget)
  | rewardHolders research amount => do return .report (← LedgerM.rewardHolders research amount)
  | setClock time block => do
    modify (fun l => { l with head := { l.head with time, block } })
    return .events []

/-- The ledger after a request, granted or refused. -/
def next (step : Step) (l : Ledger) : Ledger := (step.perform l).2

end Step

/-- All amounts of a genesis can be stored. -/
def Genesis.Storable (g : Genesis) : Prop :=
  ∀ a ∈ g.accounts, a.balance ≤ Amount.max ∧ a.commonTokens ≤ Amount.max

instance : DecidablePred Genesis.Storable := fun g => by unfold Genesis.Storable; infer_instance

namespace Ledger

/-- The ledger after a list of requests. -/
def after (l : Ledger) : List Step → Ledger
  | [] => l
  | step :: steps => (step.next l).after steps

/-- The ledgers that a genesis leads to, by requests in any order, granted or refused. -/
def Reachable (config : Config) (genesis : Genesis) (l : Ledger) : Prop :=
  ∃ l₀ steps, ofGenesis config genesis = .ok l₀ ∧ (∀ step ∈ steps, step.Storable) ∧
    l = l₀.after steps

/-- The ledger at the time when a maintenance begins to pay power-downs. -/
def beforePayments (l : Ledger) : Ledger :=
  { l with state :=
      ((((l.state.dropRecoveryRequests l.head.time).changePartners l.head.time).pruneOwnerHistory
        l.head.time).returnDelegations l.head.time).1 }

/-- The state at the time when a maintenance begins to give back loans. -/
def beforeReturns (l : Ledger) : State :=
  ((l.state.dropRecoveryRequests l.head.time).changePartners l.head.time).pruneOwnerHistory l.head.time

/-- What a maintenance still does after the power-downs. -/
def afterPayments (l : Ledger) (now : Seconds) : Ledger :=
  { l.expireContents.1 with state := (l.expireContents.1.state.expireProposals now).1 }

/-- The members of a list, each with the ledger at which its turn comes. -/
def turns {α : Type} (step : α → LedgerM (List Event)) (l : Ledger) : List α → List (Ledger × α)
  | [] => []
  | a :: as => (l, a) :: (step a l).2.turns step as

/-- The power-downs that a maintenance pays. -/
def blockPayments (l : Ledger) : List (Ledger × AccountName) :=
  l.beforePayments.turns LedgerM.payPowerDown (LedgerM.duePowerDowns l.beforePayments)

/-- A ledger at which the payments of a block are planned, after its grants. -/
def afterGrants (l : Ledger) (seconds : Seconds) : Ledger :=
  (LedgerM.processGrants { l with head := l.head.advance seconds }).2

/-- The reward plans that a ledger makes for an amount. -/
inductive Plans (l : Ledger) : Amount → RewardPlan → Prop
  | pass {budget : Asset} {plan : RewardPlan} (hb : checkBudget budget = .ok ())
      (hm : budget.amount ≤ Amount.max)
      (h : l.state.planReward budget.amount l.head.activeWeight = .ok plan) :
      Plans l budget.amount plan
  | holders {research : ResearchId} {amount : Asset} {plan : RewardPlan}
      (hb : checkBudget amount = .ok ()) (hm : amount.amount ≤ Amount.max)
      (h : l.state.planHolders research amount.amount {} = .ok plan) :
      Plans l amount.amount plan

end Ledger

/-- The fee that an operation offers. -/
def Operation.fee : Operation → Amount
  | accountCreate op => op.fee.amount
  | _ => 0

namespace Step

/-- The operations that a request asks for. -/
def operations : Step → List Operation
  | operation op => [op]
  | transaction ops => ops
  | _ => []

/-- What a request asks to give away at most. -/
def budget : Step → Amount
  | distributeReward budget => max budget.amount 0
  | rewardHolders _ amount => max amount.amount 0
  | _ => 0

variable (step : Step) (l : Ledger)

def granted : Bool := (step.perform l).1.isOk

/-- The fees that a request takes; a refused one takes none. -/
def fees : Amount := if step.granted l then (step.operations.map Operation.fee).sum else 0

/-- What a reward step reports to have given away. -/
def distributed : Amount :=
  match (step.perform l).1 with
  | .ok (.report r) => r.distributed
  | _ => 0

/-- What a reward step reports to have happened. -/
def reported : List Event :=
  match (step.perform l).1 with
  | .ok (.report r) => r.events
  | _ => []

/-- The power-downs that a granted request pays; a refused one undoes its own. -/
def payments : List (Ledger × AccountName) :=
  match step with
  | processBlock => if step.granted l then l.blockPayments else []
  | endBlock seconds => if step.granted l then (l.afterGrants seconds).blockPayments else []
  | _ => []

/-- The ledgers before each operation and each payment of a granted request. -/
def stages : List Ledger :=
  (if step.granted l then (l.turns Operation.apply step.operations).map (·.1) else []) ++
    (step.payments l).map (·.1)

end Step

namespace Ledger

/-- All ledgers on the way: before and after each request, and the stages of the granted ones. -/
def visited (l : Ledger) : List Step → List Ledger
  | [] => [l]
  | step :: steps => l :: (step.stages l ++ (step.next l).visited steps)

/-- A quantity of each request, summed over a run. -/
def sumOver {M : Type} [Add M] [OfNat M 0] (f : Step → Ledger → M) (l : Ledger) : List Step → M
  | [] => 0
  | step :: steps => f step l + (step.next l).sumOver f steps

/-- The power-downs that a run pays. -/
def payments (l : Ledger) : List Step → List (Ledger × AccountName)
  | [] => []
  | step :: steps => step.payments l ++ (step.next l).payments steps

end Ledger

/-- A single change that the time brings. -/
inductive Upkeep (l : Ledger) : Ledger → Prop
  | grant {id : GrantId} {g : Grant} {s : State} {events : List Event}
      (hg : l.state.grants.get? id = some g)
      (h : l.state.processGrant l.head.block id g = .ok (s, events)) :
      Upkeep l { l with state := s }
  | requests : Upkeep l { l with state := l.state.dropRecoveryRequests l.head.time }
  | partners : Upkeep l { l with state := l.state.changePartners l.head.time }
  | history : Upkeep l { l with state := l.state.pruneOwnerHistory l.head.time }
  | returns : Upkeep l { l with state := (l.state.returnDelegations l.head.time).1 }
  | deactivation (content : ContentId) : Upkeep l (l.deactivate content)
  | proposals (now : Seconds) : Upkeep l { l with state := (l.state.expireProposals now).1 }
  | clock (time : Seconds) (block : Nat) :
      Upkeep l { l with head := { l.head with time, block } }

/-- Changes by time in a row. -/
abbrev Upkeeps : Ledger → Ledger → Prop := Relation.ReflTransGen Upkeep

/-- A single change of a ledger. -/
inductive Change (l : Ledger) : Ledger → Prop
  | operation {op : Operation} {l' : Ledger} (h : op.Effect l l') : Change l l'
  | reward {amount : Amount} {plan : RewardPlan} (h : l.Plans amount plan) :
      Change l { l with state := l.state.applyReward l.head.time plan }
  | payment {name : AccountName} {events : List Event} {l' : Ledger}
      (h : LedgerM.payPowerDown name l = (.ok events, l')) : Change l l'
  | upkeep {l' : Ledger} (h : Upkeep l l') : Change l l'

/-- Changes in a row. -/
abbrev Changes : Ledger → Ledger → Prop := Relation.ReflTransGen Change

/-- Steps of a list in a row, all of them granted. -/
inductive LedgerM.Collects {α : Type} (step : α → LedgerM (List Event)) :
    List α → Ledger → Ledger → Prop
  | nil {l : Ledger} : Collects step [] l l
  | cons {a : α} {as : List α} {events : List Event} {l l₁ l' : Ledger}
      (h : step a l = (.ok events, l₁)) (hs : Collects step as l₁ l') : Collects step (a :: as) l l'

/-- How a request proceeds: at most the time has its way, or there are operations, or a reward, or a
block with its payments. -/
inductive Step.Proceeds (step : Step) (l : Ledger) : Prop
  | upkeep (h : Upkeeps l (step.next l)) (hs : step.stages l = []) (hp : step.payments l = [])
      (hf : step.fees l = 0) (hd : step.distributed l = 0) (hr : step.reported l = [])
  | operations (h : LedgerM.Collects Operation.apply step.operations l (step.next l))
      (hs : step.stages l = (l.turns Operation.apply step.operations).map (·.1))
      (hp : step.payments l = []) (hf : step.fees l = (step.operations.map Operation.fee).sum)
      (hd : step.distributed l = 0) (hr : step.reported l = [])
  | reward {plan : RewardPlan} {amount : Amount} (h : l.Plans amount plan)
      (hn : step.next l = { l with state := l.state.applyReward l.head.time plan })
      (hs : step.stages l = []) (hp : step.payments l = []) (hf : step.fees l = 0)
      (hd : step.distributed l = plan.distributed) (hb : amount ≤ step.budget)
      (hr : step.reported l = plan.events)
  | block {names : List AccountName} {l₁ l₂ : Ledger} (before : Upkeeps l l₁)
      (paid : LedgerM.Collects LedgerM.payPowerDown names l₁ l₂)
      (after : Upkeeps l₂ (step.next l))
      (hs : step.stages l = (step.payments l).map (·.1))
      (hp : step.payments l = l₁.turns LedgerM.payPowerDown names)
      (hf : step.fees l = 0) (hd : step.distributed l = 0) (hr : step.reported l = [])
      (hdue : names = LedgerM.duePowerDowns l₁)

variable {l l' : Ledger} {events : List Event}

namespace LedgerM

theorem collects_of_ok {α : Type} {step : α → LedgerM (List Event)} {as : List α}
    (h : collect step as l = (.ok events, l')) : Collects step as l l' := by
  induction as generalizing l events with
  | nil => cases h; exact .nil
  | cons a as ih =>
    obtain ⟨_, l₁, ha, h⟩ := bind_eq_ok.1 h
    obtain ⟨_, l₂, has, h⟩ := bind_eq_ok.1 h
    cases h
    exact .cons ha (ih has)

theorem run_atomically {α : Type} {x : LedgerM α} : atomically x l =
    match x l with
    | (.error e, _) => (.error e, l)
    | (.ok a, l') => (.ok a, l') := by
  unfold atomically
  rcases x l with ⟨e | a, l₁⟩ <;> rfl

theorem atomically_ok {α : Type} {x : LedgerM α} {a : α} (h : atomically x l = (.ok a, l')) :
    x l = (.ok a, l') := by
  rw [run_atomically] at h
  rcases hx : x l with ⟨e | b, l₁⟩ <;> rw [hx] at h
  · cases h
  · exact h

theorem atomically_error {α : Type} {x : LedgerM α} {e : LedgerError}
    (h : atomically x l = (.error e, l')) : l' = l := by
  rw [run_atomically] at h
  rcases hx : x l with ⟨e' | b, l₁⟩ <;> rw [hx] at h <;> cases h
  rfl

theorem run_apply {op : Operation} : op.apply l =
    match op.run l with
    | .ok (l', events) => (.ok events, l')
    | .error e => (.error e, l) := by
  unfold Operation.apply
  rw [run_bind, run_get]
  dsimp only
  rw [run_bind, run_lift]
  rcases op.run l with e | ⟨l₁, events⟩ <;> rfl

theorem apply_ok {op : Operation} (h : op.apply l = (.ok events, l')) :
    op.run l = .ok (l', events) := by
  rw [run_apply] at h
  rcases hr : op.run l with e | ⟨l₁, events'⟩ <;> rw [hr] at h <;> cases h
  rfl

theorem run_step {f : Ledger → Ledger × List Event} : step f l = (.ok (f l).2, (f l).1) := by
  unfold step
  rw [run_bind, run_get]
  dsimp only
  rcases f l with ⟨l₁, events⟩
  rfl

theorem run_stateStep {f : State → State × List Event} :
    stateStep f l = (.ok (f l.state).2, { l with state := (f l.state).1 }) := run_step

/-- A maintenance that succeeds: what is due before the power-downs, the power-downs, the rest. -/
theorem maintain_ok (h : maintain l = (.ok events, l')) : ∃ paid l₁,
    collect payPowerDown (duePowerDowns l.beforePayments) l.beforePayments = (.ok paid, l₁) ∧
      l' = l₁.afterPayments l.head.time ∧
      events = (l.beforeReturns.returnDelegations l.head.time).2 ++ paid ++ l₁.expireContents.2 ++
        (l₁.expireContents.1.state.expireProposals l.head.time).2 := by
  obtain ⟨_, _, hl, h⟩ := bind_eq_ok.1 h
  cases hl
  obtain ⟨_, _, hl, h⟩ := bind_eq_ok.1 h
  cases hl
  obtain ⟨_, _, hl, h⟩ := bind_eq_ok.1 h
  cases hl
  obtain ⟨_, _, hl, h⟩ := bind_eq_ok.1 h
  cases hl
  obtain ⟨_, _, hl, h⟩ := bind_eq_ok.1 h
  rw [run_stateStep] at hl
  cases hl
  obtain ⟨paid, l₁, hp, h⟩ := bind_eq_ok.1 h
  obtain ⟨_, _, hl, hp⟩ := bind_eq_ok.1 hp
  cases hl
  obtain ⟨_, _, hl, h⟩ := bind_eq_ok.1 h
  rw [run_step] at hl
  cases hl
  obtain ⟨_, _, hl, h⟩ := bind_eq_ok.1 h
  rw [run_stateStep] at hl
  cases hl
  cases h
  exact ⟨paid, l₁, hp, rfl, rfl⟩

/-- What every step of a list keeps is kept by all of them, as far as they come. -/
theorem collect_preserves {α : Type} {P : Ledger → Prop} {step : α → LedgerM (List Event)}
    (hs : ∀ a l, P l → P (step a l).2) (as : List α) (hl : P l) : P (collect step as l).2 := by
  induction as generalizing l with
  | nil => exact hl
  | cons a as ih =>
    have ha := hs a l hl
    unfold collect
    rw [run_bind]
    rcases h : step a l with ⟨e | _, l₁⟩ <;> rw [h] at ha
    · exact ha
    · have has := ih ha
      dsimp only
      rw [run_bind]
      rcases h' : collect step as l₁ with ⟨e | _, l₂⟩ <;> rw [h'] at has <;> exact has

/-- What every granted step of a list keeps holds at each turn and in the end. -/
theorem Collects.invariant {α : Type} {P : Ledger → Prop} {step : α → LedgerM (List Event)}
    {as : List α} (h : Collects step as l l')
    (hs : ∀ a events l l', step a l = (.ok events, l') → P l → P l') (hl : P l) :
    P l' ∧ ∀ x ∈ l.turns step as, P x.1 := by
  induction h with
  | nil => exact ⟨hl, fun _ hx => absurd hx List.not_mem_nil⟩
  | cons ha _ ih =>
    obtain ⟨hend, hturns⟩ := ih (hs _ _ _ _ ha hl)
    refine ⟨hend, fun x hx => ?_⟩
    rcases List.mem_cons.1 hx with rfl | hx
    · exact hl
    · rw [ha] at hx
      exact hturns x hx

/-- Each member of a list of granted steps is granted in its turn. -/
theorem Collects.granted {α : Type} {step : α → LedgerM (List Event)} {as : List α}
    (h : Collects step as l l') :
    ∀ x ∈ l.turns step as, ∃ events l₁, step x.2 x.1 = (.ok events, l₁) := by
  induction h with
  | nil => exact fun _ hx => absurd hx List.not_mem_nil
  | cons ha _ ih =>
    rw [Ledger.turns, List.forall_mem_cons, ha]
    exact ⟨⟨_, _, rfl⟩, ih⟩

/-- A grant that cannot pay changes nothing. -/
theorem processGrant_snd (id : GrantId) (l : Ledger) : (processGrant id l).2 = l ∨ ∃ g s events,
    l.state.grants.get? id = some g ∧ l.state.processGrant l.head.block id g = .ok (s, events) ∧
      (processGrant id l).2 = { l with state := s } := by
  unfold processGrant
  rw [run_bind, run_get]
  dsimp only
  rw [run_bind, run_lift]
  rcases hg : l.state.grant id with e | g
  · exact .inl rfl
  · dsimp only
    rw [run_bind, run_lift]
    rcases h : l.state.processGrant l.head.block id g with e | ⟨s, granted⟩
    · exact .inl rfl
    · exact .inr ⟨g, s, granted, State.grant_eq_ok.1 hg, h, rfl⟩

theorem upkeeps_processGrant (id : GrantId) (l : Ledger) : Upkeeps l (processGrant id l).2 := by
  obtain h | ⟨g, s, events, hg, hs, h⟩ := processGrant_snd id l <;> rw [h]
  exact .single (.grant hg hs)

theorem upkeeps_processGrants (l : Ledger) : Upkeeps l (processGrants l).2 :=
  collect_preserves (P := Upkeeps l) (fun id _ h => h.trans (upkeeps_processGrant id _)) _ .refl

theorem upkeeps_beforePayments (l : Ledger) : Upkeeps l l.beforePayments :=
  (((Relation.ReflTransGen.single .requests).tail .partners).tail .history).tail .returns

theorem upkeeps_deactivate (contents : List ContentId) (l : Ledger) :
    Upkeeps l (contents.foldl Ledger.deactivate l) := by
  induction contents generalizing l with
  | nil => exact .refl
  | cons content contents ih => exact .head (.deactivation content) (ih _)

theorem upkeeps_afterPayments (l : Ledger) (now : Seconds) : Upkeeps l (l.afterPayments now) :=
  (upkeeps_deactivate _ l).tail (.proposals _)

theorem run_endBlock {seconds : Seconds} : endBlock seconds l =
    match processGrants { l with head := l.head.advance seconds } with
    | (.error e, l₁) => (.error e, l₁)
    | (.ok granted, l₁) =>
      match processBlock l₁ with
      | (.error e, l₂) => (.error e, l₂)
      | (.ok due, l₂) => (.ok (granted ++ due), l₂) := by
  unfold endBlock
  rw [run_bind]
  change (processGrants >>= _) { l with head := l.head.advance seconds } = _
  rw [run_bind]
  rcases processGrants { l with head := l.head.advance seconds } with ⟨e | granted, l₁⟩
  · rfl
  · dsimp only
    rw [run_bind]
    rcases processBlock l₁ with ⟨e | due, l₂⟩ <;> rfl

/-- How a block ends: its grants are refused, or it ends as the block after them. -/
theorem endBlock_cases (seconds : Seconds) (l : Ledger) :
    ((endBlock seconds l).1.isOk = false ∧ (endBlock seconds l).2 = l.afterGrants seconds) ∨
      ((endBlock seconds l).1.isOk = (processBlock (l.afterGrants seconds)).1.isOk ∧
        (endBlock seconds l).2 = (processBlock (l.afterGrants seconds)).2) := by
  unfold Ledger.afterGrants
  rw [run_endBlock]
  rcases processGrants { l with head := l.head.advance seconds } with ⟨e | granted, l₁⟩
  · exact .inl ⟨rfl, rfl⟩
  · refine .inr ?_
    dsimp only
    rcases processBlock l₁ with ⟨e | due, l₂⟩ <;> exact ⟨rfl, rfl⟩

/-- A block that is refused has at most paid its grants. -/
theorem upkeeps_endBlock {seconds : Seconds} {e : LedgerError}
    (h : endBlock seconds l = (.error e, l')) : Upkeeps l l' := by
  have grants : Upkeeps l (processGrants { l with head := l.head.advance seconds }).2 :=
    .head (.clock _ _) (upkeeps_processGrants _)
  rw [run_endBlock] at h
  rcases hg : processGrants { l with head := l.head.advance seconds } with ⟨e | granted, l₁⟩ <;>
    rw [hg] at grants h
  · cases h
    exact grants
  · dsimp only at h
    rcases hb : processBlock l₁ with ⟨e | due, l₂⟩ <;> rw [hb] at h <;> cases h
    rw [atomically_error hb]
    exact grants

/-- A block that ends: the grants pay first, and then what is due is carried out. -/
theorem endBlock_reports {seconds : Seconds} (h : endBlock seconds l = (.ok events, l')) :
    ∃ granted due, processGrants { l with head := l.head.advance seconds } =
      (.ok granted, l.afterGrants seconds) ∧
    processBlock (l.afterGrants seconds) = (.ok due, l') ∧ events = granted ++ due := by
  unfold Ledger.afterGrants
  rw [run_endBlock] at h
  rcases hg : processGrants { l with head := l.head.advance seconds } with ⟨e | granted, l₁⟩ <;>
    rw [hg] at h
  · cases h
  · dsimp only at h ⊢
    rcases hb : processBlock l₁ with ⟨e | due, l₂⟩ <;> rw [hb] at h <;> cases h
    exact ⟨granted, due, rfl, rfl, rfl⟩

theorem endBlock_ok {seconds : Seconds} (h : endBlock seconds l = (.ok events, l')) :
    Upkeeps l (l.afterGrants seconds) ∧
      ∃ due, processBlock (l.afterGrants seconds) = (.ok due, l') := by
  obtain ⟨_, due, -, hb, -⟩ := endBlock_reports h
  exact ⟨.head (.clock _ _) (upkeeps_processGrants _), due, hb⟩

theorem run_distributeReward {budget : Asset} : distributeReward budget l =
    match checkBudget budget with
    | .error e => (.error e, l)
    | .ok _ =>
      match l.state.planReward budget.amount l.head.activeWeight with
      | .error e => (.error e, l)
      | .ok plan => (.ok (plan.toReport budget.amount),
          { l with state := l.state.applyReward l.head.time plan }) := by
  unfold distributeReward
  rw [run_bind, run_get]
  dsimp only
  rw [run_bind, run_lift]
  rcases checkBudget budget with e | _
  · rfl
  · dsimp only
    rw [run_bind, run_lift]
    rcases l.state.planReward budget.amount l.head.activeWeight with e | plan <;> rfl

theorem run_rewardHolders {research : ResearchId} {amount : Asset} : rewardHolders research amount l =
    match checkBudget amount with
    | .error e => (.error e, l)
    | .ok _ =>
      match l.state.planHolders research amount.amount {} with
      | .error e => (.error e, l)
      | .ok plan => (.ok (plan.toReport amount.amount),
          { l with state := l.state.applyReward l.head.time plan }) := by
  unfold rewardHolders
  rw [run_bind, run_get]
  dsimp only
  rw [run_bind, run_lift]
  rcases checkBudget amount with e | _
  · rfl
  · dsimp only
    rw [run_bind, run_lift]
    rcases l.state.planHolders research amount.amount {} with e | plan <;> rfl

end LedgerM

/-- What every single change keeps is kept by all that the time brings. -/
theorem Upkeeps.invariant {P : Ledger → Prop} (h : Upkeeps l l')
    (change : ∀ l₁ l₂, Change l₁ l₂ → P l₁ → P l₂) (hl : P l) : P l' := by
  induction h with
  | refl => exact hl
  | tail _ hc ih => exact change _ _ (.upkeep hc) ih

namespace Step

theorem run_return {α : Type} {x : LedgerM α} {f : α → Outcome} :
    (do return f (← x) : LedgerM Outcome) l =
      match x l with
      | (.ok a, l') => (.ok (f a), l')
      | (.error e, l') => (.error e, l') := by
  rw [LedgerM.run_bind]
  rcases x l with ⟨e | a, l₁⟩ <;> rfl

/-- How a request of operations ends: it is refused and changes nothing, or it carries them out one after
the other. -/
inductive CarriesOut (step : Step) (l : Ledger) : Prop
  | refused {e : LedgerError} (h : step.perform l = (.error e, l))
  | granted {events : List Event} {l' : Ledger} (h : step.perform l = (.ok (.events events), l'))
      (hc : LedgerM.collect Operation.apply step.operations l = (.ok events, l'))

theorem carriesOut_operation (op : Operation) (l : Ledger) : (operation op).CarriesOut l := by
  rcases h : op.run l with e | ⟨l', events⟩
  · exact .refused (by rw [perform, run_return, LedgerM.run_apply, h])
  · have ha : op.apply l = (.ok events, l') := by rw [LedgerM.run_apply, h]
    refine .granted (by rw [perform, run_return, ha])
      (LedgerM.bind_eq_ok.2 ⟨events, l', ha, LedgerM.bind_eq_ok.2 ⟨[], l', rfl, ?_⟩⟩)
    rw [List.append_nil]
    rfl

theorem carriesOut_transaction (ops : List Operation) (l : Ledger) : (transaction ops).CarriesOut l := by
  rcases h : LedgerM.applyTransaction ops l with ⟨e | events, l'⟩
  · obtain rfl := LedgerM.atomically_error h
    exact .refused (by rw [perform, run_return, h])
  · exact .granted (by rw [perform, run_return, h]) (LedgerM.atomically_ok h)

theorem carriesOut (step : Step) (l : Ledger) (hop : step.operations ≠ []) : step.CarriesOut l := by
  cases step with
  | operation op => exact carriesOut_operation op l
  | transaction ops => exact carriesOut_transaction ops l
  | _ => exact absurd rfl hop

/-- How a request for a reward ends: it is refused and changes nothing, or the reward is planned and
paid. -/
inductive Distributes (step : Step) (l : Ledger) : Prop
  | refused {e : LedgerError} (h : step.perform l = (.error e, l))
  | granted {amount : Amount} {plan : RewardPlan} (h : step.perform l =
      (.ok (.report (plan.toReport amount)), { l with state := l.state.applyReward l.head.time plan }))
      (hp : step.Storable → l.Plans amount plan) (hb : amount ≤ step.budget)

theorem distributes_reward (budget : Asset) (l : Ledger) : (distributeReward budget).Distributes l := by
  rcases hb : checkBudget budget with e | _
  · exact .refused (by rw [perform, run_return, LedgerM.run_distributeReward, hb])
  · rcases h : l.state.planReward budget.amount l.head.activeWeight with e | plan
    · exact .refused (by rw [perform, run_return, LedgerM.run_distributeReward, hb, h])
    · exact .granted (by rw [perform, run_return, LedgerM.run_distributeReward, hb, h])
        (fun hs => .pass hb hs h) (le_max_left _ _)

theorem distributes_holders (research : ResearchId) (amount : Asset) (l : Ledger) :
    (rewardHolders research amount).Distributes l := by
  rcases hb : checkBudget amount with e | _
  · exact .refused (by rw [perform, run_return, LedgerM.run_rewardHolders, hb])
  · rcases h : l.state.planHolders research amount.amount {} with e | plan
    · exact .refused (by rw [perform, run_return, LedgerM.run_rewardHolders, hb, h])
    · exact .granted (by rw [perform, run_return, LedgerM.run_rewardHolders, hb, h])
        (fun hs => .holders hb hs h) (le_max_left _ _)

theorem Proceeds.refused {step : Step} {e : LedgerError} (h : step.perform l = (.error e, l'))
    (hu : Upkeeps l l') : step.Proceeds l := by
  have hg : step.granted l = false := by rw [granted, h]; rfl
  have hp : step.payments l = [] := by cases step <;> simp [payments, hg]
  refine .upkeep (by rw [next, h]; exact hu) ?_ hp ?_ (by rw [distributed, h]) (by rw [reported, h])
  · simp [stages, hg, hp]
  · simp [fees, hg]

theorem Proceeds.quiet {step : Step} (h : step.perform l = (.ok (.events events), l'))
    (hu : Upkeeps l l') (ho : step.operations = []) (hp : step.payments l = []) :
    step.Proceeds l := by
  refine .upkeep (by rw [next, h]; exact hu) ?_ hp ?_ (by rw [distributed, h]) (by rw [reported, h])
  · simp [stages, ho, hp, Ledger.turns]
  · simp [fees, ho]

theorem CarriesOut.proceeds {step : Step} (h : step.CarriesOut l) (hp : step.payments l = []) :
    step.Proceeds l := by
  cases h with
  | refused h => exact .refused h .refl
  | granted h hc =>
    have hg : step.granted l = true := by rw [Step.granted, h]; rfl
    refine .operations (by rw [next, h]; exact LedgerM.collects_of_ok hc) ?_ hp ?_
      (by rw [distributed, h]) (by rw [reported, h])
    · simp [stages, hg, hp]
    · simp [fees, hg]

theorem Proceeds.paid {step : Step} {l₁ : Ledger}
    (h : step.perform l = (.ok (.events events), l')) (before : Upkeeps l l₁)
    {due : List Event} (hb : LedgerM.processBlock l₁ = (.ok due, l')) (ho : step.operations = [])
    (hp : step.payments l = l₁.blockPayments) : step.Proceeds l := by
  obtain ⟨_, l₂, hpaid, hl, -⟩ := LedgerM.maintain_ok (LedgerM.atomically_ok hb)
  have hc := LedgerM.collects_of_ok hpaid
  have hn : step.next l = l' := by rw [next, h]
  refine .block (before.trans (LedgerM.upkeeps_beforePayments l₁)) hc ?_ ?_ hp ?_
    (by rw [distributed, h]) (by rw [reported, h]) rfl
  · rw [hn, hl]
    exact LedgerM.upkeeps_afterPayments l₂ _
  · simp [stages, ho, Ledger.turns]
  · simp [fees, ho]

theorem Distributes.proceeds {step : Step} (h : step.Distributes l) (hs : step.Storable)
    (ho : step.operations = []) (hn : step.payments l = []) : step.Proceeds l := by
  cases h with
  | refused h => exact .refused h .refl
  | granted h hp hb =>
    refine .reward (hp hs) (by rw [next, h]) ?_ hn ?_ ?_ hb (by rw [reported, h]; rfl)
    · simp [stages, ho, hn, Ledger.turns]
    · simp [fees, ho]
    · rw [distributed, h]
      rfl

theorem proceeds (step : Step) (l : Ledger) (hs : step.Storable) : step.Proceeds l := by
  cases step with
  | operation op => exact (carriesOut_operation op l).proceeds rfl
  | transaction ops => exact (carriesOut_transaction ops l).proceeds rfl
  | endBlock seconds =>
    rcases h : LedgerM.endBlock seconds l with ⟨e | events, l'⟩
    · exact .refused (by rw [perform, run_return, h]) (LedgerM.upkeeps_endBlock h)
    · obtain ⟨before, due, hb⟩ := LedgerM.endBlock_ok h
      have hp : (endBlock seconds).perform l = (.ok (.events events), l') := by
        rw [perform, run_return, h]
      exact .paid hp before hb rfl (by simp [payments, granted, hp, Except.isOk, Except.toBool])
  | processGrants =>
    have hu := LedgerM.upkeeps_processGrants l
    rcases h : LedgerM.processGrants l with ⟨e | events, l'⟩ <;> rw [h] at hu
    · exact .refused (by rw [perform, run_return, h]) hu
    · exact .quiet (by rw [perform, run_return, h]) hu rfl rfl
  | processBlock =>
    rcases h : LedgerM.processBlock l with ⟨e | events, l'⟩
    · obtain rfl := LedgerM.atomically_error h
      exact .refused (by rw [perform, run_return, h]) .refl
    · have hp : processBlock.perform l = (.ok (.events events), l') := by
        rw [perform, run_return, h]
      exact .paid hp .refl h rfl (by simp [payments, granted, hp, Except.isOk, Except.toBool])
  | distributeReward budget => exact (distributes_reward budget l).proceeds hs rfl rfl
  | rewardHolders research amount => exact (distributes_holders research amount l).proceeds hs rfl rfl
  | setClock time block => exact .quiet rfl (.single (.clock time block)) rfl rfl

/-- What every single change keeps is kept by every request, granted or refused, and holds at all
stages of it. -/
theorem invariant {P : Ledger → Prop} (step : Step) (hs : step.Storable)
    (change : ∀ l₁ l₂, Change l₁ l₂ → P l₁ → P l₂) (hl : P l) :
    P (step.next l) ∧ ∀ l' ∈ step.stages l, P l' := by
  have upkeeps {l₁ l₂ : Ledger} (h : Upkeeps l₁ l₂) : P l₁ → P l₂ := h.invariant change
  cases step.proceeds l hs with
  | upkeep h hs => exact ⟨upkeeps h hl, by simp [hs]⟩
  | operations h hs =>
    obtain ⟨hend, hturns⟩ := h.invariant (P := P)
      (fun op _ l₁ l₂ h => change l₁ l₂ (.operation (Operation.effect_of_run (LedgerM.apply_ok h)))) hl
    refine ⟨hend, ?_⟩
    rw [hs]
    exact fun l' hl' => by obtain ⟨x, hx, rfl⟩ := List.mem_map.1 hl'; exact hturns x hx
  | reward h hn hs =>
    rw [hn, hs]
    exact ⟨change _ _ (.reward h) hl, by simp⟩
  | block before paid after hs hp =>
    obtain ⟨hend, hturns⟩ := paid.invariant (P := P)
      (fun name _ l₁ l₂ h => change l₁ l₂ (.payment h)) (upkeeps before hl)
    refine ⟨upkeeps after hend, ?_⟩
    rw [hs, hp]
    exact fun l' hl' => by obtain ⟨x, hx, rfl⟩ := List.mem_map.1 hl'; exact hturns x hx

/-- Each payment of a request is granted, at one of its stages. -/
theorem payments_granted (step : Step) (hs : step.Storable) : ∀ p ∈ step.payments l,
    p.1 ∈ step.stages l ∧ ∃ events l', LedgerM.payPowerDown p.2 p.1 = (.ok events, l') := by
  cases step.proceeds l hs with
  | upkeep _ _ hp | operations _ _ hp | reward _ _ _ hp =>
    rw [hp]
    exact fun _ hx => absurd hx List.not_mem_nil
  | block _ paid _ hstages hp =>
    intro p hmem
    rw [hstages]
    exact ⟨List.mem_map_of_mem hmem, paid.granted p (hp ▸ hmem)⟩

end Step

namespace Ledger

/-- What every single change keeps holds all along a run. -/
theorem visited_invariant {P : Ledger → Prop} {steps : List Step}
    (hs : ∀ step ∈ steps, step.Storable) (change : ∀ l₁ l₂, Change l₁ l₂ → P l₁ → P l₂) (hl : P l) :
    P (l.after steps) ∧ ∀ l' ∈ l.visited steps, P l' := by
  induction steps generalizing l with
  | nil => exact ⟨hl, fun l' hl' => by rw [List.mem_singleton.1 hl']; exact hl⟩
  | cons step steps ih =>
    obtain ⟨hnext, hstages⟩ := step.invariant (hs step List.mem_cons_self) change hl
    obtain ⟨hend, hrest⟩ := ih (fun x hx => hs x (List.mem_cons_of_mem _ hx)) hnext
    refine ⟨hend, fun l' hl' => ?_⟩
    rcases List.mem_cons.1 hl' with rfl | hl'
    · exact hl
    · rcases List.mem_append.1 hl' with hl' | hl'
      · exact hstages l' hl'
      · exact hrest l' hl'

theorem mem_visited_self (l : Ledger) (steps : List Step) : l ∈ l.visited steps := by
  cases steps <;> exact List.mem_cons_self

theorem after_mem_visited (l : Ledger) (steps : List Step) : l.after steps ∈ l.visited steps := by
  induction steps generalizing l with
  | nil => exact List.mem_cons_self
  | cons step steps ih => exact List.mem_cons_of_mem _ (List.mem_append_right _ (ih (step.next l)))

/-- Each payment of a run is granted, at a ledger on the way. -/
theorem payments_granted {steps : List Step} (hs : ∀ step ∈ steps, step.Storable) :
    ∀ p ∈ l.payments steps,
      p.1 ∈ l.visited steps ∧ ∃ events l', LedgerM.payPowerDown p.2 p.1 = (.ok events, l') := by
  induction steps generalizing l with
  | nil => exact fun _ hp => absurd hp List.not_mem_nil
  | cons step steps ih =>
    rw [List.forall_mem_cons] at hs
    intro p hp
    rcases List.mem_append.1 hp with hp | hp
    · obtain ⟨hstage, hgranted⟩ := step.payments_granted hs.1 p hp
      exact ⟨List.mem_cons_of_mem _ (List.mem_append_left _ hstage), hgranted⟩
    · obtain ⟨hvisited, hgranted⟩ := ih hs.2 p hp
      exact ⟨List.mem_cons_of_mem _ (List.mem_append_right _ hvisited), hgranted⟩

/-- What every single change preserves holds in every reachable ledger. -/
theorem Reachable.invariant {config : Config} {genesis : Genesis} {P : Ledger → Prop}
    (h : Reachable config genesis l)
    (start : ∀ l₀, ofGenesis config genesis = .ok l₀ → P l₀)
    (change : ∀ l₁ l₂, Change l₁ l₂ → P l₁ → P l₂) : P l := by
  obtain ⟨l₀, steps, h₀, hs, rfl⟩ := h
  exact (visited_invariant hs change (start l₀ h₀)).1

end Ledger

end ResearchLedger
