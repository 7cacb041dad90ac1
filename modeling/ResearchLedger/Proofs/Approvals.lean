import ResearchLedger.Proofs.Escrow
import ResearchLedger.Proofs.History

/-! Approvals that are reported: all of them come from operations, in the order of the run. Blocks and
rewards report none. -/
namespace ResearchLedger

variable {l l' : Ledger} {id : ProposalId} {events : List Event} {step : Step} {steps : List Step}

namespace Event

/-- Whether an event tells that a proposal is approved. -/
def approves (id : ProposalId) : Event → Bool
  | proposalApproved proposal _ => proposal = id
  | _ => false

theorem not_approves_of_concerns {grant : GrantId} {e : Event} (h : e.concerns grant = true) :
    e.approves id = false := by
  cases e with
  | proposalApproved => cases h
  | _ => rfl

/-- The approvals of a proposal among events. -/
def approvals (id : ProposalId) (events : List Event) : List Event := events.filter (·.approves id)

theorem approvals_append (more : List Event) :
    approvals id (events ++ more) = approvals id events ++ approvals id more := List.filter_append ..

theorem approvals_singleton {proposal : ProposalId} {group : GroupId} :
    approvals id [proposalApproved proposal group] =
      if proposal = id then [proposalApproved proposal group] else [] := by
  unfold approvals
  split
  · exact List.filter_cons_of_pos (decide_eq_true ‹_›)
  · exact List.filter_cons_of_neg fun h => ‹¬ _› (of_decide_eq_true h)

theorem approvals_eq_nil (h : ∀ e ∈ events, e.approves id = false) : approvals id events = [] :=
  List.filter_eq_nil_iff.2 fun e he => by rw [h e he]; exact Bool.false_ne_true

end Event

open Event

namespace LedgerM

theorem payRoute_approvals {source : AccountName} {amount deposit : Amount} {r : WithdrawRoute}
    (h : payRoute source amount r l = (.ok (deposit, events), l')) : approvals id events = [] := by
  obtain ⟨part, _, -, h⟩ := bind_eq_ok.1 h
  split at h
  · cases h
    rfl
  · obtain ⟨_, _, -, h⟩ := bind_eq_ok.1 h
    split at h
    · obtain ⟨_, _, -, h⟩ := bind_eq_ok.1 h
      obtain ⟨_, _, -, h⟩ := bind_eq_ok.1 h
      cases h
      rfl
    · obtain ⟨_, _, -, h⟩ := bind_eq_ok.1 h
      cases h
      rfl

theorem payRoutes_approvals {source : AccountName} {amount deposit : Amount} {rs : List WithdrawRoute}
    (h : payRoutes source amount rs l = (.ok (deposit, events), l')) : approvals id events = [] := by
  induction rs generalizing l deposit events with
  | nil =>
    cases h
    rfl
  | cons r rs ih =>
    obtain ⟨⟨_, _⟩, _, hr, h⟩ := bind_eq_ok.1 h
    obtain ⟨⟨_, _⟩, _, hrs, h⟩ := bind_eq_ok.1 h
    cases h
    rw [approvals_append, payRoute_approvals hr, ih hrs]
    rfl

theorem payPowerDown_approvals {name : AccountName} (h : payPowerDown name l = (.ok events, l')) :
    approvals id events = [] := by
  obtain ⟨_, _, -, h⟩ := bind_eq_ok.1 h
  obtain ⟨a, _, -, h⟩ := bind_eq_ok.1 h
  obtain ⟨⟨_, _⟩, _, hr, h⟩ := bind_eq_ok.1 h
  obtain ⟨_, _, -, h⟩ := bind_eq_ok.1 h
  obtain ⟨_, _, -, h⟩ := bind_eq_ok.1 h
  obtain ⟨_, _, -, h⟩ := bind_eq_ok.1 h
  cases h
  rw [approvals_append, payRoutes_approvals hr]
  rfl

/-- Steps that report no approval report none together. -/
theorem collect_approvals {α : Type} {f : α → LedgerM (List Event)} {as : List α}
    (hf : ∀ a l events l', f a l = (.ok events, l') → approvals id events = [])
    (h : collect f as l = (.ok events, l')) : approvals id events = [] :=
  (collect_relates (P := fun _ => True) (R := fun _ events _ => approvals id events = [])
    (fun _ => rfl) (fun _ _ _ _ _ h h' => by rw [approvals_append, h, h']; rfl)
    (fun a _ l events l' h _ => ⟨trivial, hf a l events l' h⟩) h trivial).2

theorem maintain_approvals (h : maintain l = (.ok events, l')) : approvals id events = [] := by
  obtain ⟨paid, l₁, hpaid, -, rfl⟩ := maintain_ok h
  have hnone : approvals id paid = [] := collect_approvals (fun _ _ _ _ => payPowerDown_approvals) hpaid
  rw [approvals_append, approvals_append, approvals_append, hnone]
  simp only [List.append_nil, List.append_eq_nil_iff]
  refine ⟨⟨?_, ?_⟩, ?_⟩ <;> refine approvals_eq_nil fun e he => ?_ <;>
    obtain ⟨_, -, rfl⟩ := List.mem_map.1 he <;> rfl

theorem processGrants_approvals (h : processGrants l = (.ok events, l')) : approvals id events = [] := by
  obtain ⟨_, _, -, h⟩ := bind_eq_ok.1 h
  refine collect_approvals (fun grant l events l' h => ?_) h
  obtain ⟨g, s, -, hp, -⟩ := processGrant_eq_ok.1 h
  exact approvals_eq_nil fun e he => not_approves_of_concerns (State.processGrant_concerns hp e he)

theorem endBlock_approvals {seconds : Seconds} (h : endBlock seconds l = (.ok events, l')) :
    approvals id events = [] := by
  obtain ⟨granted, due, hgrants, hblock, rfl⟩ := endBlock_reports h
  rw [approvals_append, processGrants_approvals hgrants, maintain_approvals (atomically_ok hblock)]
  rfl

end LedgerM

/-- Rewards report no approval. -/
theorem RewardPlan.approvals_kept {A : AccountName → Prop} {Q : DisciplineId → Prop} :
    Kept A Q fun p => approvals id p.events = [] where
  payAccount he h hp := by
    obtain rfl := payAccount_ok h
    rw [report, approvals_append, hp]
    cases he <;> rfl
  payGroup h hp := by
    obtain rfl := payGroup_ok h
    rw [report, approvals_append, hp]
    rfl
  divide hp := by
    rw [report, approvals_append, hp]
    rfl
  giveExpertise _ _ h hp := by
    rw [giveExpertise_ok h, approvals_append, hp]
    rfl

theorem Ledger.Plans.approvals {amount : Amount} {p : RewardPlan} (h : l.Plans amount p) :
    Event.approvals id p.events = [] :=
  h.keeps (A := fun _ => True) (Q := fun _ => True) RewardPlan.approvals_kept
    ⟨fun _ _ _ _ _ => trivial, fun _ _ _ => trivial⟩ (fun _ _ _ => trivial) rfl

/-- What the operations of a history report, each at its turn. -/
def reportsOf (history : List (Ledger × Operation)) : List Event :=
  history.flatMap fun x => (Step.operation x.2).told x.1

theorem reportsOf_append (history more : List (Ledger × Operation)) :
    reportsOf (history ++ more) = reportsOf history ++ reportsOf more := List.flatMap_append ..

theorem told_operation {op : Operation} (h : op.apply l = (.ok events, l')) :
    (Step.operation op).told l = events := by
  unfold Step.told
  rw [Step.perform, Step.run_return, h]

theorem LedgerM.collect_reports {ops : List Operation}
    (h : collect Operation.apply ops l = (.ok events, l')) :
    events = reportsOf (l.turns Operation.apply ops) := by
  induction ops generalizing l events with
  | nil =>
    cases h
    rfl
  | cons op ops ih =>
    obtain ⟨first, l₁, ho, h⟩ := bind_eq_ok.1 h
    obtain ⟨rest, _, hrest, h⟩ := bind_eq_ok.1 h
    cases h
    rw [Ledger.turns, ho, ih hrest]
    exact congrArg (· ++ _) (told_operation ho).symm

namespace Step

theorem told_of_not_granted (h : step.granted l = false) : step.told l = [] := by
  unfold granted at h
  unfold told
  split
  · rename_i hp
    rw [hp] at h
    cases h
  · rename_i hp
    rw [hp] at h
    cases h
  · rfl

theorem Distributes.approvals_told (h : step.Distributes l) (hs : step.Storable) :
    approvals id (step.told l) = [] := by
  cases h with
  | refused h =>
    rw [told, h]
    rfl
  | granted h hp =>
    rw [told, h]
    exact (hp hs).approvals

/-- A request that asks for no operations reports no approval. -/
theorem approvals_of_no_operations (hs : step.Storable) (hop : step.operations = []) :
    approvals id (step.told l) = [] := by
  cases step with
  | operation op => cases hop
  | transaction ops =>
    cases hop
    rfl
  | endBlock seconds =>
    rw [told, perform, run_return]
    rcases h : LedgerM.endBlock seconds l with ⟨e | events, l'⟩
    · rfl
    · exact LedgerM.endBlock_approvals h
  | processGrants =>
    rw [told, perform, run_return]
    rcases h : LedgerM.processGrants l with ⟨e | events, l'⟩
    · rfl
    · exact LedgerM.processGrants_approvals h
  | processBlock =>
    rw [told, perform, run_return]
    rcases h : LedgerM.processBlock l with ⟨e | events, l'⟩
    · rfl
    · exact LedgerM.maintain_approvals (LedgerM.atomically_ok h)
  | distributeReward budget => exact (distributes_reward budget l).approvals_told hs
  | rewardHolders research amount => exact (distributes_holders research amount l).approvals_told hs
  | setClock => rfl

/-- The approvals that a request reports are those of the operations that it carries out. -/
theorem approvals_told (hs : step.Storable) :
    approvals id (step.told l) = approvals id (reportsOf (step.carriedOut l)) := by
  unfold carriedOut
  by_cases hop : step.operations = []
  · rw [approvals_of_no_operations hs hop, hop]
    split <;> rfl
  · split
    · rw [LedgerM.collect_reports (collect_operations ‹_› hop)]
    · rw [told_of_not_granted (Bool.eq_false_of_not_eq_true ‹_›)]
      rfl

end Step

/-- The approvals that a run reports are those of the operations that it carries out. -/
theorem Ledger.approvals_told (hs : ∀ step ∈ steps, step.Storable) :
    approvals id (l.told steps) = approvals id (reportsOf (l.carriedOut steps)) := by
  induction steps generalizing l with
  | nil => rfl
  | cons step steps ih =>
    rw [List.forall_mem_cons] at hs
    rw [told, carriedOut, reportsOf_append, approvals_append, approvals_append, step.approvals_told hs.1,
      ih hs.2]

end ResearchLedger
