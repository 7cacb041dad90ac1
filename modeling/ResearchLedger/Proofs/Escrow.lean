import ResearchLedger.Proofs.BlockReports
import ResearchLedger.Proofs.Permanence
import ResearchLedger.Proofs.StoredRewards

/-! The whole life of a grant: what it holds is what it was created with less what it has paid, and when
it ends, once, what it has paid and what returns to its owner are the whole of it. -/
namespace ResearchLedger

open SortedMap

variable {l l' l₁ : Ledger} {config : Config} {genesis : Genesis} {id : GrantId} {g : Grant}
  {events : List Event} {step : Step} {steps : List Step}

/-- The grant that an operation creates in a ledger. -/
def CreateGrant.grant (op : CreateGrant) (s : State) : Grant where
  id := s.nextIds.grant
  owner := op.owner
  discipline := op.discipline
  amount := op.amount.amount
  perBlock := op.perBlock
  startBlock := op.startBlock
  endBlock := op.endBlock

theorem CreateGrant.plan_eq {op : CreateGrant} {block : Nat} {s : State}
    (h : op.plan block s = .ok g) : g = op.grant s := by
  unfold plan at h
  obtain ⟨_, -, h⟩ := bind_eq_ok.1 h
  obtain ⟨-, h⟩ := guard_bind_eq_ok.1 h
  obtain ⟨_, -, h⟩ := bind_eq_ok.1 h
  obtain ⟨-, h⟩ := guard_bind_eq_ok.1 h
  obtain ⟨_, -, h⟩ := bind_eq_ok.1 h
  cases h
  rfl

/-- No operation tells of a grant. -/
theorem Operation.run_silent {op : Operation} (h : op.run l = .ok (l', events)) :
    events.filter (·.concerns id) = [] := by
  cases op <;> obtain ⟨plan, -, h⟩ := bind_eq_ok.1 h <;> cases h <;> try rfl
  unfold VoteForProposal.Plan.events
  split
  · split <;> rfl
  · rfl

/-- An operation leaves the grants alone that exist; the counter only grows. -/
theorem Operation.Effect.grants {op : Operation} (h : op.Effect l l')
    (hid : id < l.state.nextIds.grant) :
    l'.state.grants.get? id = l.state.grants.get? id ∧ id < l'.state.nextIds.grant := by
  cases op with
  | createGrant op =>
    cases h with | createGrant hp =>
    have hnew := CreateGrant.plan_eq hp
    subst hnew
    exact ⟨get?_insert_of_ne hid.ne', hid.trans (Nat.lt_succ_self _)⟩
  | _ => cases h.footprint; exact ⟨rfl, hid⟩

namespace LedgerM

theorem apply_leaves {op : Operation} (h : op.apply l = (.ok events, l'))
    (hid : id < l.state.nextIds.grant) :
    id < l'.state.nextIds.grant ∧ l.LeavesGrant id events l' := by
  have hrun := apply_ok h
  obtain ⟨hstored, hnext⟩ := (Operation.effect_of_run hrun).grants hid
  exact ⟨hnext, hstored, Operation.run_silent hrun⟩

theorem collect_apply_leaves {ops : List Operation}
    (h : collect Operation.apply ops l = (.ok events, l')) (hid : id < l.state.nextIds.grant) :
    id < l'.state.nextIds.grant ∧ l.LeavesGrant id events l' :=
  collect_relates (P := fun l => id < l.state.nextIds.grant)
    (R := fun l events l' => l.LeavesGrant id events l') .refl (fun _ _ _ _ _ => .trans)
    (fun _ _ _ _ _ h => apply_leaves h) h hid

theorem payPowerDown_leaves {name : AccountName} (h : payPowerDown name l = (.ok events, l'))
    (hl : l.Sound) : l.LeavesGrant id events l' := by
  obtain ⟨a, _, rest, -, hpaid, -⟩ := payPowerDown_splits h hl
  obtain ⟨he, -⟩ := Prod.mk.inj (h.symm.trans hpaid)
  obtain rfl := Except.ok.inj he
  obtain ⟨_, _, _, rfl⟩ := payPowerDown_footprint h
  refine ⟨rfl, List.filter_eq_nil_iff.2 fun e he => ?_⟩
  rcases List.mem_append.1 he with he | he
  · obtain ⟨r, -, he⟩ := List.mem_flatMap.1 he
    unfold WithdrawRoute.fills at he
    split at he
    · cases he
    · rw [List.mem_singleton.1 he]
      exact Bool.false_ne_true
  · rw [List.mem_singleton.1 he]
    exact Bool.false_ne_true

/-- What is due at the end of a block leaves the grants alone. -/
theorem maintain_leaves (hl : l.Ready) (h : maintain l = (.ok events, l')) :
    l.LeavesGrant id events l' := by
  obtain ⟨paid, l₁, hpaid, rfl, rfl⟩ := maintain_ok h
  have hreturns : l.LeavesGrant id (l.beforeReturns.returnDelegations l.head.time).2
      l.beforePayments := by
    refine ⟨?_, List.filter_eq_nil_iff.2 fun e he => ?_⟩
    · obtain ⟨_, _, hpartners⟩ :=
        State.changePartners_footprint (l.state.dropRecoveryRequests l.head.time) l.head.time
      obtain ⟨_, _, hback⟩ := State.returnDelegations_footprint l.beforeReturns l.head.time
      change (l.beforeReturns.returnDelegations l.head.time).1.grants.get? id = _
      rw [hback, Ledger.beforeReturns, hpartners]
      rfl
    · obtain ⟨_, -, rfl⟩ := List.mem_map.1 he
      exact Bool.false_ne_true
  have hrest : l₁.LeavesGrant id (l₁.expireContents.2 ++
      (l₁.expireContents.1.state.expireProposals l.head.time).2) (l₁.afterPayments l.head.time) := by
    refine ⟨?_, List.filter_eq_nil_iff.2 fun e he => ?_⟩
    · obtain ⟨_, _, _, _, hfoot⟩ :=
        Ledger.foldl_deactivate_footprint (l₁.state.overdueContents l₁.head.time) l₁
      have hfoot : l₁.expireContents.1 = _ := hfoot
      unfold Ledger.afterPayments
      rw [hfoot]
      rfl
    · rcases List.mem_append.1 he with he | he <;> obtain ⟨_, -, rfl⟩ := List.mem_map.1 he <;>
        exact Bool.false_ne_true
  have hpayments : l.beforePayments.LeavesGrant id paid l₁ :=
    (collect_relates (P := Ledger.Sound) (R := fun l events l' => l.LeavesGrant id events l') .refl
      (fun _ _ _ _ _ => .trans) (fun _ _ _ _ _ h hl =>
        ⟨(Change.payment h).sound hl, payPowerDown_leaves h hl⟩)
      hpaid ((upkeeps_beforePayments l).ready hl).sound).2
  rw [List.append_assoc]
  exact (hreturns.trans hpayments).trans hrest

end LedgerM

namespace RewardPlan

/-- Rewards tell of no grant. -/
theorem silent_kept {A : AccountName → Prop} {Q : DisciplineId → Prop} :
    Kept A Q fun p => p.events.filter (·.concerns id) = [] where
  payAccount he h hp := by
    obtain rfl := payAccount_ok h
    rw [report, List.filter_append, hp]
    cases he <;> rfl
  payGroup h hp := by
    obtain rfl := payGroup_ok h
    rw [report, List.filter_append, hp]
    rfl
  divide hp := by
    rw [report, List.filter_append, hp]
    rfl
  giveExpertise _ _ h hp := by
    rw [giveExpertise_ok h, List.filter_append, hp]
    rfl

end RewardPlan

theorem Ledger.Plans.silent {amount : Amount} {p : RewardPlan} (h : l.Plans amount p) :
    p.events.filter (·.concerns id) = [] :=
  h.keeps (A := fun _ => True) (Q := fun _ => True) RewardPlan.silent_kept
    ⟨fun _ _ _ _ _ => trivial, fun _ _ _ => trivial⟩ (fun _ _ _ => trivial) rfl

/-- A grant that has been created: its number is not given again. -/
structure Ledger.Numbers (l : Ledger) (id : GrantId) : Prop extends l.Granting where
  lt : id < l.state.nextIds.grant

theorem Change.numbers (h : Change l l') (hl : l.Numbers id) : l'.Numbers id :=
  ⟨h.granting hl.toGranting, hl.lt.trans_le (h.retains hl.sound.linked).nextIds.grant⟩

namespace Step

/-- What a request tells; a refused one tells nothing. -/
def told (step : Step) (l : Ledger) : List Event :=
  match (step.perform l).1 with
  | .ok (.events events) => events
  | .ok (.report r) => r.events
  | .error _ => []

/-- The ledger at which a request lets all grants have their turns, if it does. -/
def grantPass (step : Step) (l : Ledger) : Option Ledger :=
  match step with
  | processGrants => some l
  | endBlock seconds => some { l with head := l.head.advance seconds }
  | _ => none

/-- A request gives a grant its turn, or leaves it alone. -/
inductive Serves (step : Step) (l : Ledger) (id : GrantId) : Prop
  | pass {g : Grant} {l₁ : Ledger} (hpass : step.grantPass l = some l₁)
      (hg : l.state.grants.get? id = some g) (h : g.Pass id l₁ (step.told l) (step.next l))
  | leaves (hpass : step.grantPass l = none ∨ l.state.grants.get? id = none)
      (h : l.LeavesGrant id (step.told l) (step.next l))

theorem Serves.refused {e : LedgerError} (h : step.perform l = (.error e, l))
    (hpass : step.grantPass l = none) : step.Serves l id := by
  refine .leaves (.inl hpass) ?_
  rw [told, next, h]
  exact .refl l

theorem Serves.left {outcome : Outcome} (h : step.perform l = (.ok outcome, l'))
    (hpass : step.grantPass l = none) (hleft : l.LeavesGrant id (step.told l) l') :
    step.Serves l id := by
  refine .leaves (.inl hpass) ?_
  rw [next, h]
  exact hleft

theorem CarriesOut.serves (h : step.CarriesOut l) (hl : l.Numbers id) (hpass : step.grantPass l = none) :
    step.Serves l id := by
  cases h with
  | refused h => exact .refused h hpass
  | granted h hc => exact .left h hpass (by rw [told, h]; exact (LedgerM.collect_apply_leaves hc hl.lt).2)

theorem Distributes.serves (h : step.Distributes l) (hs : step.Storable)
    (hpass : step.grantPass l = none) : step.Serves l id := by
  cases h with
  | refused h => exact .refused h hpass
  | @granted _ plan h hp =>
    refine .left h hpass ⟨?_, ?_⟩
    · obtain ⟨_, _, _, hfoot⟩ := State.applyReward_footprint l.state l.head.time plan
      rw [hfoot]
    · rw [told, h]
      exact (hp hs).silent

theorem Serves.passed {granted due : List Event} {l₂ : Ledger} (hpass : step.grantPass l = some l₁)
    (hstate : l₁.state = l.state) (hl : l₁.Granting)
    (h : step.perform l = (.ok (.events (granted ++ due)), l'))
    (hgrants : LedgerM.processGrants l₁ = (.ok granted, l₂)) (hdue : l₂.LeavesGrant id due l') :
    step.Serves l id := by
  cases hg : l.state.grants.get? id with
  | none =>
    have hleft := (LedgerM.processGrants_leaves hl (hstate ▸ hg) hgrants).trans hdue
    refine .leaves (.inr hg) ?_
    rw [told, next, h]
    exact ⟨hstate ▸ hleft.stored, hleft.silent⟩
  | some g =>
    refine .pass hpass hg ?_
    rw [told, next, h]
    exact (LedgerM.processGrants_pass hl (hstate ▸ hg) hgrants).trans_leaves hdue

/-- Every request gives a grant its turn or leaves it alone. -/
theorem serves (step : Step) (hs : step.Storable) (hl : l.Numbers id) : step.Serves l id := by
  cases step with
  | operation op => exact (carriesOut_operation op l).serves hl rfl
  | transaction ops => exact (carriesOut_transaction ops l).serves hl rfl
  | endBlock seconds =>
    obtain ⟨events, l', h, -⟩ := LedgerM.endBlock_total hl.toReady seconds
    have hp : (endBlock seconds).perform l = (.ok (.events events), l') := by
      rw [perform, run_return, h]
    have hclock : Upkeep l { l with head := l.head.advance seconds } := .clock _ _
    have hready := ((LedgerM.endBlock_ok h).1.granting hl.toGranting).toReady
    obtain ⟨granted, due, hgrants, hblock, rfl⟩ := LedgerM.endBlock_reports h
    exact .passed rfl rfl ((Change.upkeep hclock).granting hl.toGranting) hp hgrants
      (LedgerM.maintain_leaves hready (LedgerM.atomically_ok hblock))
  | processGrants =>
    obtain ⟨events, l', h, -⟩ := LedgerM.processGrants_total hl.toReady
    have hp : processGrants.perform l = (.ok (.events (events ++ [])), l') := by
      rw [perform, run_return, h, List.append_nil]
    exact .passed rfl rfl hl.toGranting hp h (.refl l')
  | processBlock =>
    rcases h : LedgerM.processBlock l with ⟨e | events, l'⟩
    · obtain rfl := LedgerM.atomically_error h
      exact .refused (by rw [perform, run_return, h]) rfl
    · have hp : processBlock.perform l = (.ok (.events events), l') := by
        rw [perform, run_return, h]
      refine .left hp rfl ?_
      rw [told, hp]
      exact LedgerM.maintain_leaves hl.toReady (LedgerM.atomically_ok h)
  | distributeReward budget => exact (distributes_reward budget l).serves hs rfl
  | rewardHolders research amount => exact (distributes_holders research amount l).serves hs rfl
  | setClock => exact .left rfl rfl ⟨rfl, rfl⟩

end Step

namespace Event

/-- What an event tells to have been paid from a grant. -/
def paidFrom (id : GrantId) : Event → Amount
  | grantPaid grant _ amount => if grant = id then amount else 0
  | _ => 0

/-- Whether an event tells that a grant has ended. -/
def finishes (id : GrantId) : Event → Bool
  | grantFinished grant .. => grant = id
  | _ => false

theorem paidFrom_of_not_concerns {e : Event} (h : ¬ e.concerns id = true) : e.paidFrom id = 0 := by
  cases e with
  | grantPaid => exact if_neg fun he => h (decide_eq_true he)
  | _ => rfl

theorem concerns_of_finishes {e : Event} (h : e.finishes id = true) : e.concerns id = true := by
  cases e with
  | grantFinished => exact h
  | _ => cases h

/-- Only events that concern the grant count. -/
theorem sum_paidFrom_filter (id : GrantId) (events : List Event) :
    ((events.filter (·.concerns id)).map (·.paidFrom id)).sum = (events.map (·.paidFrom id)).sum := by
  induction events with
  | nil => rfl
  | cons e events ih =>
    by_cases he : e.concerns id = true
    · rw [List.filter_cons_of_pos he, List.map_cons, List.map_cons, List.sum_cons, List.sum_cons, ih]
    · rw [List.filter_cons_of_neg he, ih, List.map_cons, List.sum_cons, paidFrom_of_not_concerns he,
        zero_add]

theorem filter_finishes_filter (id : GrantId) (events : List Event) :
    (events.filter (·.concerns id)).filter (·.finishes id) = events.filter (·.finishes id) := by
  rw [List.filter_filter]
  refine List.filter_congr fun e _ => ?_
  cases he : e.finishes id with
  | true => rw [concerns_of_finishes he]; rfl
  | false => rfl

end Event

namespace Grant

/-- What has become of a grant that was created as `g`, by all that has been told since: it is held with
what it has not paid, or it has ended once, and what it has paid and given back is the whole of it. -/
inductive Accounted (g : Grant) (events : List Event) (l : Ledger) : Prop
  | held (stored : l.state.grants.get? g.id =
        some { g with amount := g.amount - (events.map (·.paidFrom g.id)).sum })
      (left : (events.map (·.paidFrom g.id)).sum < g.amount)
      (unfinished : events.filter (·.finishes g.id) = [])
  | ended {refunded : Amount} (gone : l.state.grants.get? g.id = none) (nonneg : 0 ≤ refunded)
      (finished : events.filter (·.finishes g.id) = [.grantFinished g.id g.owner refunded])
      (whole : (events.map (·.paidFrom g.id)).sum + refunded = g.amount)

namespace Turn

variable {shares : SortedMap GroupId Amount} (h : g.Turn id l shares events l')

include h

theorem sum_paidFrom : (events.map (·.paidFrom id)).sum = shares.totalParts := by
  have hend : ((if g.Ends l.head.block shares.totalParts then
      [Event.grantFinished id g.owner (g.amount - shares.totalParts)] else []).map
        (·.paidFrom id)).sum = 0 := by
    split <;> rfl
  rw [h.events_eq, List.map_append, List.sum_append, hend, add_zero, List.map_map]
  simp [Function.comp_def, Event.paidFrom, SortedMap.totalParts, SortedMap.sumOf]

theorem filter_finishes : events.filter (·.finishes id) =
    if g.Ends l.head.block shares.totalParts then
      [.grantFinished id g.owner (g.amount - shares.totalParts)] else [] := by
  have hpaid : (shares.entries.map fun x => Event.grantPaid id x.1 x.2).filter (·.finishes id) = [] :=
    List.filter_eq_nil_iff.2 fun e he => by
      obtain ⟨x, -, rfl⟩ := List.mem_map.1 he
      exact Bool.false_ne_true
  rw [h.events_eq, List.filter_append, hpaid, List.nil_append]
  split
  · exact List.filter_cons_of_pos (decide_eq_true rfl)
  · rfl

end Turn

variable {told : List Event}

/-- The account of a grant goes on with each request. -/
theorem Accounted.next (h : g.Accounted told l) (hserves : step.Serves l g.id) :
    g.Accounted (told ++ step.told l) (step.next l) := by
  have hpaid : ((told ++ step.told l).map (·.paidFrom g.id)).sum = (told.map (·.paidFrom g.id)).sum +
      (((step.told l).filter (·.concerns g.id)).map (·.paidFrom g.id)).sum := by
    rw [List.map_append, List.sum_append, Event.sum_paidFrom_filter]
  have hfinished : (told ++ step.told l).filter (·.finishes g.id) = told.filter (·.finishes g.id) ++
      ((step.told l).filter (·.concerns g.id)).filter (·.finishes g.id) := by
    rw [List.filter_append, Event.filter_finishes_filter]
  cases hserves with
  | leaves _ hleft =>
    rw [hleft.silent, List.map_nil, List.sum_nil, add_zero] at hpaid
    rw [hleft.silent, List.filter_nil, List.append_nil] at hfinished
    cases h with
    | held stored left unfinished =>
      rw [← hleft.stored] at stored
      exact .held (by rw [hpaid]; exact stored) (hpaid.trans_lt left) (hfinished.trans unfinished)
    | ended gone nonneg finished whole =>
      exact .ended (hleft.stored.trans gone) nonneg (hfinished.trans finished) (by rw [hpaid, whole])
  | pass _ hg hpass =>
    cases h with
    | ended gone => cases gone.symm.trans hg
    | held stored left unfinished =>
      obtain rfl := Option.some.inj (hg.symm.trans stored)
      obtain ⟨l₂, shares, own, l₃, -, -, hturn, hown, hstored⟩ := hpass
      have hle := hturn.paid_le.trans (min_le_right _ _)
      rw [hown, hturn.sum_paidFrom] at hpaid
      rw [hown, hturn.filter_finishes, unfinished, List.nil_append] at hfinished
      rw [hturn.stored] at hstored
      by_cases hends : Ends { g with amount := g.amount - (told.map (·.paidFrom g.id)).sum }
          l₂.head.block shares.totalParts
      · rw [if_pos hends] at hstored hfinished
        refine .ended hstored (Int.sub_nonneg_of_le hle) hfinished ?_
        rw [hpaid]
        dsimp only
        abel
      · rw [if_neg hends] at hstored hfinished
        refine .held ?_ ?_ hfinished
        · rw [hstored, hpaid, sub_add_eq_sub_sub]
        · have hne := (not_or.1 hends).2
          dsimp only at hne hle
          lia

end Grant

/-- What a run tells. -/
def Ledger.told (l : Ledger) : List Step → List Event
  | [] => []
  | step :: steps => step.told l ++ (step.next l).told steps

/-- The account of a grant goes on along a run. -/
theorem Grant.Accounted.run {told : List Event} (h : g.Accounted told l) (hl : l.Numbers g.id)
    (hs : ∀ step ∈ steps, step.Storable) : g.Accounted (told ++ l.told steps) (l.after steps) := by
  induction steps generalizing l told with
  | nil => exact (List.append_nil told).symm ▸ h
  | cons step steps ih =>
    rw [List.forall_mem_cons] at hs
    have hnext := (step.invariant (P := fun l => l.Numbers g.id) hs.1 (fun _ _ => Change.numbers) hl).1
    have := ih (h.next (step.serves hs.1 hl)) hnext hs.2
    rw [List.append_assoc] at this
    exact this

/-- The operations of a granted request are granted one after the other. -/
theorem Step.collect_operations (hgranted : step.granted l = true) (hop : step.operations ≠ []) :
    LedgerM.collect Operation.apply step.operations l = (.ok (step.told l), step.next l) := by
  cases step.carriesOut l hop with
  | refused h =>
    rw [granted, h] at hgranted
    cases hgranted
  | granted h hc =>
    rw [told, next, h]
    exact hc

/-- A grant that an operation creates is held whole. -/
theorem Grant.Accounted.created {op : CreateGrant} (hgranted : step.granted l = true)
    (hop : (l₁, .createGrant op) ∈ l.turns Operation.apply step.operations) :
    (op.grant l₁.state).id < (step.next l).state.nextIds.grant ∧
      (op.grant l₁.state).Accounted (step.told l) (step.next l) := by
  have hne : step.operations ≠ [] := by
    intro he
    rw [he] at hop
    cases hop
  have hall := Step.collect_operations hgranted hne
  obtain ⟨_, _, _, _, l₂, _, -, -, hcreate, hrest, -⟩ := LedgerM.collect_of_mem_turns hall hop
  have hsilent : (step.told l).filter (·.concerns (op.grant l₁.state).id) = [] :=
    (LedgerM.collect_relates (P := fun _ => True)
      (R := fun _ events _ => events.filter (·.concerns (op.grant l₁.state).id) = []) (fun _ => rfl)
      (fun _ _ _ _ _ h h' => by rw [List.filter_append, h, h']; rfl)
      (fun _ _ _ _ _ h _ => ⟨trivial, Operation.run_silent (LedgerM.apply_ok h)⟩) hall trivial).2
  have hpaid : ((step.told l).map (·.paidFrom (op.grant l₁.state).id)).sum = 0 := by
    rw [← Event.sum_paidFrom_filter, hsilent]
    rfl
  cases Operation.effect_of_run (LedgerM.apply_ok hcreate) with
  | createGrant hp =>
    have hnew := CreateGrant.plan_eq hp
    have hamount := (CreateGrant.plan_ok hp).2.2.1
    subst hnew
    obtain ⟨hnext, hleft⟩ := LedgerM.collect_apply_leaves hrest (Nat.lt_succ_self _)
    refine ⟨hnext, .held ?_ (hpaid.trans_lt hamount) ?_⟩
    · rw [hpaid, sub_zero]
      exact hleft.stored.trans get?_insert_self
    · rw [← Event.filter_finishes_filter, hsilent]
      rfl

/-- Every grant is paid out once, whatever happens after its creation: it is held with what it has not
paid, or it has ended once and has paid and given back the whole of it. Each further request gives it a
turn if it lets grants have their turns, and else leaves it alone. -/
theorem Ledger.Reachable.grant_paid_out {op : CreateGrant} (h : l.Reachable config genesis)
    (hg : genesis.Storable) (hgranted : step.granted l = true)
    (hop : (l₁, .createGrant op) ∈ l.turns Operation.apply step.operations)
    (hs : ∀ step ∈ steps, step.Storable) :
    (op.grant l₁.state).Accounted (l.told (step :: steps)) (l.after (step :: steps)) ∧
      ∀ next : Step, next.Storable → next.Serves (l.after (step :: steps)) (op.grant l₁.state).id := by
  have hstep : step.Storable := by
    cases step with
    | operation | transaction => trivial
    | _ => cases hop
  obtain ⟨hid, hcreated⟩ := Grant.Accounted.created hgranted hop
  have hnext : (step.next l).Numbers (op.grant l₁.state).id :=
    ⟨(step.invariant (P := Ledger.Granting) hstep (fun _ _ => Change.granting) (h.granting hg)).1, hid⟩
  have hend := (visited_invariant (P := fun l => l.Numbers (op.grant l₁.state).id) hs
    (fun _ _ => Change.numbers) hnext).1
  exact ⟨hcreated.run hnext hs, fun next hstorable => next.serves hstorable hend⟩

namespace Sample

def patrons : Genesis where
  accounts := [⟨alice, .empty, 0, 1⟩, ⟨bob, .empty, 1000, 300⟩]

/-- A ledger with money in bob's hand and a content of alice's. -/
def patronised : Ledger := (foundedUnder {} patrons).after publish

def support : CreateGrant := ⟨bob, 0, .primary 10, 1, 3⟩

/-- Bob gives ten for the next three blocks. -/
def supporting : List Step :=
  [.operation (.createGrant support), .endBlock 1, .endBlock 1, .endBlock 1]

/-- Three blocks pay three each, and the last one returns what is left. -/
theorem support_paid_out :
    (patronised.told supporting).map (·.paidFrom 0) = [3, 3, 3, 0] ∧
    (patronised.told supporting).filter (·.finishes 0) = [.grantFinished 0 bob 1] ∧
    (support.grant patronised.state).Accounted (patronised.told supporting)
      (patronised.after supporting) :=
  have hreachable : patronised.Reachable {} patrons := ⟨foundedUnder {} patrons, publish, rfl,
    by decide, rfl⟩
  have hgranted : Step.granted (.operation (.createGrant support)) patronised = true := by
    decide +kernel
  have hblocks : ∀ step ∈ [Step.endBlock 1, .endBlock 1, .endBlock 1], step.Storable := by decide
  have h := Ledger.Reachable.grant_paid_out hreachable (by decide) hgranted List.mem_cons_self hblocks
  ⟨by decide +kernel, by decide +kernel, h.1⟩

end Sample

end ResearchLedger
