import ResearchLedger.Proofs.Footprint
import ResearchLedger.Proofs.History

/-! Requests in time: a request first moves the clock, if it does at all, and every change that it
makes is made at the time it has set. -/
namespace ResearchLedger

open Relation (ReflTransGen)

variable {l l' : Ledger} {ops : List Operation}

/-- The stores that may be written without an operation. -/
inductive Drift.Footprint (l : Ledger) : Ledger → Prop
  | mk (accounts ownerHistory recoveryRequests partnerChanges expiringDelegations expertTokens groups
      contents disciplines voteTotals witnesses grants proposals head) : Footprint l
        { state := { l.state with
            accounts, ownerHistory, recoveryRequests, partnerChanges, expiringDelegations,
            expertTokens, groups, contents, disciplines, voteTotals, witnesses, grants, proposals }
          head }

theorem Drift.footprint (h : Drift l l') : Drift.Footprint l l' := by
  cases h with
  | @reward _ plan =>
    obtain ⟨_, _, _, he⟩ := State.applyReward_footprint l.state l.head.time plan
    rw [he]
    exact .mk ..
  | payment h =>
    obtain ⟨_, _, _, rfl⟩ := LedgerM.payPowerDown_footprint h
    exact .mk ..
  | upkeep h =>
    cases h.footprint with
    | deactivation content =>
      obtain ⟨_, _, _, _, he⟩ := Ledger.deactivate_footprint l content
      rw [he]
      exact .mk ..
    | rest => exact .mk ..

/-- When the head of the chain stands. -/
def Head.clock (h : Head) : Seconds × Nat := (h.time, h.block)

/-- The ledger at the time of a request. -/
def Step.onTime : Step → Ledger → Ledger
  | endBlock seconds, l => { l with head := l.head.advance seconds }
  | setClock time block, l => { l with head := { l.head with time, block } }
  | _, l => l

/-- A single change while the clock stands still: an operation of the list, or no operation. -/
inductive Move (ops : List Operation) (l : Ledger) : Ledger → Prop
  | operation {op : Operation} {l' : Ledger} (ho : op ∈ ops) (h : op.Effect l l') : Move ops l l'
  | drift {l' : Ledger} (h : Drift l l') (hc : l'.head.clock = l.head.clock) : Move ops l l'

/-- Changes in a row at one time. -/
abbrev Moves (ops : List Operation) : Ledger → Ledger → Prop := ReflTransGen (Move ops)

theorem Operation.Effect.clock_eq {op : Operation} (h : op.Effect l l') :
    l'.head.clock = l.head.clock := by
  cases h.footprint <;> rfl

theorem Move.clock_eq (h : Move ops l l') : l'.head.clock = l.head.clock := by
  cases h with
  | operation _ h => exact h.clock_eq
  | drift _ hc => exact hc

theorem Move.upkeep (h : Upkeep l l') (hc : l'.head.clock = l.head.clock) : Move ops l l' :=
  .drift (.upkeep h) hc

theorem Ledger.deactivate_clock (l : Ledger) (content : ContentId) :
    (l.deactivate content).head.clock = l.head.clock := by
  obtain ⟨_, _, _, _, h⟩ := l.deactivate_footprint content
  rw [h]
  rfl

namespace Moves

open LedgerM

theorem processGrants (l : Ledger) : Moves ops l (processGrants l).2 := by
  refine collect_preserves (P := Moves ops l) (fun id l' h => h.trans ?_) _ .refl
  obtain h | ⟨g, s, events, hg, hs, h⟩ := processGrant_snd id l' <;> rw [h]
  exact .single (.upkeep (.grant hg hs) rfl)

theorem beforePayments (l : Ledger) : Moves ops l l.beforePayments := by
  have requests : Moves ops l _ := .single (.upkeep .requests rfl)
  have partners : Moves ops l _ := requests.tail (.upkeep .partners rfl)
  have history : Moves ops l _ := partners.tail (.upkeep .history rfl)
  exact history.tail (.upkeep .returns rfl)

theorem payments {names : List AccountName} (h : Collects payPowerDown names l l') :
    Moves ops l l' := by
  induction h with
  | nil => exact .refl
  | cons hp _ ih =>
    refine .head (.drift (.payment hp) ?_) ih
    obtain ⟨_, _, _, rfl⟩ := payPowerDown_footprint hp
    rfl

theorem afterPayments (l : Ledger) (now : Seconds) : Moves ops l (l.afterPayments now) := by
  suffices ∀ contents : List ContentId, Moves ops l (contents.foldl Ledger.deactivate l) from
    (this _).tail (.upkeep (.proposals now) rfl)
  intro contents
  induction contents generalizing l with
  | nil => exact .refl
  | cons content contents ih =>
    exact .head (.upkeep (.deactivation content) (l.deactivate_clock content)) (ih _)

/-- A block is carried out in full or not at all. -/
theorem processBlock (l : Ledger) : Moves ops l (processBlock l).2 := by
  rcases h : LedgerM.processBlock l with ⟨e | events, l'⟩
  · rw [atomically_error h]
  · obtain ⟨_, l₁, hp, rfl, -⟩ := maintain_ok (atomically_ok h)
    exact ((beforePayments l).trans (payments (collects_of_ok hp))).trans (afterPayments l₁ _)

theorem endBlock (seconds : Seconds) (l : Ledger) :
    Moves ops { l with head := l.head.advance seconds } (endBlock seconds l).2 := by
  have grants : Moves ops _ (l.afterGrants seconds) := processGrants { l with head := l.head.advance seconds }
  obtain ⟨-, h⟩ | ⟨-, h⟩ := endBlock_cases seconds l <;> rw [h]
  · exact grants
  · exact grants.trans (processBlock _)

theorem collected (h : Collects Operation.apply ops l l') : Moves ops l l' := by
  suffices ∀ {as : List Operation} {l l' : Ledger}, Collects Operation.apply as l l' →
      (∀ op ∈ as, op ∈ ops) → Moves ops l l' from this h fun _ ho => ho
  intro as l l' h
  induction h with
  | nil => exact fun _ => .refl
  | cons ha _ ih =>
    rw [List.forall_mem_cons]
    exact fun ho => .head (.operation ho.1 (Operation.effect_of_run (apply_ok ha))) (ih ho.2)

end Moves

theorem Step.run_return_snd {α : Type} {x : LedgerM α} {f : α → Outcome} :
    ((do return f (← x) : LedgerM Outcome) l).2 = (x l).2 := by
  rw [run_return]
  rcases x l with ⟨e | a, l'⟩ <;> rfl

theorem Step.run_return_isOk {α : Type} {x : LedgerM α} {f : α → Outcome} :
    ((do return f (← x) : LedgerM Outcome) l).1.isOk = (x l).1.isOk := by
  rw [run_return]
  rcases x l with ⟨e | a, l'⟩ <;> rfl

theorem Step.CarriesOut.moves {step : Step} (h : step.CarriesOut l) :
    Moves step.operations l (step.next l) := by
  cases h with
  | refused h => rw [next, h]
  | granted h hc =>
    rw [next, h]
    exact .collected (LedgerM.collects_of_ok hc)

theorem Step.Distributes.moves {step : Step} (h : step.Distributes l) (hs : step.Storable) :
    Moves step.operations l (step.next l) := by
  cases h with
  | refused h => rw [next, h]
  | granted h hp =>
    rw [next, h]
    exact .single (.drift (.reward (hp hs)) rfl)

/-- A request sets the clock and then makes its changes at that time. -/
theorem Step.moves (step : Step) (hs : step.Storable) (l : Ledger) :
    Moves step.operations (step.onTime l) (step.next l) := by
  cases step with
  | operation op => exact (carriesOut_operation op l).moves
  | transaction ops => exact (carriesOut_transaction ops l).moves
  | endBlock seconds =>
    rw [next, perform, run_return_snd]
    exact .endBlock seconds l
  | processGrants =>
    rw [next, perform, run_return_snd]
    exact .processGrants l
  | processBlock =>
    rw [next, perform, run_return_snd]
    exact .processBlock l
  | distributeReward budget => exact (distributes_reward budget l).moves hs
  | rewardHolders research amount => exact (distributes_holders research amount l).moves hs
  | setClock time block => exact .refl

namespace Ledger

variable {steps : List Step} {P : Ledger → Prop}

/-- What the clock and every change at one time keep holds after every run. -/
theorem after_invariant (hs : ∀ step ∈ steps, step.Storable)
    (clock : ∀ step ∈ steps, ∀ l, P l → P (step.onTime l))
    (move : ∀ step ∈ steps, ∀ l l', Move step.operations l l' → P l → P l') (hl : P l) :
    P (l.after steps) := by
  induction steps generalizing l with
  | nil => exact hl
  | cons step steps ih =>
    rw [List.forall_mem_cons] at hs clock move
    have moves {l' : Ledger} (h : Moves step.operations (step.onTime l) l') : P l' := by
      induction h with
      | refl => exact clock.1 l hl
      | tail _ h ih => exact move.1 _ _ h ih
    exact ih hs.2 clock.2 move.2 (moves (step.moves hs.1 l))

end Ledger

theorem Moves.clock_eq (h : Moves ops l l') : l'.head.clock = l.head.clock := by
  induction h with
  | refl => rfl
  | tail _ h ih => exact h.clock_eq.trans ih

theorem Ledger.afterGrants_time (l : Ledger) (seconds : Seconds) :
    (l.afterGrants seconds).head.time = (l.head.advance seconds).time := by
  have hgrants : Moves [] { l with head := l.head.advance seconds } (l.afterGrants seconds) :=
    .processGrants _
  exact congrArg Prod.fst hgrants.clock_eq

theorem Passes.config_eq {history : List (Ledger × Operation)} (h : Passes l history l') :
    l'.state.config = l.state.config :=
  h.invariant (P := fun x => x.state.config = l.state.config)
    (fun _ _ hc hl => hc.config_eq.trans hl) rfl

theorem Operation.time_apply {op : Operation} : (op.apply l).2.head.time = l.head.time := by
  rw [LedgerM.run_apply]
  rcases h : op.run l with e | ⟨l', events⟩
  · rfl
  · exact congrArg Prod.fst (effect_of_run h).clock_eq

theorem Ledger.turns_time : ∀ x ∈ l.turns Operation.apply ops, x.1.head.time = l.head.time := by
  induction ops generalizing l with
  | nil => exact fun _ hx => absurd hx List.not_mem_nil
  | cons op ops ih =>
    refine List.forall_mem_cons.2 ⟨rfl, fun x hx => ?_⟩
    exact (ih x hx).trans Operation.time_apply

theorem Step.carriedOut_time {step : Step} :
    ∀ x ∈ step.carriedOut l, x.1.head.time = l.head.time := by
  unfold carriedOut
  split
  · exact Ledger.turns_time
  · exact fun _ hx => absurd hx List.not_mem_nil

namespace Ledger

variable {steps : List Step}

/-- No request of a run turns the clock back. -/
def Forward (l : Ledger) : List Step → Prop
  | [] => True
  | step :: steps => l.head.time ≤ (step.next l).head.time ∧ (step.next l).Forward steps

instance : DecidablePred l.Forward := fun steps => by
  induction steps generalizing l with
  | nil => exact .isTrue trivial
  | cons step steps ih => exact @instDecidableAnd _ _ _ ih

/-- As long as the clock is not turned back, operations are carried out in the order of their times. -/
theorem Forward.carriedOut_sorted (h : l.Forward steps) :
    ((l.carriedOut steps).Pairwise fun x y => x.1.head.time ≤ y.1.head.time) ∧
      ∀ x ∈ l.carriedOut steps, l.head.time ≤ x.1.head.time := by
  induction steps generalizing l with
  | nil => exact ⟨.nil, fun _ hx => absurd hx List.not_mem_nil⟩
  | cons step steps ih =>
    obtain ⟨hnext, hrest⟩ := h
    obtain ⟨hsorted, hfrom⟩ := ih hrest
    have hfirst := step.carriedOut_time (l := l)
    refine ⟨List.pairwise_append.2 ⟨?_, hsorted, ?_⟩, List.forall_mem_append.2 ⟨?_, ?_⟩⟩
    · exact List.pairwise_of_forall_mem_list fun x hx y hy => by rw [hfirst x hx, hfirst y hy]
    · intro x hx y hy
      rw [hfirst x hx]
      exact hnext.trans (hfrom y hy)
    · exact fun x hx => (hfirst x hx).ge
    · exact fun x hx => hnext.trans (hfrom x hx)

end Ledger

end ResearchLedger
