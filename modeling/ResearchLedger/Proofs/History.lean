import ResearchLedger.Proofs.Run

/-! The history of a run: the operations that it carried out, and what happens between them. -/
namespace ResearchLedger

variable {l l' l₁ l₂ : Ledger} {op : Operation} {steps : List Step}
  {history history' before after : List (Ledger × Operation)}

namespace Step

/-- The operations that a request carries out, each with the ledger at its turn. -/
def carriedOut (step : Step) (l : Ledger) : List (Ledger × Operation) :=
  if step.granted l then l.turns Operation.apply step.operations else []

theorem stages_eq (step : Step) (l : Ledger) :
    step.stages l = (step.carriedOut l).map (·.1) ++ (step.payments l).map (·.1) := by
  unfold stages carriedOut
  split <;> rfl

theorem carriedOut_eq_nil {step : Step} (h : step.stages l = (step.payments l).map (·.1)) :
    step.carriedOut l = [] := by
  rwa [stages_eq, List.append_left_eq_self, List.map_eq_nil_iff] at h

theorem carriedOut_of_stages {step : Step}
    (h : step.stages l = (l.turns Operation.apply step.operations).map (·.1))
    (hp : step.payments l = []) : step.carriedOut l = l.turns Operation.apply step.operations := by
  rw [stages_eq, hp, List.map_nil, List.append_nil] at h
  unfold carriedOut at h ⊢
  split
  · rfl
  · rw [if_neg ‹_›, List.map_nil] at h
    exact (List.map_eq_nil_iff.1 h.symm).symm

theorem carriedOut_operation (h : (operation op).granted l = true) :
    (operation op).carriedOut l = [(l, op)] := if_pos h

end Step

/-- The operations that a run carries out, in their order. -/
def Ledger.carriedOut (l : Ledger) : List Step → List (Ledger × Operation)
  | [] => []
  | step :: steps => step.carriedOut l ++ (step.next l).carriedOut steps

theorem Ledger.carriedOut_append (xs ys : List Step) :
    l.carriedOut (xs ++ ys) = l.carriedOut xs ++ (l.after xs).carriedOut ys := by
  induction xs generalizing l with
  | nil => rfl
  | cons x xs ih => rw [List.cons_append, carriedOut, carriedOut, ih, after, List.append_assoc]

/-- A single change that no operation makes. -/
inductive Drift (l : Ledger) : Ledger → Prop
  | reward {amount : Amount} {plan : RewardPlan} (h : l.Plans amount plan) :
      Drift l { l with state := l.state.applyReward l.head.time plan }
  | payment {name : AccountName} {events : List Event} {l' : Ledger}
      (h : LedgerM.payPowerDown name l = (.ok events, l')) : Drift l l'
  | upkeep {l' : Ledger} (h : Upkeep l l') : Drift l l'

theorem Drift.change (h : Drift l l') : Change l l' := by
  cases h with
  | reward h => exact .reward h
  | payment h => exact .payment h
  | upkeep h => exact .upkeep h

theorem Change.operation_or_drift (h : Change l l') :
    (∃ op : Operation, op.Effect l l') ∨ Drift l l' := by
  cases h with
  | operation h => exact .inl ⟨_, h⟩
  | reward h => exact .inr (.reward h)
  | payment h => exact .inr (.payment h)
  | upkeep h => exact .inr (.upkeep h)

/-- A way from one ledger to another, with the operations that are carried out on it. -/
inductive Passes (l : Ledger) : List (Ledger × Operation) → Ledger → Prop
  | refl : Passes l [] l
  | drift {history : List (Ledger × Operation)} {l₁ l₂ : Ledger} (h : Passes l history l₁)
      (hd : Drift l₁ l₂) : Passes l history l₂
  | operation {history : List (Ledger × Operation)} {op : Operation} {events : List Event}
      {l₁ l₂ : Ledger} (h : Passes l history l₁) (ho : op.apply l₁ = (.ok events, l₂)) :
      Passes l (history ++ [(l₁, op)]) l₂

namespace Passes

theorem trans (h : Passes l history l₁) (h' : Passes l₁ history' l₂) :
    Passes l (history ++ history') l₂ := by
  induction h' with
  | refl => rwa [List.append_nil]
  | drift _ hd ih => exact ih.drift hd
  | operation _ ho ih =>
    rw [← List.append_assoc]
    exact ih.operation ho

theorem upkeeps (h : Upkeeps l l') : Passes l [] l' := by
  induction h with
  | refl => exact .refl
  | tail _ hc ih => exact ih.drift (.upkeep hc)

theorem operations {ops : List Operation} (h : LedgerM.Collects Operation.apply ops l l') :
    Passes l (l.turns Operation.apply ops) l' := by
  induction h with
  | nil => exact .refl
  | cons ha _ ih =>
    rw [Ledger.turns, ha]
    exact (operation .refl ha).trans ih

theorem payments {names : List AccountName} (h : LedgerM.Collects LedgerM.payPowerDown names l l') :
    Passes l [] l' := by
  induction h with
  | nil => exact .refl
  | cons hp _ ih => exact (drift .refl (.payment hp)).trans ih

/-- An operation of a history was carried out when its turn came. -/
theorem of_append (h : Passes l history l') : ∀ {before after}, history = before ++ (l₁, op) :: after →
    Passes l before l₁ ∧ ∃ events l₂, op.apply l₁ = (.ok events, l₂) ∧
      Passes l (before ++ [(l₁, op)]) l₂ ∧ Passes l₂ after l' := by
  induction h with
  | refl => exact fun he => absurd he (by simp)
  | drift _ hd ih =>
    intro before after he
    obtain ⟨hbefore, events, l₂, ho, hthis, hafter⟩ := ih he
    exact ⟨hbefore, events, l₂, ho, hthis, hafter.drift hd⟩
  | operation h ho ih =>
    intro before after he
    rcases List.eq_nil_or_concat after with rfl | ⟨after, x, rfl⟩
    · obtain ⟨hb, hx⟩ := List.append_inj' he rfl
      cases hb
      cases hx
      exact ⟨h, _, _, ho, h.operation ho, .refl⟩
    · rw [List.concat_eq_append, ← List.cons_append, ← List.append_assoc] at he
      obtain ⟨hb, hx⟩ := List.append_inj' he rfl
      cases hb
      cases hx
      obtain ⟨hbefore, events, l₂, ho', hthis, hafter⟩ := ih rfl
      refine ⟨hbefore, events, l₂, ho', hthis, ?_⟩
      rw [List.concat_eq_append]
      exact hafter.operation ho

/-- What every single change keeps holds in the end. -/
theorem invariant {P : Ledger → Prop} (h : Passes l history l')
    (change : ∀ l₁ l₂, Change l₁ l₂ → P l₁ → P l₂) (hl : P l) : P l' := by
  induction h with
  | refl => exact hl
  | drift _ hd ih => exact change _ _ hd.change ih
  | operation _ ho ih =>
    exact change _ _ (.operation (Operation.effect_of_run (LedgerM.apply_ok ho))) ih

end Passes

theorem Step.passes (step : Step) (hs : step.Storable) : Passes l (step.carriedOut l) (step.next l) := by
  cases step.proceeds l hs with
  | upkeep h hstages hp =>
    rw [carriedOut_eq_nil (by rw [hstages, hp, List.map_nil])]
    exact .upkeeps h
  | operations h hstages hp =>
    rw [carriedOut_of_stages hstages hp]
    exact .operations h
  | reward h hn hstages hp =>
    rw [carriedOut_eq_nil (by rw [hstages, hp, List.map_nil]), hn]
    exact .drift .refl (.reward h)
  | block before paid after hstages =>
    rw [carriedOut_eq_nil hstages]
    exact ((Passes.upkeeps before).trans (.payments paid)).trans (.upkeeps after)

/-- A run goes from its first ledger to its last one by the operations that it carries out. -/
theorem Ledger.passes_after (hs : ∀ step ∈ steps, step.Storable) :
    Passes l (l.carriedOut steps) (l.after steps) := by
  induction steps generalizing l with
  | nil => exact .refl
  | cons step steps ih =>
    exact (step.passes (hs step List.mem_cons_self)).trans
      (ih fun x hx => hs x (List.mem_cons_of_mem _ hx))

end ResearchLedger
