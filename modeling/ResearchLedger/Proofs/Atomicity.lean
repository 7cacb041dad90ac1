import ResearchLedger.Proofs.Founding

/-! Requests that are refused change nothing, whatever they wrote before they failed, and a transaction
is the sequence of its operations. -/
namespace ResearchLedger

variable {l l' l₁ : Ledger} {e : LedgerError}

namespace LedgerM

/-- A computation that changes nothing when it fails. -/
def Atomic {α : Type} (x : LedgerM α) : Prop := ∀ l e l', x l = (.error e, l') → l' = l

/-- Checks that read the ledger, and then writes. What is written stays, also before a failure. -/
def checkThen {α : Type} (check : Ledger → Except LedgerError α) (write : α → LedgerM (List Event)) :
    LedgerM (List Event) := do
  let a ← liftM (check (← get))
  write a

/-- Writes that have nothing to report. -/
def write (f : Ledger → Ledger) : LedgerM (List Event) := do
  modify f
  return []

/-- Writes to the stores that have nothing to report. -/
def writeState (f : Head → State → State) : LedgerM (List Event) :=
  write (fun l => { l with state := f l.head l.state })

end LedgerM

namespace Operation

open LedgerM

/-- An operation as a computation on a ledger that keeps every write: its checks, then its writes. -/
def perform : Operation → LedgerM (List Event)
  | accountCreate op =>
    checkThen (fun l => op.check l.state) fun _ => writeState fun h => op.commit h.time
  | accountUpdate op =>
    checkThen (fun l => op.check l.head.time l.state) fun _ => writeState fun h => op.commit h.time
  | transfer op => checkThen (fun l => op.check l.state) fun _ => writeState fun _ => op.commit
  | transferToCommonTokens op =>
    checkThen (fun l => op.plan l.state) fun effects => writeState fun h => op.commit h.time effects
  | withdrawCommonTokens op =>
    checkThen (fun l => op.plan l.head.time l.state) fun schedule => writeState fun _ => op.commit schedule
  | setWithdrawRoute op =>
    checkThen (fun l => op.plan l.state) fun plan => writeState fun _ => op.commit plan
  | delegateCommonTokens op =>
    checkThen (fun l => op.plan l.head.time l.state) fun plan => writeState fun _ => plan.commit
  | setWitnessProxy op => checkThen (fun l => op.plan l.state) fun plan => writeState fun _ => plan.commit
  | witnessUpdate op =>
    checkThen (fun l => op.check l.state) fun _ => writeState fun h => op.commit h.time
  | witnessVote op =>
    checkThen (fun l => op.plan l.state) fun weight => writeState fun _ => op.commit weight
  | requestRecovery op =>
    checkThen (fun l => op.plan l.head.time l.state) fun plan => writeState fun _ => plan.commit
  | recoverAccount op =>
    checkThen (fun l => op.check l.head.time l.state) fun _ => writeState fun h => op.commit h.time
  | changeRecoveryPartner op =>
    checkThen (fun l => op.plan l.head.time l.state) fun plan => writeState fun _ => plan.commit
  | voteForContent op => checkThen (fun l => op.plan l.head l.state) fun plan => write plan.commit
  | voteForReview op =>
    checkThen (fun l => op.plan l.head.time l.state) fun plan => writeState fun h => plan.commit h.time
  | makeReview op => checkThen (fun l => op.plan l.head l.state) fun plan => write plan.commit
  | createGroup op => checkThen (fun l => op.check l.state) fun _ => writeState fun _ => op.commit
  | createResearch op =>
    checkThen (fun l => op.check l.state) fun _ => writeState fun h => op.commit h.time
  | createContent op =>
    checkThen (fun l => op.check l.state) fun _ => writeState fun h => op.commit h.time
  | transferResearchTokens op =>
    checkThen (fun l => op.check l.state) fun _ => writeState fun _ => op.commit
  | addExpertise op =>
    checkThen (fun l => op.check l.state) fun _ => writeState fun h => op.commit h.time
  | createGrant op =>
    checkThen (fun l => op.plan l.head.block l.state) fun g => writeState fun _ => g.commit
  | createProposal op =>
    checkThen (fun l => op.plan l.head.time l.state) fun p => writeState fun _ => p.commit
  | voteForProposal op =>
    checkThen (fun l => op.plan l.head.time l.state) fun plan => do
      let events := plan.events (← get).state
      modifyState plan.commit
      return events

/-- Operations that are granted one after the other, with all that they report. -/
inductive Applies : Ledger → List Operation → List Event → Ledger → Prop
  | nil {l : Ledger} : Applies l [] [] l
  | cons {op : Operation} {ops : List Operation} {events more : List Event} {l l₁ l' : Ledger}
      (h : op.apply l = (.ok events, l₁)) (hs : Applies l₁ ops more l') :
      Applies l (op :: ops) (events ++ more) l'

/-- Operations one after the other, of which the first that is refused is refused with an error. -/
def Refuses (l : Ledger) (ops : List Operation) (e : LedgerError) : Prop :=
  ∃ before op after events l₁ l₂, ops = before ++ op :: after ∧ Applies l before events l₁ ∧
    op.apply l₁ = (.error e, l₂)

end Operation

namespace LedgerM

section checkThen

variable {α : Type} {check : Ledger → Except LedgerError α} {write : α → LedgerM (List Event)}

theorem run_checkThen : checkThen check write l =
    match check l with
    | .ok a => write a l
    | .error e => (.error e, l) := by
  unfold checkThen
  rw [run_bind, run_get]
  dsimp only
  rw [run_bind, run_lift]
  cases check l <;> rfl

/-- Checks change nothing, so what fails has changed nothing if the writes do not fail. -/
theorem Atomic.checkThen (hw : ∀ a l, ∃ events l', write a l = (.ok events, l')) :
    Atomic (checkThen check write) := by
  intro l e l' h
  rw [run_checkThen] at h
  cases hc : check l with
  | error =>
    rw [hc] at h
    cases h
    rfl
  | ok a =>
    rw [hc] at h
    obtain ⟨events, l₁, ha⟩ := hw a l
    cases h.symm.trans ha

theorem write_total (f : Ledger → Ledger) (l : Ledger) :
    ∃ events l', LedgerM.write f l = (.ok events, l') := ⟨[], f l, rfl⟩

/-- An operation is its checks and its writes if both its ledger and its report come from the writes. -/
theorem apply_eq_checkThen {op : Operation} {after : α → Ledger → Ledger}
    {report : α → Ledger → List Event}
    (h : ∀ l, op.run l = check l >>= fun a => .ok (after a l, report a l))
    (hw : ∀ a l, write a l = (.ok (report a l), after a l)) : op.apply = checkThen check write := by
  funext l
  rw [run_apply, run_checkThen, h]
  cases check l with
  | error => rfl
  | ok a => exact (hw a l).symm

end checkThen

theorem Atomic.unchanged {α : Type} {x : LedgerM α} (hx : Atomic x) (h : (x l).1.isOk = false) :
    (x l).2 = l := by
  rcases hr : x l with ⟨e | a, l'⟩
  · exact hx l e l' hr
  · rw [hr] at h
    cases h

theorem atomic_atomically {α : Type} (x : LedgerM α) : Atomic (atomically x) :=
  fun _ _ _ => atomically_error

end LedgerM

namespace Operation

open LedgerM

theorem apply_eq_perform (op : Operation) : op.apply = op.perform := by
  cases op <;> exact apply_eq_checkThen (fun _ => rfl) fun _ _ => rfl

theorem atomic_perform (op : Operation) : Atomic op.perform := by
  cases op with
  | voteForProposal => exact .checkThen fun _ _ => ⟨_, _, rfl⟩
  | _ => exact .checkThen fun _ => write_total _

variable {op : Operation} {ops : List Operation} {events : List Event}

theorem applies_of_collect (h : collect apply ops l = (.ok events, l')) : Applies l ops events l' := by
  induction ops generalizing l events with
  | nil =>
    cases h
    exact .nil
  | cons op ops ih =>
    obtain ⟨_, l₁, ha, h⟩ := LedgerM.bind_eq_ok.1 h
    obtain ⟨_, l₂, hs, h⟩ := LedgerM.bind_eq_ok.1 h
    cases h
    exact .cons ha (ih hs)

theorem Applies.collect (h : Applies l ops events l') : LedgerM.collect apply ops l = (.ok events, l') := by
  induction h with
  | nil => rfl
  | cons h _ ih => exact LedgerM.bind_eq_ok.2 ⟨_, _, h, LedgerM.bind_eq_ok.2 ⟨_, _, ih, rfl⟩⟩

theorem Refuses.cons (h : op.apply l = (.ok events, l₁)) (hs : Refuses l₁ ops e) :
    Refuses l (op :: ops) e := by
  obtain ⟨before, op', after, more, l₂, l₃, rfl, hb, hr⟩ := hs
  exact ⟨op :: before, op', after, events ++ more, l₂, l₃, rfl, .cons h hb, hr⟩

theorem refuses_of_collect (h : (collect apply ops l).1 = .error e) : Refuses l ops e := by
  induction ops generalizing l with
  | nil => cases h
  | cons op ops ih =>
    unfold LedgerM.collect at h
    rw [run_bind] at h
    rcases ha : op.apply l with ⟨e' | events, l₁⟩ <;> rw [ha] at h
    · cases h
      exact ⟨[], op, ops, [], l, l₁, rfl, .nil, ha⟩
    · dsimp only at h
      rw [run_bind] at h
      rcases hs : LedgerM.collect apply ops l₁ with ⟨e' | more, l₂⟩ <;> rw [hs] at h
      · cases h
        exact .cons ha (ih (by rw [hs]))
      · cases h

/-- What comes after the first refusal is not looked at. -/
theorem Refuses.collect (h : Refuses l ops e) : (LedgerM.collect apply ops l).1 = .error e := by
  obtain ⟨before, op, after, events, l₁, l₂, rfl, hb, hr⟩ := h
  induction hb with
  | nil =>
    rw [List.nil_append, LedgerM.collect, run_bind, hr]
  | cons h _ ih =>
    rw [List.cons_append, LedgerM.collect, run_bind, h]
    have := ih hr
    dsimp only
    rw [run_bind]
    rcases hs : LedgerM.collect apply _ _ with ⟨e' | more, l₃⟩ <;> rw [hs] at this
    · exact this
    · cases this

end Operation

namespace LedgerM

open Operation

variable {ops : List Operation} {events : List Event}

theorem applyTransaction_eq_ok :
    applyTransaction ops l = (.ok events, l') ↔ Applies l ops events l' := by
  constructor
  · exact fun h => applies_of_collect (atomically_ok h)
  · intro h
    rw [applyTransaction, run_atomically, h.collect]

theorem applyTransaction_eq_error :
    applyTransaction ops l = (.error e, l') ↔ Refuses l ops e ∧ l' = l := by
  unfold applyTransaction
  rw [run_atomically]
  constructor
  · intro h
    rcases hc : collect apply ops l with ⟨e' | more, l₁⟩ <;> rw [hc] at h <;> cases h
    exact ⟨refuses_of_collect (by rw [hc]), rfl⟩
  · rintro ⟨h, rfl⟩
    have := h.collect
    rcases hc : collect apply ops l' with ⟨e' | more, l₁⟩ <;> rw [hc] at this <;> cases this
    rfl

theorem atomic_distributeReward (budget : Asset) : Atomic (distributeReward budget) := by
  intro l e l' h
  rw [run_distributeReward] at h
  split at h
  · cases h
    rfl
  · split at h <;> cases h
    rfl

theorem atomic_rewardHolders (research : ResearchId) (amount : Asset) :
    Atomic (rewardHolders research amount) := by
  intro l e l' h
  rw [run_rewardHolders] at h
  split at h
  · cases h
    rfl
  · split at h <;> cases h
    rfl

/-- An operation is its checks followed by its writes. A refused operation, transaction, maintenance
or reward leaves every ledger as it was, whatever it had written before it failed. A transaction is
granted exactly if its operations are granted one after the other, with the same ledger in the end and
the same reports, and otherwise it is refused as the first of them that is refused. -/
theorem requests_atomic :
    (∀ op : Operation, op.apply = op.perform ∧ Atomic op.perform) ∧
    (∀ ops, Atomic (applyTransaction ops)) ∧
    Atomic processBlock ∧
    (∀ budget, Atomic (distributeReward budget)) ∧
    (∀ research amount, Atomic (rewardHolders research amount)) ∧
    ∀ l ops,
      (∀ events l', applyTransaction ops l = (.ok events, l') ↔ Applies l ops events l') ∧
      ∀ e l', applyTransaction ops l = (.error e, l') ↔ Refuses l ops e ∧ l' = l :=
  ⟨fun op => ⟨op.apply_eq_perform, op.atomic_perform⟩, fun _ => atomic_atomically _,
    atomic_atomically _, atomic_distributeReward, atomic_rewardHolders,
    fun _ _ => ⟨fun _ _ => applyTransaction_eq_ok, fun _ _ => applyTransaction_eq_error⟩⟩

end LedgerM

namespace Sample

/-- Alice founds a group, and bob wants the same link for his. -/
def rivals : List Operation :=
  [.createGroup ⟨alice, "Group", "group", "", 5000⟩, .createGroup ⟨bob, "Other", "group", "", 5000⟩]

/-- A power-down of alice that is due, with one half for bob and the other for nobody there is. -/
def stranded : Ledger :=
  let l := (founded 1000 300 20).after
    [.operation (.setWithdrawRoute ⟨alice, bob, 5000, false⟩),
      .operation (.withdrawCommonTokens ⟨alice, 260⟩), .setClock 604800 0]
  let routes := (l.state.withdrawRoutes.getD alice ∅).insert dave ⟨alice, dave, 5000, true⟩
  { l with state := { l.state with withdrawRoutes := l.state.withdrawRoutes.insert alice routes } }

/-- Both fail after a write, which is seen where nothing restores the ledger. -/
theorem refused_unchanged :
    (LedgerM.collect Operation.apply rivals (founded 1 300 20)).2 ≠ founded 1 300 20 ∧
    (LedgerM.applyTransaction rivals (founded 1 300 20)).2 = founded 1 300 20 ∧
    (LedgerM.maintain stranded).2 ≠ stranded ∧ (LedgerM.processBlock stranded).2 = stranded :=
  have h := LedgerM.requests_atomic
  ⟨by decide +kernel, (h.2.1 rivals).unchanged (by decide +kernel), by decide +kernel,
    h.2.2.1.unchanged (by decide +kernel)⟩

end Sample

end ResearchLedger
