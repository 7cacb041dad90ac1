import ResearchLedger.Proofs.BlockEnd
import ResearchLedger.Proofs.Requests

/-! Recovery partners: of all requests only those that end a block change the partner of an account, and
they do it by the changes that are due. -/
namespace ResearchLedger

open SortedMap

variable {s s' : State} {l l' : Ledger} {n : AccountName} {op : Operation} {now : Seconds}
  {events : List Event}

/-- The recovery partner of an account, if there is the account. -/
def State.partner? (s : State) (n : AccountName) : Option (Option AccountName) :=
  (s.accounts.get? n).map (·.recoveryPartner)

/-- The change of an account's partner that is due at a time. -/
def State.duePartner (s : State) (now : Seconds) (n : AccountName) : Option PartnerChange :=
  (s.partnerChanges.get? n).filter (·.isDue now)

/-- The partner of an account after the change that takes effect, if there is one. -/
def partnerAfter (change : Option PartnerChange) (partner : Option AccountName) : Option AccountName :=
  (change.map (·.partner)).or partner

@[simp] theorem partnerAfter_none : partnerAfter none = id := rfl

theorem map_partnerAfter_none (o : Option (Option AccountName)) : o.map (partnerAfter none) = o :=
  Option.map_id' ..

@[simp] theorem partnerAfter_some {c : PartnerChange} : partnerAfter (some c) = fun _ => some c.partner :=
  rfl

namespace Step

/-- Whether a request ends a block. -/
def endsBlock : Step → Bool
  | endBlock _ | processBlock => true
  | _ => false

/-- The change of an account's partner to which a request gives effect. -/
def partnerChange (step : Step) (l : Ledger) (n : AccountName) : Option PartnerChange :=
  if step.endsBlock && step.granted l then l.state.duePartner (step.onTime l).head.time n else none

end Step

/-- Two states agree in the partners of all accounts and in the changes that wait. -/
structure State.SamePartners (s s' : State) : Prop where
  changes : s'.partnerChanges = s.partnerChanges
  accounts : Keeps Account.recoveryPartner s.accounts s'.accounts

namespace State.SamePartners

theorem of_eq (hc : s'.partnerChanges = s.partnerChanges) (ha : s'.accounts = s.accounts) :
    s.SamePartners s' := ⟨hc, ha ▸ .refl⟩

theorem trans {s'' : State} (h : s.SamePartners s') (h' : s'.SamePartners s'') : s.SamePartners s'' :=
  ⟨h'.changes.trans h.changes, h.accounts.trans h'.accounts⟩

theorem partner?_eq (h : s.SamePartners s') : s'.partner? n = s.partner? n := h.accounts.map_eq n

theorem duePartner_eq (h : s.SamePartners s') : s'.duePartner now n = s.duePartner now n := by
  unfold duePartner
  rw [h.changes]

theorem applyReward (s : State) (now : Seconds) (p : RewardPlan) :
    s.SamePartners (s.applyReward now p) where
  changes := by
    obtain ⟨_, _, _, he⟩ := applyReward_footprint s now p
    rw [he]
  accounts := applyReward_keeps (fun _ _ => rfl) s now p

theorem payPowerDown (h : LedgerM.payPowerDown n l = (.ok events, l')) :
    l.state.SamePartners l'.state where
  changes := by
    obtain ⟨_, _, _, rfl⟩ := LedgerM.payPowerDown_footprint h
    rfl
  accounts := LedgerM.payPowerDown_keeps (fun _ _ => rfl) (fun _ _ => rfl) (fun _ _ => rfl)
    (fun _ _ _ => rfl) h

theorem processGrant {block : Nat} {id : GrantId} {g : Grant}
    (h : s.processGrant block id g = .ok (s', events)) : s.SamePartners s' where
  changes := by
    obtain ⟨_, _, _, rfl⟩ := processGrant_footprint h
    rfl
  accounts := by
    obtain rfl | ⟨shares, -, rfl⟩ := processGrant_ok h
    · exact .refl
    · exact afterShares_keeps (fun _ _ => rfl) s block id g shares

theorem returnDelegations (s : State) (now : Seconds) :
    s.SamePartners (s.returnDelegations now).1 where
  changes := by
    obtain ⟨_, _, he⟩ := returnDelegations_footprint s now
    rw [he]
  accounts := returnDelegations_keeps (fun _ _ => rfl) s now

theorem foldl_deactivate (contents : List ContentId) (l : Ledger) :
    l.state.SamePartners (contents.foldl Ledger.deactivate l).state := by
  obtain ⟨_, _, _, _, he⟩ := Ledger.foldl_deactivate_footprint contents l
  rw [he]
  exact .of_eq rfl rfl

end State.SamePartners

/-- What no operation does keeps the partners, but for the changes that are due. -/
theorem Drift.partners (h : Drift l l') : l.state.SamePartners l'.state ∨
    l' = { l with state := l.state.changePartners l.head.time } := by
  cases h with
  | @reward _ plan => exact .inl (.applyReward l.state l.head.time plan)
  | payment h => exact .inl (.payPowerDown h)
  | upkeep h =>
    cases h with
    | grant _ h => exact .inl (.processGrant h)
    | partners => exact .inr rfl
    | returns => exact .inl (.returnDelegations l.state l.head.time)
    | deactivation content => exact .inl (.foldl_deactivate [content] l)
    | requests | history | proposals | clock => exact .inl (.of_eq rfl rfl)

namespace State

theorem partner?_changePartner (s : State) (k n : AccountName) : (s.changePartner k).partner? n =
    if k = n then (s.partner? n).map (partnerAfter (s.partnerChanges.get? n)) else s.partner? n := by
  unfold changePartner
  split
  · rename_i hnone
    split
    · subst k
      rw [hnone, map_partnerAfter_none]
    · rfl
  · rename_i c hc
    unfold partner? modifyAccount
    dsimp only
    rw [get?_modify]
    split
    · subst k
      rw [hc, Option.map_map, Option.map_map]
      rfl
    · rfl

theorem get?_partnerChanges_changePartner (s : State) (k n : AccountName) :
    (s.changePartner k).partnerChanges.get? n = if k = n then none else s.partnerChanges.get? n := by
  have herase := partnerChanges_foldl_changePartner [k] s
  rw [List.foldl_cons, List.foldl_cons, List.foldl_nil, List.foldl_nil] at herase
  rw [herase, get?_erase]

theorem partner?_foldl_changePartner (names : List AccountName) (s : State) (n : AccountName) :
    (names.foldl changePartner s).partner? n =
      if n ∈ names then (s.partner? n).map (partnerAfter (s.partnerChanges.get? n))
      else s.partner? n := by
  induction names generalizing s with
  | nil => rfl
  | cons k names ih =>
    rw [List.foldl_cons, ih, partner?_changePartner, get?_partnerChanges_changePartner]
    by_cases hk : k = n
    · -- After the first time there is nothing left that waits for the account.
      subst hk
      simp
    · simp [hk, Ne.symm hk]

/-- The partners that are due are taken, and the others stay. -/
theorem partner?_changePartners (h : s.partnerChanges.All fun n c => c.account = n) (now : Seconds)
    (n : AccountName) : (s.changePartners now).partner? n =
      (s.partner? n).map (partnerAfter (s.duePartner now n)) := by
  unfold changePartners duePartner
  rw [partner?_foldl_changePartner]
  simp only [h.mem_picked]
  cases hc : s.partnerChanges.get? n with
  | none => simp
  | some c => cases hd : c.isDue now <;> simp [hd, Option.filter]

end State

theorem State.partner?_isSome : (s.partner? n).isSome = s.accounts.contains n := by
  rw [partner?, Option.isSome_map, contains]

namespace Operation.Effect

theorem partner?_eq (h : op.Effect l l') (hn : l.state.accounts.contains n = true) :
    l'.state.partner? n = l.state.partner? n := by
  cases op with
  | accountCreate op =>
    cases h with | accountCreate hc =>
    exact AccountCreate.map_commit (fun _ _ => rfl) hc hn _
  | recoverAccount op =>
    cases h
    unfold State.partner?
    dsimp only
    rw [RecoverAccount.accounts_commit]
    have hkeeps : Keeps Account.recoveryPartner l.state.accounts (l.state.accounts.modify op.account
        fun a => { a with lastRecovery := l.head.time }) := .modify_self fun _ => rfl
    exact hkeeps.map_eq n
  | _ => exact ((h.keepsRecovery (fun _ he => by cases he) fun _ he => by cases he).map Prod.fst).map_eq n

end Operation.Effect

namespace LedgerM

theorem samePartners_processGrants (l : Ledger) : l.state.SamePartners (processGrants l).2.state := by
  refine collect_preserves (P := fun l' => l.state.SamePartners l'.state) (fun id l' h => h.trans ?_) _
    (.of_eq rfl rfl)
  obtain h | ⟨g, s, events, -, hs, h⟩ := processGrant_snd id l' <;> rw [h]
  · exact .of_eq rfl rfl
  · exact .processGrant hs

/-- A maintenance gives effect to the changes that are due, and to nothing else. -/
theorem partner?_maintain (h : maintain l = (.ok events, l'))
    (hkeys : l.state.partnerChanges.All fun n c => c.account = n) : l'.state.partner? n =
      (l.state.partner? n).map (partnerAfter (l.state.duePartner l.head.time n)) := by
  obtain ⟨paid, l₁, hp, rfl, -⟩ := maintain_ok h
  have hpruned : ((l.state.dropRecoveryRequests l.head.time).changePartners l.head.time).SamePartners
      l.beforeReturns := .of_eq rfl rfl
  have hbefore := hpruned.trans (.returnDelegations l.beforeReturns l.head.time)
  have hpaid : l.beforePayments.state.SamePartners l₁.state :=
    ((collects_of_ok hp).invariant (P := fun l' => l.beforePayments.state.SamePartners l'.state)
      (fun _ _ _ _ h hs => hs.trans (.payPowerDown h)) (.of_eq rfl rfl)).1
  have hafter : l₁.state.SamePartners (l₁.afterPayments l.head.time).state :=
    .trans (.foldl_deactivate (l₁.state.overdueContents l₁.head.time) l₁) (.of_eq rfl rfl)
  rw [((hbefore.trans hpaid).trans hafter).partner?_eq]
  exact State.partner?_changePartners (s := l.state.dropRecoveryRequests l.head.time) hkeys l.head.time n

/-- A block that is refused gives effect to nothing. -/
theorem partner?_processBlock (hkeys : l.state.partnerChanges.All fun n c => c.account = n) :
    (processBlock l).2.state.partner? n = (l.state.partner? n).map (partnerAfter
      (if (processBlock l).1.isOk then l.state.duePartner l.head.time n else none)) := by
  rcases h : processBlock l with ⟨e | events, l'⟩
  · rw [atomically_error h]
    exact (map_partnerAfter_none _).symm
  · exact partner?_maintain (atomically_ok h) hkeys

theorem partner?_endBlock {seconds : Seconds}
    (hkeys : l.state.partnerChanges.All fun n c => c.account = n) :
    (endBlock seconds l).2.state.partner? n = (l.state.partner? n).map (partnerAfter
      (if (endBlock seconds l).1.isOk then l.state.duePartner (l.head.advance seconds).time n
        else none)) := by
  have hgrants : l.state.SamePartners (l.afterGrants seconds).state :=
    samePartners_processGrants { l with head := l.head.advance seconds }
  obtain ⟨hok, h⟩ | ⟨hok, h⟩ := endBlock_cases seconds l <;> rw [hok, h]
  · exact hgrants.partner?_eq.trans (map_partnerAfter_none _).symm
  · rw [partner?_processBlock (hgrants.changes ▸ hkeys), hgrants.partner?_eq, hgrants.duePartner_eq,
      l.afterGrants_time]

end LedgerM

namespace Step

open LedgerM

theorem CarriesOut.partner?_next {step : Step} (h : step.CarriesOut l)
    (hn : l.state.accounts.contains n = true) : (step.next l).state.partner? n = l.state.partner? n := by
  cases h with
  | refused h => rw [next, h]
  | granted h hc =>
    rw [next, h]
    refine ((collects_of_ok hc).invariant
      (P := fun l' => l'.state.partner? n = l.state.partner? n) (fun op _ l₁ _ ho hp => ?_) rfl).1
    have hn₁ : l₁.state.accounts.contains n = true := by
      rw [← State.partner?_isSome, hp, State.partner?_isSome, hn]
    rw [(Operation.effect_of_run (apply_ok ho)).partner?_eq hn₁, hp]

theorem Distributes.partner?_next {step : Step} (h : step.Distributes l) :
    (step.next l).state.partner? n = l.state.partner? n := by
  cases h with
  | refused h => rw [next, h]
  | @granted _ plan h =>
    rw [next, h]
    exact (State.SamePartners.applyReward l.state l.head.time plan).partner?_eq

/-- A request that ends no block leaves the partners of all accounts that there are. -/
theorem partner?_next_of_not_endsBlock (step : Step) (h : step.endsBlock = false)
    (hn : l.state.accounts.contains n = true) : (step.next l).state.partner? n = l.state.partner? n := by
  cases step with
  | operation op => exact (carriesOut_operation op l).partner?_next hn
  | transaction ops => exact (carriesOut_transaction ops l).partner?_next hn
  | endBlock | processBlock => cases h
  | processGrants =>
    rw [next, perform, run_return_snd]
    exact (samePartners_processGrants l).partner?_eq
  | distributeReward budget => exact (distributes_reward budget l).partner?_next
  | rewardHolders research amount => exact (distributes_holders research amount l).partner?_next
  | setClock time block => rfl

/-- After a request the partner of an account is the one that the request has given effect to, or the one
that it was. -/
theorem partner?_next (step : Step) (hkeys : l.state.partnerChanges.All fun n c => c.account = n)
    (hn : l.state.accounts.contains n = true) : (step.next l).state.partner? n =
      (l.state.partner? n).map (partnerAfter (step.partnerChange l n)) := by
  unfold partnerChange
  cases hends : step.endsBlock with
  | false =>
    rw [step.partner?_next_of_not_endsBlock hends hn, Bool.false_and, if_neg Bool.false_ne_true,
      map_partnerAfter_none]
  | true =>
    unfold next granted
    rw [Bool.true_and]
    cases step with
    | endBlock seconds =>
      rw [perform, run_return_snd, run_return_isOk]
      exact partner?_endBlock hkeys
    | processBlock =>
      rw [perform, run_return_snd, run_return_isOk]
      exact partner?_processBlock hkeys
    | _ => cases hends

theorem partnerChange_eq_none {step : Step} (hc : l.state.partnerChanges.get? n = none) :
    step.partnerChange l n = none := by
  rw [partnerChange, State.duePartner, hc, Option.filter_none, ite_self]

/-- Only what waits, and has waited for long enough, takes effect. -/
theorem partnerChange_eq_some {step : Step} {change : PartnerChange}
    (h : step.partnerChange l n = some change) :
    l.state.partnerChanges.get? n = some change ∧ change.effective ≤ (step.onTime l).head.time := by
  obtain ⟨-, hdue⟩ := Option.ite_none_right_eq_some.1 h
  obtain ⟨hc, hdue⟩ := Option.filter_eq_some_iff.1 hdue
  exact ⟨hc, of_decide_eq_true hdue⟩

/-- What has waited for long enough takes effect with the next block. -/
theorem partnerChange_of_due {step : Step} {change : PartnerChange} (hends : step.endsBlock = true)
    (hgranted : step.granted l = true) (hc : l.state.partnerChanges.get? n = some change)
    (hdue : change.effective ≤ (step.onTime l).head.time) : step.partnerChange l n = some change := by
  rw [partnerChange, hends, hgranted, Bool.and_self, if_pos rfl, State.duePartner, hc]
  exact Option.filter_some_pos (decide_eq_true hdue)

end Step

end ResearchLedger
