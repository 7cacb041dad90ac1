import ResearchLedger.Proofs.Loans
import ResearchLedger.Proofs.Money

/-! What accounts say of their stake stays true of their loans, through returns, payments and all
operations, and a power-down under way never reaches for stake that is lent. -/
namespace ResearchLedger

variable {s : State} {l l' : Ledger} {config : Config} {genesis : Genesis} {a : Account}
  {n : AccountName}

open SortedMap

namespace State

variable {key : Seconds × Nat} {e : ExpiringDelegation}

theorem expiring_returnDelegation (s : State) (key : Seconds × Nat) (e : ExpiringDelegation) :
    (s.returnDelegation key e).expiringDelegations = s.expiringDelegations.erase key := rfl

theorem returningTo_returnDelegation (he : s.expiringDelegations.get? key = some e)
    (n : AccountName) : (s.returnDelegation key e).returningTo n +
      (if e.delegator = n then e.amount else 0) = s.returningTo n := by
  have hsum := sumOf_eq_erase
    (f := fun _ (e : ExpiringDelegation) => if e.delegator = n then e.amount else 0) he
  unfold returningTo
  rw [expiring_returnDelegation, hsum]
  exact add_comm ..

theorem returningTo_nonneg (h : s.expiringDelegations.All fun _ e => 0 < e.amount)
    (n : AccountName) : 0 ≤ s.returningTo n := by
  unfold returningTo
  refine sumOf_nonneg fun k e he => ?_
  split
  · exact (h k e he).le
  · exact le_refl _

namespace Lent

theorem lentBy_nonneg (h : s.Lent) (n : AccountName) : 0 ≤ s.lentBy n := by
  unfold lentBy Loans.sumFor
  refine sumOf_nonneg fun k d hd => ?_
  split
  · exact (h.delegations k d hd).2.1.le
  · exact le_refl _

/-- As much is bound as comes back. -/
theorem amount_le_delegated (h : s.Lent) (he : s.expiringDelegations.get? key = some e)
    (ha : s.accounts.get? e.delegator = some a) : e.amount ≤ a.delegated := by
  have hsum := returningTo_returnDelegation he e.delegator
  have hlent := h.lentBy_nonneg e.delegator
  have hrest : 0 ≤ (s.returnDelegation key e).returningTo e.delegator :=
    returningTo_nonneg (h.expiring.mono fun _ _ h => h.2.1).erase _
  rw [if_pos rfl] at hsum
  rw [(h.accounts _ _ ha).delegated]
  linarith

theorem returnDelegation (h : s.Lent) (he : s.expiringDelegations.get? key = some e) :
    (s.returnDelegation key e).Lent := by
  have hcontains (n : AccountName) : (s.returnDelegation key e).accounts.contains n =
      s.accounts.contains n := contains_modify
  refine ⟨?_, ?_, ?_⟩
  · intro n b hget
    have hsum := returningTo_returnDelegation he n
    change (s.accounts.modify e.delegator _).get? n = some b at hget
    change b.Lends (s.lentBy n) (s.borrowedBy n) _
    rw [get?_modify] at hget
    split at hget
    · subst n
      obtain ⟨a, ha, rfl⟩ := Option.map_eq_some_iff.1 hget
      have hle := h.amount_le_delegated he ha
      rw [if_pos rfl] at hsum
      exact (h.accounts _ _ ha).giveBack (h.expiring _ _ he).2.1.le hle hsum
    · rw [if_neg ‹_›, add_zero] at hsum
      rw [hsum]
      exact h.accounts _ _ hget
  · simp only [hcontains]
    exact h.delegations
  · simp only [hcontains]
    rw [expiring_returnDelegation]
    exact h.expiring.erase

/-- Loans that are given back one after the other leave the queue with what they come to. -/
theorem foldl_returnDelegation {es : List ((Seconds × Nat) × ExpiringDelegation)} (h : s.Lent)
    (hn : (es.map (·.1)).Nodup) (he : ∀ x ∈ es, s.expiringDelegations.get? x.1 = some x.2) :
    (es.foldl (fun s e => s.returnDelegation e.1 e.2) s).Lent ∧
    (es.foldl (fun s e => s.returnDelegation e.1 e.2) s).delegations = s.delegations ∧
    ∀ n, (es.foldl (fun s e => s.returnDelegation e.1 e.2) s).returningTo n +
      (es.map fun e => if e.2.delegator = n then e.2.amount else 0).sum = s.returningTo n := by
  induction es generalizing s with
  | nil => exact ⟨h, rfl, fun n => add_zero _⟩
  | cons x es ih =>
    obtain ⟨hx, hn⟩ := List.nodup_cons.1 hn
    have hfirst := he x List.mem_cons_self
    obtain ⟨hl, hd, hsum⟩ := ih (h.returnDelegation hfirst) hn fun y hy => by
      have hne : x.1 ≠ y.1 := fun hxy => hx (List.mem_map.2 ⟨y, hy, hxy.symm⟩)
      rw [expiring_returnDelegation, get?_erase_of_ne hne]
      exact he y (List.mem_cons_of_mem _ hy)
    refine ⟨hl, hd, fun n => ?_⟩
    rw [List.foldl_cons, List.map_cons, List.sum_cons, ← returningTo_returnDelegation hfirst n,
      ← hsum n]
    abel

/-- All that is due is given back in full: nothing is bound any less than it was, but for that. -/
theorem returnDelegations (h : s.Lent) (now : Seconds) : (s.returnDelegations now).1.Lent ∧
    ∀ n a b, s.accounts.get? n = some a → (s.returnDelegations now).1.accounts.get? n = some b →
      b.delegated = a.delegated -
        ((s.dueDelegations now).map fun e => if e.2.delegator = n then e.2.amount else 0).sum := by
  have hn : ((s.dueDelegations now).map (·.1)).Nodup :=
    ((List.filter_sublist).map _).nodup (nodup_keys _)
  have hdue : ∀ x ∈ s.dueDelegations now, s.expiringDelegations.get? x.1 = some x.2 :=
    fun _ hx => mem_entries_iff.1 (List.mem_filter.1 hx).1
  obtain ⟨hl, hd, hsum⟩ := h.foldl_returnDelegation hn hdue
  refine ⟨hl, fun n a b ha hb => ?_⟩
  have hla := (h.accounts n a ha).delegated
  have hlb := (hl.accounts n b hb).delegated
  have hsame : State.lentBy (s.returnDelegations now).1 n = s.lentBy n := congrArg _ hd
  change b.delegated = State.lentBy (s.returnDelegations now).1 n + _ at hlb
  rw [hlb, hla, hsame, ← hsum n]
  abel

end Lent

end State

/-- Nobody has borrowed more than all stake that there is. -/
theorem State.Lent.received_le_stakes (h : s.Lent) (ha : s.accounts.get? n = some a) :
    a.received ≤ s.stakes := by
  have hall : s.borrowedBy n ≤ s.delegations.sumOf fun _ d => d.amount := by
    unfold State.borrowedBy Loans.sumFor
    refine sumOf_le_sumOf fun k d hd => ?_
    split
    · exact le_refl _
    · exact (h.delegations k d hd).2.1.le
  -- Every loan is counted with its owner.
  have howners : (s.delegations.sumOf fun _ d => d.amount) =
      s.accounts.sumOf fun n _ => s.lentBy n := by
    unfold State.lentBy Loans.sumFor
    rw [sumOf_comm]
    refine sumOf_congr fun k d hd => ?_
    obtain ⟨b, hb⟩ := contains_iff.1 (h.delegations k d hd).2.2.1
    rw [sumOf_eq_single hb fun n _ _ hne => if_neg hne.symm, if_pos rfl]
  have hstakes : (s.accounts.sumOf fun n _ => s.lentBy n) ≤ s.stakes := by
    refine sumOf_le_sumOf fun k b hb => ?_
    have hlb := h.accounts k b hb
    have hfree := hlb.free_nonneg
    have hdue := State.returningTo_nonneg (h.expiring.mono fun _ _ h => h.2.1) k
    rw [hlb.delegated] at hfree
    linarith
  rw [(h.accounts n a ha).received]
  exact hall.trans (howners.trans_le hstakes)

namespace LedgerM

variable {amount deposit : Amount} {r : WithdrawRoute} {rs : List WithdrawRoute}

theorem RoutePaid.lent (h : RoutePaid amount r l deposit l')
    (hs : l.state.accounts.All fun _ a => a.Solvent) (hl : l.state.Lent) : l'.state.Lent := by
  cases h with
  | skip => exact hl
  | stake _ hp =>
    have hstaked : (l.state.modifyAccount r.target (·.stake deposit)).Lent :=
      hl.modify fun a ha hla => hla.stake (hs _ _ ha).commonTokens_le hp.le
    refine State.Lent.applyProxyEffects ?_ _
    exact hstaked.keeps .refl rfl rfl rfl
  | balance => exact hl.keeps (.modify_self fun _ => rfl) rfl rfl rfl

theorem RoutesPaid.lent (h : RoutesPaid amount rs l deposit l')
    (hs : l.state.accounts.All fun _ a => a.Solvent) (hl : l.state.Lent) : l'.state.Lent := by
  refine (h.preserves (P := fun l => (l.state.accounts.All fun _ a => a.Solvent) ∧ l.state.Lent)
    (fun _ _ _ _ h hp => ?_) ⟨hs, hl⟩).2
  exact ⟨h.solvent hp.1, h.lent hp.1 hp.2⟩

/-- Until its source takes note of it in the end, a payment leaves the loans in order and changes no
power-down, and its routes alone change the stake of the source. -/
theorem payPowerDown_settles {name : AccountName} {events : List Event}
    (h : payPowerDown name l = (.ok events, l')) :
    ∃ (a : Account) (s : State), l.state.accounts.get? name = some a ∧
      (l.state.Solvent → l.state.Lent → s.Lent) ∧
      Keeps Account.powerDown l.state.accounts s.accounts ∧
      s.stakeOf name = (midPayment l name).state.stakeOf name ∧
      l'.state = s.modifyAccount name
        (·.afterPayment a.nextPayment l.state.config.withdrawIntervalSeconds) := by
  obtain ⟨a, l₁, routed, effects, ha, rfl, hr, -, rfl⟩ := payPowerDown_ok h
  have hroutes : Keeps Account.powerDown l.state.accounts (midPayment l name).state.accounts :=
    hr.keeps (fun _ _ => rfl) (fun _ _ => rfl) fun _ _ => rfl
  have heffects : Keeps Account.powerDown (midPayment l name).state.accounts
      ((midPayment l name).state.applyProxyEffects effects).accounts :=
    State.applyProxyEffects_keeps (fun _ _ => rfl) effects
  have hconfig : ((midPayment l name).state.applyProxyEffects effects).config = l.state.config := by
    obtain ⟨_, _, _, he⟩ := hr.footprint
    rw [State.applyProxyEffects_eq, he]
  refine ⟨a, (((midPayment l name).state.applyProxyEffects effects).debitExpertise name
      commonDiscipline a.nextPayment).credit name (a.nextPayment - routed), ha,
    fun hs hl => ((hr.lent hs.accounts hl).applyProxyEffects effects).keeps
      (.modify_self fun _ => rfl) rfl rfl rfl,
    (hroutes.trans heffects).modify fun _ => rfl,
    State.stakeOf_credit.trans (State.stakeOf_applyProxyEffects _ effects name), ?_⟩
  rw [← hconfig]
  rfl

theorem payPowerDown_lent {name : AccountName} {events : List Event}
    (h : payPowerDown name l = (.ok events, l')) (hs : l.state.Solvent) (hl : l.state.Lent) :
    l'.state.Lent := by
  obtain ⟨a, s, ha, hlent, hk, -, he⟩ := payPowerDown_settles h
  rw [he]
  refine (hlent hs hl).modify fun b hb hlb => hlb.afterPayment ?_
  -- The schedule by which the payment was fixed is still that of the account.
  obtain ⟨a', ha', hdown⟩ := hk.exists_of_get? hb
  obtain rfl := Option.some.inj (ha.symm.trans ha')
  rw [hdown, (hl.accounts _ _ ha).nextPayment_eq]
  exact min_le_right _ _

end LedgerM

theorem AccountCreate.lent {op : AccountCreate} {u : Unit} (now : Seconds)
    (h : op.check s = .ok u) (hs : s.Lent) : (op.commit now s).Lent := by
  have hd : (s.debit op.creator op.fee.amount).Lent :=
    hs.keeps (.modify_self fun _ => rfl) rfl rfl rfl
  have hnew : (op.account now).Lends 0 0 0 := ⟨rfl, rfl, le_refl _, le_refl _⟩
  have hs' := hd.insert (contains_modify.trans (check_ok h).2.1) hnew
  unfold AccountCreate.commit
  dsimp only
  split <;> exact hs'.keeps .refl rfl rfl rfl

theorem Operation.Effect.lent {op : Operation} (h : op.Effect l l') (hs : l.state.Solvent)
    (hl : l.state.Lent) : l'.state.Lent := by
  have hk := h.keepsCore
  cases op with
  | accountCreate op => cases h with | accountCreate hc => exact AccountCreate.lent _ hc hl
  | transfer op =>
    cases h
    exact hl.keeps (.modify_both (fun _ => rfl) fun _ => rfl) rfl rfl rfl
  | transferToCommonTokens op =>
    cases h with | transferToCommonTokens hc =>
    obtain ⟨hp, -, ⟨a, ha, hle⟩, -⟩ := TransferToCommonTokens.plan_ok hc
    have hd : (l.state.debit op.sender op.amount.amount).Lent :=
      hl.keeps (.modify_self fun _ => rfl) rfl rfl rfl
    have hstaked := hd.modify (n := op.target) (f := (·.stake op.amount.amount)) fun b hb hlb =>
      hlb.stake ((hs.debit ha hle).accounts _ _ hb).commonTokens_le hp.le
    refine State.Lent.applyProxyEffects ?_ _
    exact hstaked.keeps .refl rfl rfl rfl
  | withdrawCommonTokens op =>
    cases h with | withdrawCommonTokens hc =>
    obtain ⟨-, hw, ht, a, ha, hle⟩ := WithdrawCommonTokens.plan_ok hc
    refine hl.modify fun b hb hlb => ?_
    obtain rfl := Option.some.inj (ha.symm.trans hb)
    exact { hlb with withdrawn := hw.trans_le ht, free := by dsimp only; rw [hw]; linarith }
  | delegateCommonTokens op =>
    cases h with | delegateCommonTokens hc =>
    obtain ⟨hne, hb, a, ha, hadm⟩ := DelegateCommonTokens.plan_ok hc
    exact hadm.lent hl hne hb ha
  | createGrant op =>
    cases h
    exact hl.keeps (.modify_self fun _ => rfl) rfl rfl rfl
  | _ =>
    have hk := (hk rfl).map Account.dues
    cases h.footprint
    exact hl.keeps hk rfl rfl rfl

theorem Upkeep.lent (h : Upkeep l l') (hl : l.state.Lent) : l'.state.Lent := by
  cases h with
  | @grant id g _ _ _ h =>
    obtain rfl | ⟨shares, -, rfl⟩ := State.processGrant_ok h
    · exact hl
    · have hk := State.afterShares_keeps (f := Account.dues) (fun _ _ => rfl) l.state l.head.block id
        g shares
      obtain ⟨_, _, _, he⟩ := State.afterShares_footprint l.state l.head.block id g shares
      rw [he] at hk ⊢
      exact hl.keeps hk rfl rfl rfl
  | partners =>
    have hk := State.changePartners_keeps (f := Account.dues) (fun _ _ => rfl) l.state l.head.time
    obtain ⟨_, _, he⟩ := State.changePartners_footprint l.state l.head.time
    rw [he] at hk ⊢
    exact hl.keeps hk rfl rfl rfl
  | returns => exact (hl.returnDelegations _).1
  | deactivation content =>
    obtain ⟨_, _, _, _, he⟩ := Ledger.deactivate_footprint l content
    rw [he]
    exact hl.keeps .refl rfl rfl rfl
  | requests | history | proposals | clock => exact hl.keeps .refl rfl rfl rfl

theorem Change.lent (h : Change l l') (hs : l.state.Solvent) (hl : l.state.Lent) :
    l'.state.Lent := by
  cases h with
  | operation h => exact h.lent hs hl
  | @reward _ plan =>
    have hk := State.applyReward_keeps (f := Account.dues) (fun _ _ => rfl) l.state l.head.time plan
    obtain ⟨_, _, _, he⟩ := State.applyReward_footprint l.state l.head.time plan
    rw [he] at hk ⊢
    exact hl.keeps hk rfl rfl rfl
  | payment h => exact LedgerM.payPowerDown_lent h hs hl
  | upkeep h => exact h.lent hl

/-- Rows of changes keep the loans in order. -/
theorem Changes.lent (h : Changes l l') (hs : l.Sound) (hl : l.state.Lent) : l'.state.Lent := by
  have : l'.Sound ∧ l'.state.Lent := by
    induction h with
    | refl => exact ⟨hs, hl⟩
    | tail _ hc ih => exact ⟨hc.sound ih.1, hc.lent ih.1.solvent ih.2⟩
  exact this.2

theorem State.Lent.ofGenesis (h : ofGenesis config genesis = .ok s) : s.Lent := by
  obtain ⟨ha, hd, he⟩ : (s.accounts.All fun _ a => a.Lends 0 0 0) ∧ s.delegations = ∅ ∧
      s.expiringDelegations = ∅ := by
    refine ofGenesis_invariant (P := fun s => (s.accounts.All fun _ a => a.Lends 0 0 0) ∧
      s.delegations = ∅ ∧ s.expiringDelegations = ∅) h (fun _ => ⟨.empty, rfl, rfl⟩)
      fun s s' hc hs => ?_
    cases hc with
    | discipline => exact hs
    | @account g _ _ _ hct =>
      refine ⟨hs.1.insert ⟨rfl, rfl, le_refl _, ?_⟩, hs.2⟩
      change (0 : Amount) - 0 ≤ g.commonTokens - 0
      linarith
    | witness => exact hs
  constructor
  · unfold lentBy borrowedBy returningTo
    rw [hd, he]
    exact ha
  · rw [hd]
    exact .empty
  · rw [he]
    exact .empty

namespace Ledger

theorem Reachable.lent (h : l.Reachable config genesis) (hg : genesis.Storable) : l.state.Lent := by
  refine (h.invariant (P := fun l => l.Sound ∧ l.state.Lent) (fun _ h₀ => ?_) fun _ _ hc hl => ?_).2
  · exact ⟨.ofGenesis h₀ hg, .ofGenesis (ofGenesis_ok h₀).1⟩
  · exact ⟨hc.sound hl.1, hc.lent hl.1.solvent hl.2⟩

/-- In every reachable ledger stored loans and calls for them are positive; each account has bound
what it has lent and what is on its way back, and borrowed what others have lent it, which is no
more than the stake of all; and what its power-down still takes is there and not bound. In whatever
follows, payments are bounded by rate and schedule alone, and what comes back is given back in full. -/
theorem Reachable.lending_exact (h : l.Reachable config genesis) (hg : genesis.Storable) :
    (∀ k d, l.state.delegations.get? k = some d → (d.delegator, d.delegatee) = k ∧ 0 < d.amount) ∧
    (∀ k e, l.state.expiringDelegations.get? k = some e → 0 < e.amount) ∧
    (∀ n a, l.state.accounts.get? n = some a →
      a.delegated = l.state.lentBy n + l.state.returningTo n ∧
      a.received = l.state.borrowedBy n ∧ a.received ≤ l.state.stakes ∧
      0 ≤ max (a.powerDown.total - a.powerDown.withdrawn) 0 ∧
      max (a.powerDown.total - a.powerDown.withdrawn) 0 ≤ a.commonTokens - a.delegated) ∧
    ∀ l', Changes l l' → ∀ n a, l'.state.accounts.get? n = some a →
      max (a.powerDown.total - a.powerDown.withdrawn) 0 =
        a.powerDown.total - a.powerDown.withdrawn ∧
      max (a.commonTokens - a.delegated) 0 = a.commonTokens - a.delegated ∧
      a.nextPayment = min a.powerDown.rate (a.powerDown.total - a.powerDown.withdrawn) ∧
      ∀ now b, (l'.state.returnDelegations now).1.accounts.get? n = some b → b.delegated =
        a.delegated - ((l'.state.dueDelegations now).map fun e =>
          if e.2.delegator = n then e.2.amount else 0).sum := by
  have hl := h.lent hg
  refine ⟨fun k d hd => ?_, fun k e he => (hl.expiring k e he).2.1, fun n a ha => ?_,
    fun l' hc n a ha => ?_⟩
  · obtain ⟨hk, hpos, -⟩ := hl.delegations k d hd
    exact ⟨hk, hpos⟩
  · have hla := hl.accounts n a ha
    exact ⟨hla.delegated, hla.received, hl.received_le_stakes ha, le_max_right _ _,
      hla.pending_eq.trans_le hla.free⟩
  · have hl' := hc.lent (h.sound hg) hl
    have hla := hl'.accounts n a ha
    exact ⟨hla.pending_eq, max_eq_left hla.free_nonneg, hla.nextPayment_eq, fun now b hb =>
      (hl'.returnDelegations now).2 n a b ha hb⟩

end Ledger

namespace Sample

/-- Alice lends to bob, calls a part back, and powers down; a block pays her and returns the part. -/
def lending : List Step :=
  [.operation (.delegateCommonTokens ⟨alice, bob, 1000⟩),
    .operation (.delegateCommonTokens ⟨alice, bob, 400⟩),
    .operation (.withdrawCommonTokens ⟨alice, 130000⟩)]

def lent : Ledger := (founded 200000 300 20).after lending

/-- Alice has lent 400 and has 600 on the way back, and the next payment takes its rate. -/
theorem lent_exact : lent.state.lentBy alice = 400 ∧ lent.state.returningTo alice = 600 ∧
    (lent.state.accounts.get? alice).map Account.delegated = some 1000 ∧
    (lent.state.accounts.get? alice).map Account.nextPayment = some 10000 ∧
    ∀ n a, lent.state.accounts.get? n = some a →
      a.delegated = lent.state.lentBy n + lent.state.returningTo n ∧
      a.nextPayment = min a.powerDown.rate (a.powerDown.total - a.powerDown.withdrawn) :=
  have h := @Ledger.Reachable.lending_exact lent {} (founders 200000 300 20)
    ⟨founded 200000 300 20, lending, rfl, by decide, rfl⟩ (by decide)
  ⟨by decide +kernel, by decide +kernel, by decide +kernel, by decide +kernel, fun n a ha =>
    ⟨(h.2.2.1 n a ha).1, (h.2.2.2 lent .refl n a ha).2.2.1⟩⟩

end Sample

end ResearchLedger
