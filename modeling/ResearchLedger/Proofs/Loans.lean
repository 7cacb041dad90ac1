import ResearchLedger.Proofs.Solvency

/-! Loans of stake: what they come to for their owners and borrowers, and what a change of a loan
does to these sums. -/
namespace ResearchLedger

variable {s s' : State} {a b : Account} {n : AccountName} {x given taken due : Amount}

open SortedMap

/-- All loans by owner and borrower. -/
abbrev Loans := SortedMap (AccountName × AccountName) Delegation

namespace Loans

variable {m : Loans} {k : AccountName × AccountName}

/-- What the loans of an account come to, seen from the side of their owners or borrowers. -/
def sumFor (side : AccountName × AccountName → AccountName) (n : AccountName) (m : Loans) : Amount :=
  m.sumOf fun k d => if side k = n then d.amount else 0

/-- The loans with one of them set anew, or ended. -/
def put (k : AccountName × AccountName) (d : Option Delegation) (m : Loans) : Loans :=
  match d with
  | some d => m.insert k d
  | none => m.erase k

theorem get?_put_of_ne {k' : AccountName × AccountName} (d : Option Delegation) (h : k ≠ k') :
    (m.put k d).get? k' = m.get? k' := by
  cases d with
  | none => exact get?_erase_of_ne h
  | some d => exact get?_insert_of_ne h

/-- A loan counts on its own side by what it is now and no longer by what it was. -/
theorem sumFor_put (side : AccountName × AccountName → AccountName) (d : Option Delegation) :
    (m.put k d).sumFor side n = m.sumFor side n +
      if side k = n then d.elim 0 (·.amount) - (m.get? k).elim 0 (·.amount) else 0 := by
  have hold : m.sumFor side n = (if side k = n then (m.get? k).elim 0 (·.amount) else 0) +
      Loans.sumFor side n (m.erase k) := by
    cases hm : m.get? k with
    | none => simp [erase_of_none hm]
    | some e => exact sumOf_eq_erase hm
  have hnew : (m.put k d).sumFor side n = (if side k = n then d.elim 0 (·.amount) else 0) +
      Loans.sumFor side n (m.erase k) := by
    cases d with
    | none => simp [put]
    | some d => exact sumOf_insert
  rw [hold, hnew]
  split <;> linarith

theorem sumFor_eq_zero {side : AccountName × AccountName → AccountName}
    (h : ∀ k d, m.get? k = some d → side k ≠ n) : m.sumFor side n = 0 :=
  sumOf_eq_zero fun k d hd => if_neg (h k d hd)

end Loans

namespace State

/-- What an account has lent. -/
def lentBy (s : State) (n : AccountName) : Amount := Loans.sumFor Prod.fst n s.delegations

/-- What an account has borrowed. -/
def borrowedBy (s : State) (n : AccountName) : Amount := Loans.sumFor Prod.snd n s.delegations

/-- What is on its way back to an account. -/
def returningTo (s : State) (n : AccountName) : Amount :=
  s.expiringDelegations.sumOf fun _ e => if e.delegator = n then e.amount else 0

end State

/-- The accounts of somebody with given loans: the power-down takes no more than what is free. -/
structure Account.Lends (a : Account) (given taken due : Amount) : Prop where
  delegated : a.delegated = given + due
  received : a.received = taken
  withdrawn : a.powerDown.withdrawn ≤ a.powerDown.total
  free : a.powerDown.total - a.powerDown.withdrawn ≤ a.commonTokens - a.delegated

/-- What an account says of its stake. -/
def Account.dues (a : Account) : Amount × Amount × Amount × PowerDown :=
  (a.commonTokens, a.delegated, a.received, a.powerDown)

namespace Account.Lends

theorem of_dues (h : a.Lends given taken due) (he : b.dues = a.dues) :
    b.Lends given taken due := by
  unfold dues at he
  simp only [Prod.mk.injEq] at he
  obtain ⟨hc, hd, hr, hp⟩ := he
  constructor
  · rw [hd]; exact h.delegated
  · rw [hr]; exact h.received
  · rw [hp]; exact h.withdrawn
  · rw [hp, hc, hd]; exact h.free

theorem pending_eq (h : a.Lends given taken due) :
    a.powerDown.pending = a.powerDown.total - a.powerDown.withdrawn :=
  max_eq_left (Int.sub_nonneg_of_le h.withdrawn)

theorem free_nonneg (h : a.Lends given taken due) : 0 ≤ a.commonTokens - a.delegated :=
  (Int.sub_nonneg_of_le h.withdrawn).trans h.free

/-- A payment is bounded by its rate and its schedule alone. -/
theorem nextPayment_eq (h : a.Lends given taken due) : a.nextPayment =
    min a.powerDown.rate (a.powerDown.total - a.powerDown.withdrawn) := by
  unfold Account.nextPayment
  rw [h.pending_eq, max_eq_left h.free_nonneg]
  exact min_eq_left ((min_le_right _ _).trans h.free)

theorem stake (h : a.Lends given taken due) (hm : a.commonTokens ≤ Amount.max)
    (hx : 0 ≤ x) : (a.stake x).Lends given taken due := by
  have hgrow : a.commonTokens ≤ Amount.clamp (a.commonTokens + x) :=
    Amount.le_clamp (Int.le_add_of_nonneg_right hx) hm
  exact { h with free := h.free.trans (Int.sub_le_sub_right hgrow _) }

theorem afterPayment {interval : Seconds} (h : a.Lends given taken due)
    (hx : x ≤ a.powerDown.total - a.powerDown.withdrawn) :
    (a.afterPayment x interval).Lends given taken due := by
  have hfree := h.free
  have hdown : (a.afterPayment x interval).powerDown.total = a.powerDown.total ∧
      (a.afterPayment x interval).powerDown.withdrawn = a.powerDown.withdrawn + x := by
    unfold Account.afterPayment
    dsimp only
    split <;> exact ⟨rfl, rfl⟩
  refine ⟨h.delegated, h.received, ?_, ?_⟩
  · rw [hdown.1, hdown.2]
    linarith
  · rw [hdown.1, hdown.2]
    change _ ≤ a.commonTokens - x - a.delegated
    linarith

/-- More is bound, on loan or on its way back, as far as the free stake reaches. -/
theorem lend {given' due' : Amount} (h : a.Lends given taken due)
    (hx : x ≤ a.commonTokens - a.delegated - a.powerDown.pending)
    (hsum : given' + due' = given + due + x) :
    Account.Lends { a with delegated := a.delegated + x } given' taken due' := by
  rw [h.pending_eq] at hx
  refine ⟨?_, h.received, h.withdrawn, ?_⟩
  · rw [hsum, ← h.delegated]
  · dsimp only
    linarith

/-- What comes back is no longer bound. -/
theorem giveBack {due' : Amount} (h : a.Lends given taken due) (h₀ : 0 ≤ x) (hle : x ≤ a.delegated)
    (hsum : due' + x = due) :
    Account.Lends { a with delegated := max (a.delegated - x) 0 } given taken due' := by
  have hdelegated := h.delegated
  have hfree := h.free
  rw [max_eq_left (Int.sub_nonneg_of_le hle)]
  refine ⟨?_, h.received, h.withdrawn, ?_⟩ <;> dsimp only <;> linarith

end Account.Lends

/-- All accounts say of their stake what the loans are; the loans stand under their own accounts and
are not empty, and the calls for them are numbered below the counter. -/
structure State.Lent (s : State) : Prop where
  accounts : s.accounts.All fun n a => a.Lends (s.lentBy n) (s.borrowedBy n) (s.returningTo n)
  delegations : s.delegations.All fun k d => (d.delegator, d.delegatee) = k ∧ 0 < d.amount ∧
    s.accounts.contains k.1 = true ∧ s.accounts.contains k.2 = true
  expiring : s.expiringDelegations.All fun k e => k.2 < s.nextIds.expiringDelegation ∧
    0 < e.amount ∧ s.accounts.contains e.delegator = true

namespace State.Lent

/-- Only loans, calls for them and what accounts say of their stake matter. -/
theorem keeps (h : s.Lent) (hk : Keeps Account.dues s.accounts s'.accounts)
    (hd : s'.delegations = s.delegations) (he : s'.expiringDelegations = s.expiringDelegations)
    (hn : s'.nextIds.expiringDelegation = s.nextIds.expiringDelegation) : s'.Lent where
  accounts := by
    unfold lentBy borrowedBy returningTo
    rw [hd, he]
    intro n b hb
    obtain ⟨a, ha, hab⟩ := hk.exists_of_get? hb
    exact (h.accounts n a ha).of_dues hab
  delegations := by
    rw [hd]
    exact h.delegations.mono fun _ _ h => ⟨h.1, h.2.1, hk.within _ h.2.2.1, hk.within _ h.2.2.2⟩
  expiring := by
    rw [he, hn]
    exact h.expiring.mono fun _ _ h => ⟨h.1, h.2.1, hk.within _ h.2.2⟩

theorem modify {f : Account → Account} (h : s.Lent) (hf : ∀ a, s.accounts.get? n = some a →
    a.Lends (s.lentBy n) (s.borrowedBy n) (s.returningTo n) →
    (f a).Lends (s.lentBy n) (s.borrowedBy n) (s.returningTo n)) : (s.modifyAccount n f).Lent where
  accounts := h.accounts.modify_of fun a ha => hf a ha (h.accounts n a ha)
  delegations := h.delegations.mono fun _ _ h =>
    ⟨h.1, h.2.1, contains_modify.trans h.2.2.1, contains_modify.trans h.2.2.2⟩
  expiring := h.expiring.mono fun _ _ h => ⟨h.1, h.2.1, contains_modify.trans h.2.2⟩

/-- A new account has no loans. -/
theorem insert (h : s.Lent) (hn : s.accounts.contains n = false) (ha : a.Lends 0 0 0) :
    Lent { s with accounts := s.accounts.insert n a } where
  accounts := by
    have hne : ∀ k, s.accounts.contains k = true → k ≠ n := by
      rintro k hk rfl
      rw [hn] at hk
      cases hk
    have hl : s.lentBy n = 0 := Loans.sumFor_eq_zero fun k d hd =>
      hne _ (h.delegations k d hd).2.2.1
    have hb : s.borrowedBy n = 0 := Loans.sumFor_eq_zero fun k d hd =>
      hne _ (h.delegations k d hd).2.2.2
    have hr : s.returningTo n = 0 := sumOf_eq_zero fun k e he =>
      if_neg (hne _ (h.expiring k e he).2.2)
    refine All.insert h.accounts ?_
    change a.Lends (s.lentBy n) (s.borrowedBy n) (s.returningTo n)
    rwa [hl, hb, hr]
  delegations := h.delegations.mono fun _ _ h =>
    ⟨h.1, h.2.1, Within.insert _ h.2.2.1, Within.insert _ h.2.2.2⟩
  expiring := h.expiring.mono fun _ _ h => ⟨h.1, h.2.1, Within.insert _ h.2.2⟩

theorem applyProxyEffects (h : s.Lent) (e : ProxyEffects) : (s.applyProxyEffects e).Lent := by
  have hk := (applyProxyEffects_keepsCore (s := s) e).map Account.dues
  rw [applyProxyEffects_eq] at hk ⊢
  exact h.keeps hk rfl rfl rfl

end State.Lent

namespace DelegateCommonTokens

variable {op : DelegateCommonTokens} {now : Seconds} {p : Plan}

theorem Plan.accounts_commit (p : Plan) (s : State) : (p.commit s).accounts =
    (s.accounts.modify p.delegator fun a => { a with delegated := a.delegated + p.delegatedDelta }).modify
      p.delegatee fun a => { a with received := a.received + p.receivedDelta } := by
  obtain ⟨_, _, delegation, _, _, expiring⟩ := p
  cases delegation <;> cases expiring <;> rfl

theorem Plan.delegations_commit (p : Plan) (s : State) :
    (p.commit s).delegations = Loans.put (p.delegator, p.delegatee) p.delegation s.delegations := by
  obtain ⟨_, _, delegation, _, _, expiring⟩ := p
  cases delegation <;> cases expiring <;> rfl

/-- What is called back goes to the end of the queue, under the next free number. -/
theorem Plan.expiring_commit (p : Plan) (s : State) :
    (p.expiring = none ∧ (p.commit s).expiringDelegations = s.expiringDelegations ∧
      (p.commit s).nextIds = s.nextIds) ∨
    ∃ e, p.expiring = some e ∧ (p.commit s).expiringDelegations =
      s.expiringDelegations.insert (e.expiration, s.nextIds.expiringDelegation) e ∧
      (p.commit s).nextIds.expiringDelegation = s.nextIds.expiringDelegation + 1 := by
  obtain ⟨_, _, delegation, _, _, expiring⟩ := p
  cases expiring with
  | none => cases delegation <;> exact .inl ⟨rfl, rfl, rfl⟩
  | some e => cases delegation <;> exact .inr ⟨e, rfl, rfl, rfl⟩

namespace Admits

/-- What is bound and what is borrowed change as the loan does, but for what is on its way back. -/
theorem deltas (h : op.Admits now s a p) :
    p.delegator = op.delegator ∧ p.delegatee = op.delegatee ∧
    p.delegation.elim 0 (·.amount) = op.amount ∧
    p.receivedDelta = op.amount - s.loan (op.delegator, op.delegatee) ∧
    p.delegatedDelta = op.amount - s.loan (op.delegator, op.delegatee) +
      p.expiring.elim 0 (·.amount) := by
  cases h with
  | grow => exact ⟨rfl, rfl, rfl, rfl, (add_zero _).symm⟩
  | shrink h₀ h =>
    refine ⟨rfl, rfl, ?_, Int.neg_sub .., ?_⟩
    · dsimp only
      split
      · rfl
      · exact le_antisymm h₀ (Int.not_lt.1 ‹_›)
    · change (0 : Int) = op.amount - _ + (_ - op.amount)
      linarith

/-- A loan grows only out of stake that no power-down asks for. -/
theorem delegatedDelta_le (h : op.Admits now s a p)
    (hfree : a.powerDown.pending ≤ a.commonTokens - a.delegated) :
    p.delegatedDelta ≤ a.commonTokens - a.delegated - a.powerDown.pending := by
  cases h with
  | grow _ hle => exact hle
  | shrink => exact Int.sub_nonneg_of_le hfree

theorem delegation_pos (h : op.Admits now s a p) (h₀ : 0 ≤ s.loan (op.delegator, op.delegatee))
    {d : Delegation} (hd : p.delegation = some d) :
    (d.delegator, d.delegatee) = (op.delegator, op.delegatee) ∧ 0 < d.amount := by
  cases h with
  | grow h => cases hd; exact ⟨rfl, h₀.trans_lt h⟩
  | shrink =>
    dsimp only at hd
    split at hd <;> cases hd
    exact ⟨rfl, ‹_›⟩

theorem expiring_pos (h : op.Admits now s a p) {e : ExpiringDelegation} (he : p.expiring = some e) :
    e.delegator = op.delegator ∧ 0 < e.amount := by
  cases h with
  | grow => cases he
  | shrink _ h => cases he; exact ⟨rfl, Int.sub_pos_of_lt h⟩

theorem lentBy_commit (h : op.Admits now s a p) (n : AccountName) : (p.commit s).lentBy n =
    s.lentBy n +
      if op.delegator = n then op.amount - s.loan (op.delegator, op.delegatee) else 0 := by
  obtain ⟨hfrom, hto, hamount, -⟩ := h.deltas
  unfold State.lentBy
  rw [Plan.delegations_commit, hfrom, hto, Loans.sumFor_put, hamount]
  rfl

theorem borrowedBy_commit (h : op.Admits now s a p) (n : AccountName) : (p.commit s).borrowedBy n =
    s.borrowedBy n +
      if op.delegatee = n then op.amount - s.loan (op.delegator, op.delegatee) else 0 := by
  obtain ⟨hfrom, hto, hamount, -⟩ := h.deltas
  unfold State.borrowedBy
  rw [Plan.delegations_commit, hfrom, hto, Loans.sumFor_put, hamount]
  rfl

theorem returningTo_commit (h : op.Admits now s a p) (hs : s.Lent) (n : AccountName) :
    (p.commit s).returningTo n = s.returningTo n +
      if op.delegator = n then p.expiring.elim 0 (·.amount) else 0 := by
  unfold State.returningTo
  rcases p.expiring_commit s with ⟨hp, he, -⟩ | ⟨e, hp, he, -⟩ <;> rw [hp, he]
  · simp
  · have hnew : s.expiringDelegations.get? (e.expiration, s.nextIds.expiringDelegation) = none :=
      hs.expiring.get?_eq_none fun _ he => Nat.lt_irrefl _ he.1
    rw [sumOf_insert_new hnew, (h.expiring_pos hp).1]
    exact add_comm ..

theorem accounts_lend (h : op.Admits now s a p) (hs : s.Lent) (hne : op.delegator ≠ op.delegatee)
    (ha : s.accounts.get? op.delegator = some a) : (p.commit s).accounts.All fun n a =>
      a.Lends ((p.commit s).lentBy n) ((p.commit s).borrowedBy n) ((p.commit s).returningTo n) := by
  obtain ⟨hfrom, hto, -, hreceived, hdelegated⟩ := h.deltas
  intro n b hget
  rw [h.lentBy_commit, h.borrowedBy_commit, h.returningTo_commit hs]
  rw [Plan.accounts_commit, hfrom, hto, get?_modify, get?_modify] at hget
  by_cases hn : op.delegator = n
  · subst n
    have hla := hs.accounts _ _ ha
    have hle := h.delegatedDelta_le (hla.pending_eq.trans_le hla.free)
    rw [if_neg hne.symm, if_pos rfl, ha] at hget
    cases hget
    rw [if_pos rfl, if_neg hne.symm, if_pos rfl, add_zero]
    exact hla.lend hle (by rw [hdelegated]; linarith)
  · rw [if_neg hn, if_neg hn, add_zero, add_zero]
    rw [if_neg hn] at hget
    split at hget
    · obtain ⟨b, hb, rfl⟩ := Option.map_eq_some_iff.1 hget
      have hlb := hs.accounts _ _ hb
      refine { hlb with received := ?_ }
      change b.received + p.receivedDelta = _
      rw [hlb.received, hreceived, if_pos ‹_›]
    · rw [if_neg ‹_›, add_zero]
      exact hs.accounts _ _ hget

theorem lent (h : op.Admits now s a p) (hs : s.Lent) (hne : op.delegator ≠ op.delegatee)
    (hb : s.accounts.contains op.delegatee = true) (ha : s.accounts.get? op.delegator = some a) :
    (p.commit s).Lent := by
  obtain ⟨hfrom, hto, -⟩ := h.deltas
  have hcontains (n : AccountName) : (p.commit s).accounts.contains n = s.accounts.contains n := by
    rw [Plan.accounts_commit, contains_modify, contains_modify]
  have hfromhas := contains_of_get? ha
  refine ⟨h.accounts_lend hs hne ha, ?_, ?_⟩ <;> simp only [hcontains]
  · have hloan : 0 ≤ s.loan (op.delegator, op.delegatee) := by
      unfold State.loan
      cases hd : s.delegations.get? (op.delegator, op.delegatee) with
      | none => exact le_refl _
      | some d => exact (hs.delegations _ _ hd).2.1.le
    rw [Plan.delegations_commit, hfrom, hto]
    unfold Loans.put
    cases hd : p.delegation with
    | none => exact hs.delegations.erase
    | some d =>
      obtain ⟨hk, hpos⟩ := h.delegation_pos hloan hd
      exact hs.delegations.insert ⟨hk, hpos, hfromhas, hb⟩
  · rcases p.expiring_commit s with ⟨-, he, hnext⟩ | ⟨e, hp, he, hnext⟩ <;> rw [he, hnext]
    · exact hs.expiring
    · obtain ⟨howner, hpos⟩ := h.expiring_pos hp
      refine All.insert (hs.expiring.mono fun _ _ h => ⟨Nat.lt_succ_of_lt h.1, h.2⟩) ?_
      exact ⟨Nat.lt_succ_self _, hpos, howner ▸ hfromhas⟩

end Admits

end DelegateCommonTokens

end ResearchLedger
