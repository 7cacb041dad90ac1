import ResearchLedger.Proofs.Expertise
import ResearchLedger.Proofs.Loans
import ResearchLedger.Proofs.ProxyChange

/-! Bystanders: what it means that nothing is taken from an account and nothing settled in its place,
and what the single changes leave of the records of an account that they do not name. -/
namespace ResearchLedger

variable {s s' : State} {l : Ledger} {n k : AccountName} {d e : DisciplineId} {x : Amount}
  {now : Seconds}

open SortedMap

/-- What was there is still there, changed at most as `R` allows. -/
def Remains {α : Type} (R : α → α → Prop) (x y : Option α) : Prop :=
  ∀ a, x = some a → ∃ b, y = some b ∧ R a b

namespace Remains

variable {α : Type} {R : α → α → Prop} {x y z : Option α}

theorem of_eq (hR : ∀ a, R a a) (h : y = x) : Remains R x y := fun a ha => ⟨a, h.trans ha, hR a⟩

theorem trans (hR : ∀ a b c, R a b → R b c → R a c) (h : Remains R x y) (h' : Remains R y z) :
    Remains R x z := by
  intro a ha
  obtain ⟨b, hb, hab⟩ := h a ha
  obtain ⟨c, hc, hbc⟩ := h' b hb
  exact ⟨c, hc, hR a b c hab hbc⟩

theorem modify {m : SortedMap AccountName α} {f : α → α} (hR : ∀ a, R a a)
    (hf : k = n → ∀ a, m.get? n = some a → R a (f a)) :
    Remains R (m.get? n) ((m.modify k f).get? n) := by
  intro a ha
  rw [get?_modify]
  split
  · exact ⟨f a, by rw [ha]; rfl, hf ‹_› a ha⟩
  · exact ⟨a, ha, hR a⟩

/-- Of two changes in a row only the second may concern what remains. -/
theorem modify_both {k' : AccountName} {m : SortedMap AccountName α} {f g : α → α}
    (hR : ∀ a, R a a) (hk : n ≠ k) (hg : k' = n → ∀ a, m.get? n = some a → R a (g a)) :
    Remains R (m.get? n) (((m.modify k f).modify k' g).get? n) := by
  rw [← get?_modify_of_ne (m := m) (f := f) hk.symm] at hg ⊢
  exact modify hR hg

end Remains

/-- An account later on, when nothing was taken from it and nothing settled in its place. -/
structure Account.Spared (a b : Account) : Prop where
  balance : a.balance.amount ≤ b.balance.amount
  symbol : b.balance.symbol = a.balance.symbol
  commonTokens : a.commonTokens ≤ b.commonTokens
  delegated : b.delegated = a.delegated
  powerDown : b.powerDown = a.powerDown
  withdrawRoutes : b.withdrawRoutes = a.withdrawRoutes
  proxy : b.proxy = a.proxy
  witnessesVotedFor : b.witnessesVotedFor = a.witnessesVotedFor
  recoveryPartner : b.recoveryPartner = a.recoveryPartner
  memoKey : b.memoKey = a.memoKey
  metadata : b.metadata = a.metadata

namespace Account.Spared

variable {a b c : Account}

theorem refl (a : Account) : a.Spared a :=
  ⟨le_refl _, rfl, le_refl _, rfl, rfl, rfl, rfl, rfl, rfl, rfl, rfl⟩

theorem trans (a b c : Account) (h : a.Spared b) (h' : b.Spared c) : a.Spared c where
  balance := h.balance.trans h'.balance
  symbol := h'.symbol.trans h.symbol
  commonTokens := h.commonTokens.trans h'.commonTokens
  delegated := h'.delegated.trans h.delegated
  powerDown := h'.powerDown.trans h.powerDown
  withdrawRoutes := h'.withdrawRoutes.trans h.withdrawRoutes
  proxy := h'.proxy.trans h.proxy
  witnessesVotedFor := h'.witnessesVotedFor.trans h.witnessesVotedFor
  recoveryPartner := h'.recoveryPartner.trans h.recoveryPartner
  memoKey := h'.memoKey.trans h.memoKey
  metadata := h'.metadata.trans h.metadata

/-- Money arrives in full where there is room for it. -/
theorem credit (hx : 0 ≤ x) (h : a.balance.amount + x ≤ Amount.max) : a.Spared (a.credit x) :=
  { refl a with
    balance := Amount.le_clamp (Int.le_add_of_nonneg_right hx) ((Int.le_add_of_nonneg_right hx).trans h) }

theorem stake (hx : 0 ≤ x) (h : a.commonTokens + x ≤ Amount.max) : a.Spared (a.stake x) :=
  { refl a with
    commonTokens :=
      Amount.le_clamp (Int.le_add_of_nonneg_right hx) ((Int.le_add_of_nonneg_right hx).trans h) }

end Account.Spared

/-- A token later on, when no expertise was taken from it and no vote cast with it. -/
structure ExpertToken.Spared (t u : ExpertToken) : Prop where
  amount : t.amount ≤ u.amount
  votingPower : u.votingPower = t.votingPower
  lastVoteTime : u.lastVoteTime = t.lastVoteTime

namespace ExpertToken.Spared

theorem refl (t : ExpertToken) : t.Spared t := ⟨le_refl _, rfl, rfl⟩

theorem trans (t u v : ExpertToken) (h : t.Spared u) (h' : u.Spared v) : t.Spared v :=
  ⟨h.amount.trans h'.amount, h'.votingPower.trans h.votingPower, h'.lastVoteTime.trans h.lastVoteTime⟩

theorem gain {t : ExpertToken} (h : t.amount ≤ Amount.max) (hx : 0 ≤ x) : t.Spared (t.gain x) :=
  ⟨Amount.le_clamp (Int.le_add_of_nonneg_right hx) h, rfl, rfl⟩

end ExpertToken.Spared

/-- Between two states nothing is taken from an account, and nothing settled in its place but perhaps
who owns it. -/
structure State.Spares (n : AccountName) (s s' : State) : Prop where
  account : Remains Account.Spared (s.accounts.get? n) (s'.accounts.get? n)
  expertise : ∀ d, Remains ExpertToken.Spared (s.expertToken? n d) (s'.expertToken? n d)
  research : ∀ id, s.researchTokensOf id n ≤ s'.researchTokensOf id n
  withdrawRoutes : s'.withdrawRoutes.get? n = s.withdrawRoutes.get? n
  delegations : ∀ m, s'.delegations.get? (n, m) = s.delegations.get? (n, m)
  witnessVotes : s'.witnessVotes.get? n = s.witnessVotes.get? n
  partnerChange : s'.partnerChanges.get? n = s.partnerChanges.get? n
  active : (s'.authorities.get? n).map (·.active) = (s.authorities.get? n).map (·.active)
  posting : (s'.authorities.get? n).map (·.posting) = (s.authorities.get? n).map (·.posting)

/-- The accounts that have to sign, each by one of its authorities. -/
def Signers.accounts (s : Signers) : List AccountName := s.owner ++ s.active ++ s.posting

namespace State

theorem authorities_replaceOwner (s : State) (now : Seconds) (owner : Authority) :
    (s.replaceOwner now k owner).authorities =
      s.authorities.modify k fun a => { a with owner, lastOwnerUpdate := now } := by
  unfold replaceOwner SortedMap.modify
  cases s.authorities.get? k <;> rfl

theorem remains_applyProxyEffects (s : State) (effects : ProxyEffects) :
    Remains Account.Spared (s.accounts.get? n) ((s.applyProxyEffects effects).accounts.get? n) := by
  rw [accounts_applyProxyEffects]
  generalize s.accounts = m
  induction effects.proxied.entries generalizing m with
  | nil => exact .of_eq .refl rfl
  | cons x xs ih =>
    have hx : Remains Account.Spared (m.get? n) ((m.modify x.1 (·.addProxied x.2)).get? n) :=
      .modify .refl fun _ a _ => { Account.Spared.refl a with }
    exact hx.trans .trans (ih _)

theorem expertToken?_spendPower {remaining : Nat} (h : n ≠ k) :
    (s.spendPower k e remaining now).expertToken? n d = s.expertToken? n d :=
  expertToken?_modifyExpertToken.trans (if_neg fun hk => h hk.1.symm)

namespace ExpertiseFits

theorem remains_credit (h : s.ExpertiseFits) (hx : 0 ≤ x) :
    Remains ExpertToken.Spared (s.expertToken? n d)
      ((s.creditExpertise k e x now).expertToken? n d) := by
  intro t ht
  rw [expertToken?_creditExpertise]
  split
  · rw [ht]
    exact ⟨_, rfl, .gain (h n d t ht) hx⟩
  · exact ⟨t, ht, .refl t⟩

theorem remains_foldl_credit {xs : List (DisciplineId × Amount)} (h : s.ExpertiseFits)
    (hx : ∀ e ∈ xs, 0 ≤ e.2) : Remains ExpertToken.Spared (s.expertToken? n d)
      ((xs.foldl (fun s e => s.creditExpertise k e.1 e.2 now) s).expertToken? n d) := by
  induction xs generalizing s with
  | nil => exact .of_eq .refl rfl
  | cons e xs ih =>
    have hfirst : Remains ExpertToken.Spared (s.expertToken? n d)
        ((s.creditExpertise k e.1 e.2 now).expertToken? n d) :=
      h.remains_credit (hx e List.mem_cons_self)
    exact hfirst.trans .trans (ih h.creditExpertise fun f hf => hx f (List.mem_cons_of_mem _ hf))

end ExpertiseFits

end State

namespace ContentVotePlan

theorem expertToken?_foldl_commit {ps : List ContentVotePlan} (h : ∀ p ∈ ps, n ≠ p.vote.voter) :
    (ps.foldl (fun l p => p.commit l) l).state.expertToken? n d = l.state.expertToken? n d := by
  induction ps generalizing l with
  | nil => rfl
  | cons p ps ih =>
    rw [List.foldl_cons, ih fun q hq => h q (List.mem_cons_of_mem _ hq)]
    exact State.expertToken?_spendPower (h p List.mem_cons_self)

end ContentVotePlan

namespace AccountCreate

variable {op : AccountCreate}

theorem accounts_commit (now : Seconds) (s : State) : (op.commit now s).accounts =
    (s.debit op.creator op.fee.amount).accounts.insert op.name (op.account now) := by
  unfold commit
  dsimp only
  split <;> rfl

theorem authorities_commit (now : Seconds) (s : State) : (op.commit now s).authorities =
    s.authorities.insert op.name ⟨op.name, op.owner, op.active, op.posting, 0⟩ := by
  unfold commit
  dsimp only
  split <;> rfl

theorem expertToken?_commit (now : Seconds) (s : State) (h : op.name ≠ n) :
    (op.commit now s).expertToken? n d = s.expertToken? n d := by
  unfold commit
  dsimp only
  split
  · exact State.expertToken?_creditExpertise.trans (if_neg fun hn => h hn.1)
  · rfl

theorem name_ne {u : Unit} (h : op.check s = .ok u) (hn : s.accounts.contains n = true) :
    op.name ≠ n := by
  rintro rfl
  exact Bool.false_ne_true ((check_ok h).2.1.symm.trans hn)

/-- The accounts that there were before keep what does not depend on their balance. -/
theorem map_commit {β : Type} {f : Account → β} (hf : ∀ x a, f (a.debit x) = f a) {u : Unit}
    (h : op.check s = .ok u) (hn : s.accounts.contains n = true) (now : Seconds) :
    ((op.commit now s).accounts.get? n).map f = (s.accounts.get? n).map f := by
  have hdebit : Keeps f s.accounts (s.debit op.creator op.fee.amount).accounts :=
    .modify_self fun _ => hf _ _
  rw [accounts_commit, get?_insert_of_ne (name_ne h hn)]
  exact hdebit.map_eq n

end AccountCreate

namespace AccountUpdate

variable {op : AccountUpdate}

/-- Whichever authority is asked for, it is that of the account itself. -/
theorem ne_of_not_mem_signers (hn : n ∉ (Operation.accountUpdate op).signers.accounts) :
    n ≠ op.account := by
  rw [Operation.signers] at hn
  split at hn <;> exact List.ne_of_not_mem_cons hn

theorem accounts_commit (now : Seconds) (s : State) : (op.commit now s).accounts =
    s.accounts.modify op.account fun a => { a with memoKey := op.memoKey, metadata := op.metadata } := by
  unfold commit State.replaceOwner
  cases op.owner with
  | none => rfl
  | some owner => cases s.authorities.get? op.account <;> rfl

theorem authorities_commit (now : Seconds) (s : State) (h : op.account ≠ n) :
    (op.commit now s).authorities.get? n = s.authorities.get? n := by
  unfold commit
  refine (get?_modify_of_ne h).trans ?_
  cases op.owner with
  | none => rfl
  | some owner =>
    dsimp only
    rw [State.authorities_replaceOwner]
    exact get?_modify_of_ne h

end AccountUpdate

namespace RecoverAccount

variable {op : RecoverAccount}

theorem accounts_commit (now : Seconds) (s : State) : (op.commit now s).accounts =
    s.accounts.modify op.account fun a => { a with lastRecovery := now } := by
  unfold commit State.replaceOwner
  dsimp only
  split <;> rfl

theorem authorities_commit (now : Seconds) (s : State) : (op.commit now s).authorities =
    s.authorities.modify op.account fun a =>
      { a with owner := op.newOwner, lastOwnerUpdate := now } :=
  State.authorities_replaceOwner { s with recoveryRequests := s.recoveryRequests.erase op.account } ..

end RecoverAccount

theorem ChangeRecoveryPartner.get?_commit {op : ChangeRecoveryPartner} {plan : Plan}
    (h : op.plan now s = .ok plan) (hn : op.account ≠ n) :
    (plan.commit s).partnerChanges.get? n = s.partnerChanges.get? n := by
  unfold ChangeRecoveryPartner.plan at h
  obtain ⟨_, -, h⟩ := bind_eq_ok.1 h
  obtain ⟨_, -, h⟩ := bind_eq_ok.1 h
  split at h <;> cases h
  · exact get?_erase_of_ne hn
  · exact get?_insert_of_ne hn

namespace TransferResearchTokens

variable {op : TransferResearchTokens}

/-- Giving takes from the giver alone. -/
theorem getD_takeFrom {holders : SortedMap AccountName Nat} (h : op.sender ≠ n) :
    (op.takeFrom holders).getD n 0 = holders.getD n 0 := by
  unfold takeFrom
  rw [getD_eq, getD_eq]
  split
  · rfl
  · split
    · rw [get?_erase_of_ne h]
    · rw [get?_insert_of_ne h]

theorem researchTokensOf_le (s : State) (id : ResearchId) (h : op.sender ≠ n) :
    s.researchTokensOf id n ≤ (op.commit s).researchTokensOf id n := by
  rw [commit_eq]
  unfold State.researchTokensOf
  dsimp only
  by_cases hid : op.research = id
  · subst hid
    have hrest : (if op.fromGroup then s.researchTokens.getD op.research ∅
        else op.takeFrom (s.researchTokens.getD op.research ∅)).getD n 0 =
        (s.researchTokens.getD op.research ∅).getD n 0 := by
      split
      · rfl
      · exact getD_takeFrom h
    rw [getD_insert_self, holdersAfter, ← hrest]
    by_cases hn : op.receiver = n
    · subst hn
      rw [getD_insert_self]
      exact Nat.le_add_right ..
    · rw [getD_insert_of_ne hn]
  · rw [getD_insert_of_ne hid]

end TransferResearchTokens

end ResearchLedger
