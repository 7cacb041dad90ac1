import ResearchLedger.Proofs.Bystander
import ResearchLedger.Proofs.Money

/-! Which operations make money: none, but the creation of an account for a fee below zero. -/
namespace ResearchLedger

open SortedMap

variable {s s' : State} {l l' : Ledger} {a : Account} {x : Amount} {n : AccountName} {op : Operation}
  {config : Config} {genesis : Genesis}

namespace State.BalancesFit

theorem modifyAccount {f : Account → Account} (h : s.BalancesFit)
    (hf : ∀ a, a.balance.amount ≤ Amount.max → (f a).balance.amount ≤ Amount.max) :
    (s.modifyAccount n f).BalancesFit := All.modify h hf

theorem credit (h : s.BalancesFit) : (s.credit n x).BalancesFit :=
  h.modifyAccount fun _ _ => Amount.clamp_le_max _

theorem debit (h : s.BalancesFit) : (s.debit n x).BalancesFit :=
  h.modifyAccount fun _ _ => Amount.clamp_le_max _

theorem of_keeps (h : s.BalancesFit) (hk : Keeps Account.holdings s.accounts s'.accounts) :
    s'.BalancesFit := by
  intro n a ha
  obtain ⟨b, hb, hab⟩ := hk.exists_of_get? ha
  exact (congrArg Prod.fst hab).trans_le (h n b hb)

theorem applyProxyEffects (h : s.BalancesFit) (e : ProxyEffects) :
    (s.applyProxyEffects e).BalancesFit :=
  h.of_keeps ((applyProxyEffects_keepsCore e).map Account.holdings)

end State.BalancesFit

theorem Operation.Effect.balancesFit (h : op.Effect l l') (hs : l.state.BalancesFit) :
    l'.state.BalancesFit := by
  have hk := h.keepsCore
  cases op with
  | accountCreate op =>
    cases h
    unfold State.BalancesFit
    dsimp only
    rw [AccountCreate.accounts_commit]
    exact All.insert hs.debit Amount.max_nonneg
  | transfer => cases h; exact hs.debit.credit
  | transferToCommonTokens =>
    cases h
    refine State.BalancesFit.applyProxyEffects ?_ _
    exact State.BalancesFit.modifyAccount hs.debit fun _ h => h
  | withdrawCommonTokens => cases h; exact hs.modifyAccount fun _ h => h
  | delegateCommonTokens =>
    cases h with | @delegateCommonTokens _ plan _ =>
    exact hs.of_keeps (plan.keeps (fun _ _ => rfl) (fun _ _ => rfl) l.state)
  | createGrant => cases h; exact hs.debit
  | _ => exact hs.of_keeps ((hk rfl).map Account.holdings)

namespace LedgerM

variable {amount deposit : Amount} {r : WithdrawRoute} {name : AccountName} {events : List Event}

theorem RoutePaid.balancesFit (h : RoutePaid amount r l deposit l') (hs : l.state.BalancesFit) :
    l'.state.BalancesFit := by
  cases h with
  | skip => exact hs
  | stake =>
    refine State.BalancesFit.applyProxyEffects ?_ _
    exact hs.modifyAccount fun _ h => h
  | balance => exact hs.credit

theorem payPowerDown_balancesFit (h : payPowerDown name l = (.ok events, l'))
    (hs : l.state.BalancesFit) : l'.state.BalancesFit := by
  obtain ⟨a, l₁, routed, effects, -, -, hr, -, rfl⟩ := payPowerDown_ok h
  have h₁ : l₁.state.BalancesFit := hr.preserves (P := fun l => l.state.BalancesFit)
    (fun _ _ _ _ => RoutePaid.balancesFit) hs
  have hpaid : ((l₁.state.applyProxyEffects effects).credit name
    (a.nextPayment - routed)).BalancesFit := (h₁.applyProxyEffects effects).credit
  exact hpaid.modifyAccount fun _ h => h

end LedgerM

theorem Upkeep.balancesFit (h : Upkeep l l') (hs : l.state.BalancesFit) : l'.state.BalancesFit := by
  cases h with
  | grant _ h =>
    obtain rfl | ⟨shares, -, rfl⟩ := State.processGrant_ok h
    · exact hs
    · exact State.afterShares_preserves (P := State.BalancesFit) (fun _ _ _ h => h)
        (fun _ _ h => h.credit) (fun _ h => h) (fun _ _ h => h) hs
  | partners => exact hs.of_keeps (State.changePartners_keeps (fun _ _ => rfl) ..)
  | returns => exact hs.of_keeps (State.returnDelegations_keeps (fun _ _ => rfl) ..)
  | deactivation content =>
    obtain ⟨_, _, _, _, he⟩ := Ledger.deactivate_footprint l content
    rw [he]
    exact hs
  | _ => exact hs

theorem Change.balancesFit (h : Change l l') (hs : l.state.BalancesFit) : l'.state.BalancesFit := by
  cases h with
  | operation h => exact h.balancesFit hs
  | reward =>
    exact State.applyReward_preserves (P := State.BalancesFit) (fun _ _ _ h => h.credit)
      (fun _ _ _ h => h) (fun _ _ _ _ _ h => h) hs
  | payment h => exact LedgerM.payPowerDown_balancesFit h hs
  | upkeep h => exact h.balancesFit hs

theorem State.BalancesFit.ofGenesis (h : ofGenesis config genesis = .ok s) (hg : genesis.Storable) :
    s.BalancesFit := by
  refine ofGenesis_invariant h (fun _ => .empty) fun s s' hc hs => ?_
  cases hc with
  | discipline => exact hs
  | account hmem => exact All.insert hs (hg _ hmem).1
  | witness => exact hs

theorem Ledger.Reachable.balancesFit (h : l.Reachable config genesis) (hg : genesis.Storable) :
    l.state.BalancesFit :=
  h.invariant (P := fun l => l.state.BalancesFit) (fun _ h₀ => .ofGenesis (ofGenesis_ok h₀).1 hg)
    fun _ _ => Change.balancesFit

/-- The creation of an account, granted, for a fee below zero and by somebody whose balance can grow. -/
def Operation.Mints (l : Ledger) : Operation → Prop
  | accountCreate op => op.check l.state = .ok () ∧ op.fee.amount < 0 ∧
      l.state.balanceOf op.creator < Amount.max
  | _ => False

/-- A debit changes the money by what it changes the balance. -/
theorem State.money_debit_eq (ha : s.accounts.get? n = some a) : (s.debit n x).money =
    s.money - a.balance.amount + Amount.clamp (a.balance.amount - x) := by
  have hb : (s.debit n x).balances + a.balance.amount =
      s.balances + Amount.clamp (a.balance.amount - x) := sumOf_modify ha
  have hc : (s.debit n x).stakes = s.stakes := stakes_modifyAccount fun _ => rfl
  unfold money
  rw [hc]
  change (s.debit n x).balances + s.stakes + s.escrow + s.funds = _
  linarith

theorem AccountCreate.mints_iff {op : AccountCreate} {u : Unit} (now : Seconds)
    (h : op.check s = .ok u) (hs : s.Solvent) (hb : s.BalancesFit) :
    s.money < (op.commit now s).money ↔
      op.fee.amount < 0 ∧ s.balanceOf op.creator < Amount.max := by
  obtain ⟨-, -, a, ha, hle⟩ := check_ok h
  have hfits := hb _ _ ha
  have h₀ := (hs.accounts _ _ ha).balance
  have hbal : s.balanceOf op.creator = a.balance.amount := by
    unfold State.balanceOf
    rw [ha]
  rw [money_commit now h, State.money_debit_eq ha, hbal]
  rcases lt_or_ge op.fee.amount 0 with hneg | hpos
  · rw [Amount.clamp_of_nonneg (by linarith)]
    have hgrows : a.balance.amount < min (a.balance.amount - op.fee.amount) Amount.max ↔
        a.balance.amount < Amount.max := by
      rw [lt_min_iff]
      exact and_iff_right (by linarith)
    constructor
    · exact fun hlt => ⟨hneg, hgrows.1 (by linarith)⟩
    · exact fun hlt => by linarith [hgrows.2 hlt.2]
  · rw [Amount.clamp_of_le (by linarith) (by linarith)]
    constructor <;> intro <;> lia

namespace Operation

theorem Effect.mints_iff (h : op.Effect l l') (hl : l.Sound) (hb : l.state.BalancesFit) :
    l.state.money < l'.state.money ↔ op.Mints l := by
  cases op with
  | accountCreate op =>
    cases h with | accountCreate hc =>
    exact (AccountCreate.mints_iff _ hc hl.solvent hb).trans (and_iff_right hc).symm
  | _ =>
    rw [h.money_eq hl hb fun _ he => by cases he]
    exact ⟨fun hlt => absurd hlt (lt_irrefl _), False.elim⟩

theorem Mints.granted (h : op.Mints l) : ∃ l' events, op.run l = .ok (l', events) := by
  cases op with
  | accountCreate op =>
    exact ⟨_, _, bind_eq_ok.2 ⟨(), h.1, rfl⟩⟩
  | _ => exact h.elim

/-- Money is made by the creation of an account for a fee below zero, and by no other operation. -/
theorem apply_mints_iff (op : Operation) (hl : l.Sound) (hb : l.state.BalancesFit) :
    l.state.money < (op.apply l).2.state.money ↔ op.Mints l := by
  rw [LedgerM.run_apply]
  rcases hr : op.run l with e | ⟨l', events⟩
  · constructor
    · exact fun hlt => absurd hlt (lt_irrefl _)
    · intro hm
      obtain ⟨l', events, hg⟩ := hm.granted
      cases hr.symm.trans hg
  · exact (effect_of_run hr).mints_iff hl hb

theorem Mints.fee_lt (h : op.Mints l) : l.state.config.minAccountCreationFee < 0 := by
  cases op with
  | accountCreate op => exact (AccountCreate.check_ok h.1).1.trans_lt h.2.1
  | _ => exact h.elim

end Operation

end ResearchLedger
