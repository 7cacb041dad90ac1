import ResearchLedger.Proofs.Directory
import ResearchLedger.Proofs.Lending

/-! What waits for its time: what each store promises about the records that the end of a block will
find due. -/
namespace ResearchLedger

open SortedMap

variable {s s' : State} {l l' : Ledger} {config : Config} {genesis : Genesis} {a b : Account}
  {x : Amount} {n : AccountName}

/-- An account whose balance can be stored, and whose power-down, while it is under way, has not yet
taken all that it is to take. -/
structure Account.Scheduled (a : Account) : Prop where
  balance_le : a.balance.amount ≤ Amount.max
  unfinished : 0 < a.powerDown.rate → a.powerDown.withdrawn < a.powerDown.total

/-- Power-downs under way have something left to take; wishes for a partner stand under their
accounts and calls for loans under their time; grants can be stored, begin before they end, and are
for a discipline that exists. -/
structure State.Scheduled (s : State) : Prop where
  accounts : s.accounts.All fun _ a => a.Scheduled
  partners : s.partnerChanges.All fun n c => c.account = n
  expiring : s.expiringDelegations.All fun k e => e.expiration = k.1
  grants : s.grants.All fun _ g => g.amount ≤ Amount.max ∧ g.startBlock ≤ g.endBlock ∧
    s.disciplines.contains g.discipline = true

namespace Account.Scheduled

theorem credit (h : a.Scheduled) : (a.credit x).Scheduled :=
  { h with balance_le := Amount.clamp_le_max _ }

theorem debit (h : a.Scheduled) : (a.debit x).Scheduled :=
  { h with balance_le := Amount.clamp_le_max _ }

theorem fresh (n : AccountName) (k : PublicKey) (now : Seconds) : (fresh n k now).Scheduled where
  balance_le := Amount.max_nonneg
  unfinished := fun h => absurd h (lt_irrefl _)

/-- A payment that leaves nothing to take ends the power-down. -/
theorem afterPayment {interval : Seconds} (h : a.Scheduled) :
    (a.afterPayment x interval).Scheduled where
  balance_le := h.balance_le
  unfinished := by
    unfold Account.afterPayment
    dsimp only
    split
    · exact fun h => absurd h (lt_irrefl _)
    · exact fun _ => not_le.1 (not_or.1 ‹_›).1

/-- Only the balance and the power-down matter. -/
theorem congr (h : a.Scheduled)
    (he : (b.balance.amount, b.powerDown) = (a.balance.amount, a.powerDown)) : b.Scheduled := by
  obtain ⟨hb, hp⟩ := Prod.mk.inj he
  constructor
  · rw [hb]; exact h.balance_le
  · rw [hp]; exact h.unfinished

end Account.Scheduled

theorem WithdrawCommonTokens.unfinished {op : WithdrawCommonTokens} {now : Seconds} {p : PowerDown}
    (h : op.plan now s = .ok p) : 0 < p.rate → p.withdrawn < p.total := by
  obtain ⟨-, h₀, ⟨-, rfl⟩ | ⟨hne, rfl⟩⟩ := plan_cases h
  · exact fun h => absurd h (lt_irrefl _)
  · exact fun _ => lt_of_le_of_ne h₀ (Ne.symm hne)

/-- A grant that is admitted is for a discipline that exists, and begins before it ends. -/
theorem CreateGrant.plan_range {op : CreateGrant} {block : Nat} {g : Grant}
    (h : op.plan block s = .ok g) :
    g.startBlock ≤ g.endBlock ∧ s.disciplines.contains g.discipline = true := by
  unfold CreateGrant.plan at h
  obtain ⟨_, -, h⟩ := bind_eq_ok.1 h
  obtain ⟨-, h⟩ := guard_bind_eq_ok.1 h
  obtain ⟨d, hd, h⟩ := bind_eq_ok.1 h
  obtain ⟨hr, h⟩ := guard_bind_eq_ok.1 h
  obtain ⟨_, -, h⟩ := bind_eq_ok.1 h
  cases h
  exact ⟨Nat.not_lt.1 (not_or.1 hr).1, contains_of_get? (State.discipline_eq_ok.1 hd)⟩

namespace SortedMap.All

/-- Accounts that keep balance and power-down stay scheduled. -/
theorem scheduled {m m' : SortedMap AccountName Account} (h : m.All fun _ a => a.Scheduled)
    (hk : Keeps (fun a => (a.balance.amount, a.powerDown)) m m') : m'.All fun _ a => a.Scheduled := by
  intro n b hb
  obtain ⟨a, ha, he⟩ := hk.exists_of_get? hb
  exact (h n a ha).congr he

end SortedMap.All

theorem State.scheduled_applyProxyEffects (e : ProxyEffects)
    (h : s.accounts.All fun _ a => a.Scheduled) :
    (s.applyProxyEffects e).accounts.All fun _ a => a.Scheduled :=
  h.scheduled (applyProxyEffects_keeps (fun _ _ => rfl) e)

theorem Operation.Effect.accounts_scheduled {op : Operation} (h : op.Effect l l')
    (hs : l.state.accounts.All fun _ a => a.Scheduled) :
    l'.state.accounts.All fun _ a => a.Scheduled := by
  have hk := h.keepsCore
  cases op with
  | accountCreate op =>
    cases h
    have hnew : ((l.state.debit op.creator op.fee.amount).accounts.insert op.name
        (op.account l.head.time)).All fun _ a => a.Scheduled :=
      All.insert (hs.modify fun _ h => h.debit)
        { Account.Scheduled.fresh op.name op.memoKey l.head.time with }
    unfold AccountCreate.commit
    dsimp only
    split <;> exact hnew
  | transfer => cases h; exact (hs.modify fun _ h => h.debit).modify fun _ h => h.credit
  | transferToCommonTokens op =>
    cases h with | @transferToCommonTokens _ effects _ =>
    have hstaked := (hs.modify (k := op.sender) (f := (·.debit op.amount.amount))
      fun _ h => h.debit).modify (k := op.target) (f := (·.stake op.amount.amount)) fun _ h => { h with }
    exact State.scheduled_applyProxyEffects effects hstaked
  | withdrawCommonTokens op =>
    cases h with | withdrawCommonTokens hp =>
    exact hs.modify fun _ h => { h with unfinished := WithdrawCommonTokens.unfinished hp }
  | delegateCommonTokens op =>
    cases h
    exact hs.scheduled (DelegateCommonTokens.Plan.keeps (fun _ _ => rfl) (fun _ _ => rfl) _ _)
  | createGrant => cases h; exact hs.modify fun _ h => h.debit
  | _ => exact hs.scheduled ((hk rfl).map fun a => (a.balance.amount, a.powerDown))

theorem Operation.Effect.scheduled {op : Operation} (h : op.Effect l l') (hs : l.state.Scheduled) :
    l'.state.Scheduled := by
  have ha := h.accounts_scheduled hs.accounts
  have hw := h.disciplines_within
  have hgrants : l.state.grants.All fun _ g => g.amount ≤ Amount.max ∧ g.startBlock ≤ g.endBlock ∧
      l'.state.disciplines.contains g.discipline = true :=
    hs.grants.mono fun _ _ h => ⟨h.1, h.2.1, hw _ h.2.2⟩
  cases op with
  | delegateCommonTokens op =>
    have hexpiring : l'.state.expiringDelegations.All fun k e => e.expiration = k.1 := by
      cases h with | @delegateCommonTokens _ p _ =>
      rcases p.expiring_commit l.state with ⟨-, he, -⟩ | ⟨e, -, he, -⟩ <;> rw [he]
      · exact hs.expiring
      · exact hs.expiring.insert rfl
    cases h.footprint
    exact { hs with accounts := ha, expiring := hexpiring }
  | changeRecoveryPartner op =>
    cases h with | @changeRecoveryPartner _ p _ =>
    cases p with
    | store => exact { hs with partners := hs.partners.insert rfl }
    | cancel => exact { hs with partners := hs.partners.erase }
  | createGrant op =>
    cases h with | createGrant hp =>
    obtain ⟨-, -, -, -, a, hget, hle⟩ := CreateGrant.plan_ok hp
    have hmax := hle.trans (hs.accounts _ _ hget).balance_le
    exact { hs with accounts := ha, grants := hs.grants.insert ⟨hmax, CreateGrant.plan_range hp⟩ }
  | _ =>
    cases h.footprint
    exact { hs with accounts := ha, grants := hgrants }

namespace State

theorem payShares_le (id : GrantId) (shares : List (GroupId × Amount)) (s : State)
    (remaining : Amount) : (payShares id s remaining shares).2.1 ≤ remaining := by
  induction shares generalizing s remaining with
  | nil => exact le_refl _
  | cons y shares ih =>
    rw [payShares]
    split
    · exact le_refl _
    · refine (ih _ _).trans (Int.sub_le_self _ ?_)
      lia

theorem Scheduled.afterShares (h : s.Scheduled) (block : Nat) (id : GrantId) {g : Grant}
    (hg : s.grants.get? id = some g) (shares : SortedMap GroupId Amount) :
    (s.afterShares block id g shares).Scheduled := by
  have hle := payShares_le id shares.entries s g.amount
  obtain ⟨groups, hp⟩ := payShares_footprint id shares.entries s g.amount
  unfold State.afterShares
  generalize payShares id s g.amount shares.entries = paid at hp hle ⊢
  obtain ⟨s₁, remaining, events⟩ := paid
  subst hp
  unfold finishGrant
  dsimp only
  split
  · split
    · exact { h with accounts := h.accounts.modify fun _ h => h.credit, grants := h.grants.erase }
    · exact { h with grants := h.grants.erase }
  · exact { h with grants := h.grants.modify fun _ hg' => ⟨hle.trans (h.grants _ _ hg).1, hg'.2⟩ }

end State

namespace State

theorem partnerChanges_foldl_changePartner (names : List AccountName) (s : State) :
    (names.foldl changePartner s).partnerChanges = names.foldl erase s.partnerChanges := by
  induction names generalizing s with
  | nil => rfl
  | cons name names ih =>
    rw [List.foldl_cons, List.foldl_cons, ih]
    unfold changePartner
    split
    · rw [erase_of_none ‹_›]
    · rfl

/-- The wishes that are due are carried out, and the others wait on. -/
theorem get?_partnerChanges_changePartners (h : s.partnerChanges.All fun n c => c.account = n)
    (now : Seconds) : (s.changePartners now).partnerChanges.get? n =
      (s.partnerChanges.get? n).filter fun c => !c.isDue now := by
  unfold changePartners
  rw [partnerChanges_foldl_changePartner, get?_foldl_erase]
  simp only [h.mem_picked]
  cases hc : s.partnerChanges.get? n with
  | none => simp
  | some c => cases hd : c.isDue now <;> simp [hd, Option.filter]

theorem expiring_foldl_returnDelegation (es : List ((Seconds × Nat) × ExpiringDelegation))
    (s : State) : (es.foldl (fun s e => s.returnDelegation e.1 e.2) s).expiringDelegations =
      (es.map (·.1)).foldl erase s.expiringDelegations := by
  induction es generalizing s with
  | nil => rfl
  | cons e es ih => rw [List.foldl_cons, ih]; rfl

/-- The calls that are due are answered, and the others wait on. -/
theorem get?_expiring_returnDelegations (s : State) (now : Seconds) (k : Seconds × Nat) :
    (s.returnDelegations now).1.expiringDelegations.get? k =
      if k.1 ≤ now then none else s.expiringDelegations.get? k := by
  unfold returnDelegations
  rw [expiring_foldl_returnDelegation, get?_foldl_erase]
  have hmem : k ∈ (s.dueDelegations now).map (·.1) ↔
      s.expiringDelegations.contains k = true ∧ k.1 ≤ now := by
    unfold dueDelegations
    simp only [List.mem_map, List.mem_filter, mem_entries_iff, contains_iff, decide_eq_true_eq]
    constructor
    · rintro ⟨e, ⟨he, hd⟩, rfl⟩
      exact ⟨⟨e.2, he⟩, hd⟩
    · rintro ⟨⟨e, he⟩, hd⟩
      exact ⟨(k, e), ⟨he, hd⟩, rfl⟩
  simp only [hmem]
  by_cases hd : k.1 ≤ now
  · cases hk : s.expiringDelegations.get? k <;> simp [hd, contains, hk]
  · simp [hd]

end State

theorem Upkeep.scheduled (h : Upkeep l l') (hs : l.state.Scheduled) : l'.state.Scheduled := by
  cases h with
  | grant hg h =>
    obtain rfl | ⟨shares, -, rfl⟩ := State.processGrant_ok h
    · exact hs
    · exact hs.afterShares _ _ hg _
  | requests | history | proposals | clock => exact { hs with }
  | partners =>
    have ha := hs.accounts.scheduled
      (State.changePartners_keeps (fun _ _ => rfl) l.state l.head.time)
    have hp : (l.state.changePartners l.head.time).partnerChanges.All fun n c => c.account = n := by
      intro n c hc
      rw [State.get?_partnerChanges_changePartners hs.partners] at hc
      exact hs.partners n c (Option.filter_eq_some_iff.1 hc).1
    obtain ⟨_, _, he⟩ := State.changePartners_footprint l.state l.head.time
    rw [he] at ha hp ⊢
    exact { hs with accounts := ha, partners := hp }
  | returns =>
    have ha := hs.accounts.scheduled
      (State.returnDelegations_keeps (fun _ _ => rfl) l.state l.head.time)
    have hx : (l.state.returnDelegations l.head.time).1.expiringDelegations.All fun k e =>
        e.expiration = k.1 := by
      intro k e he
      rw [State.get?_expiring_returnDelegations] at he
      split at he
      · cases he
      · exact hs.expiring k e he
    obtain ⟨_, _, he⟩ := State.returnDelegations_footprint l.state l.head.time
    rw [he] at ha hx ⊢
    exact { hs with accounts := ha, expiring := hx }
  | deactivation content =>
    have hw : l.state.disciplines.Within (l.deactivate content).state.disciplines :=
      Ledger.deactivate_preserves (P := fun l' => l.state.disciplines.Within l'.state.disciplines)
        (fun _ _ _ _ h => h.trans .modify) .refl
    obtain ⟨_, _, _, _, he⟩ := Ledger.deactivate_footprint l content
    rw [he] at hw ⊢
    exact { hs with grants := hs.grants.mono fun _ _ h => ⟨h.1, h.2.1, hw _ h.2.2⟩ }

namespace LedgerM

theorem RoutesPaid.accounts_scheduled {amount deposit : Amount} {rs : List WithdrawRoute}
    (h : RoutesPaid amount rs l deposit l') (hs : l.state.accounts.All fun _ a => a.Scheduled) :
    l'.state.accounts.All fun _ a => a.Scheduled := by
  refine h.preserves (P := fun l => l.state.accounts.All fun _ a => a.Scheduled)
    (fun r deposit l₁ l₂ h hs => ?_) hs
  cases h with
  | skip => exact hs
  | stake =>
    have hstaked := hs.modify (k := r.target) (f := (·.stake deposit)) fun _ h => { h with }
    exact State.scheduled_applyProxyEffects _ hstaked
  | balance => exact hs.modify fun _ h => h.credit

theorem payPowerDown_scheduled {events : List Event} (h : payPowerDown n l = (.ok events, l'))
    (hs : l.state.Scheduled) : l'.state.Scheduled := by
  have ha : l'.state.accounts.All fun _ a => a.Scheduled := by
    obtain ⟨a, l₁, routed, effects, -, -, hr, -, rfl⟩ := payPowerDown_ok h
    have h₁ := State.scheduled_applyProxyEffects effects (hr.accounts_scheduled hs.accounts)
    exact (h₁.modify fun _ h => h.credit).modify fun _ h => h.afterPayment
  obtain ⟨_, _, _, rfl⟩ := payPowerDown_footprint h
  exact { hs with accounts := ha }

end LedgerM

theorem Change.scheduled (h : Change l l') (hs : l.state.Scheduled) : l'.state.Scheduled := by
  cases h with
  | operation h => exact h.scheduled hs
  | @reward _ plan =>
    have ha : (l.state.applyReward l.head.time plan).accounts.All fun _ a => a.Scheduled := by
      rw [State.accounts_applyReward]
      exact hs.accounts.foldl_modify fun _ _ _ _ h => h.credit
    obtain ⟨_, _, _, he⟩ := State.applyReward_footprint l.state l.head.time plan
    rw [he] at ha ⊢
    exact { hs with accounts := ha }
  | payment h => exact LedgerM.payPowerDown_scheduled h hs
  | upkeep h => exact h.scheduled hs

theorem State.Scheduled.ofGenesis (h : ofGenesis config genesis = .ok s) (hg : genesis.Storable) :
    s.Scheduled := by
  refine ofGenesis_invariant h (fun _ => ⟨.empty, .empty, .empty, .empty⟩) fun s s' hc hs => ?_
  cases hc with
  | discipline =>
    exact { hs with grants := hs.grants.mono fun _ _ h => ⟨h.1, h.2.1, Within.insert _ h.2.2⟩ }
  | @account g hmem _ _ _ _ =>
    refine { hs with accounts := hs.accounts.insert ?_ }
    exact { Account.Scheduled.fresh g.name g.key genesis.time with balance_le := (hg g hmem).1 }
  | witness => exact { hs with }

end ResearchLedger
