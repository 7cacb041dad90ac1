import ResearchLedger.Proofs.Footprint

/-! Records stay: nothing that can be referred to goes away, and accounts keep their names. -/
namespace ResearchLedger

section Maps

variable {κ α : Type} [KeyOrder κ] {m m' m'' : SortedMap κ α} {k : κ} {v : α}

/-- Every key of the first map is one of the second. -/
def SortedMap.Within (m m' : SortedMap κ α) : Prop := ∀ k, m.contains k = true → m'.contains k = true

namespace SortedMap.Within

theorem refl : m.Within m := fun _ h => h

theorem trans (h : m.Within m') (h' : m'.Within m'') : m.Within m'' := fun k hk => h' k (h k hk)

variable [DecidableEq κ]

theorem insert : m.Within (m.insert k v) := fun _ h => contains_insert.2 (Or.inr h)

theorem modify {f : α → α} : m.Within (m.modify k f) := fun _ h => contains_modify.trans h

end SortedMap.Within

/-- All entries of a map satisfy `p`. -/
def SortedMap.All (p : κ → α → Prop) (m : SortedMap κ α) : Prop := ∀ k v, m.get? k = some v → p k v

namespace SortedMap.All

variable {p q : κ → α → Prop}

theorem empty : All p (∅ : SortedMap κ α) := fun _ _ h => by simp at h

theorem mono (h : m.All p) (hpq : ∀ k v, p k v → q k v) : m.All q :=
  fun k v hv => hpq k v (h k v hv)

theorem get?_eq_none (h : m.All p) (hk : ∀ v, ¬ p k v) : m.get? k = none :=
  Option.eq_none_iff_forall_not_mem.2 fun v hv => hk v (h k v hv)

/-- What all values and the default satisfy is satisfied by whatever is looked up. -/
theorem getD_of {d : α} (h : m.All p) (hd : p k d) : p k (m.getD k d) := by
  rw [SortedMap.getD_eq]
  cases hk : m.get? k with
  | none => exact hd
  | some v => exact h k v hk

theorem getD {β : Type} [KeyOrder β] {m : SortedMap κ (SortedMap β α)} {p : κ → β → α → Prop}
    (h : m.All fun k x => x.All (p k)) : (m.getD k ∅).All (p k) := h.getD_of empty

section Named

variable {name : α → κ} {f : α → Bool} (h : m.All fun k v => name v = k)
include h

/-- Records that carry their keys name the keys of their map. -/
theorem map_values : m.values.map name = m.keys := by
  unfold SortedMap.values SortedMap.keys
  rw [List.map_map]
  exact List.map_congr_left fun e he => h _ _ (mem_entries_iff.1 he)

theorem nodup_picked : ((m.values.filter f).map name).Nodup := by
  refine List.Nodup.sublist (List.filter_sublist.map name) ?_
  rw [map_values h]
  exact nodup_keys m

theorem mem_picked : k ∈ (m.values.filter f).map name ↔ ∃ v, m.get? k = some v ∧ f v = true := by
  unfold SortedMap.values
  simp only [List.mem_map, List.mem_filter, mem_entries_iff]
  constructor
  · rintro ⟨v, ⟨⟨e, he, rfl⟩, hf⟩, rfl⟩
    exact ⟨e.2, (h _ _ he).symm ▸ he, hf⟩
  · rintro ⟨v, hv, hf⟩
    exact ⟨v, ⟨⟨(k, v), hv, rfl⟩, hf⟩, h k v hv⟩

end Named

variable [DecidableEq κ]

theorem insert (h : m.All p) (hp : p k v) : (m.insert k v).All p := by
  intro k' v' hv
  rw [get?_insert] at hv
  split at hv
  · subst k'; cases hv; exact hp
  · exact h k' v' hv

theorem modify {f : α → α} (h : m.All p) (hf : ∀ v, p k v → p k (f v)) : (m.modify k f).All p := by
  intro k' v' hv
  rw [get?_modify] at hv
  split at hv
  · subst k'
    obtain ⟨w, hw, rfl⟩ := Option.map_eq_some_iff.1 hv
    exact hf w (h k w hw)
  · exact h k' v' hv

/-- A change of one entry, of which more may be known than that it satisfies `p`. -/
theorem modify_of {f : α → α} (h : m.All p) (hf : ∀ v, m.get? k = some v → p k (f v)) :
    (m.modify k f).All p := by
  intro k' v' hv
  rw [get?_modify] at hv
  split at hv
  · subst k'
    obtain ⟨w, hw, rfl⟩ := Option.map_eq_some_iff.1 hv
    exact hf w hw
  · exact h k' v' hv

theorem foldl_modify {β : Type} {key : β → κ} {f : β → α → α} {xs : List β}
    (hf : ∀ x ∈ xs, ∀ k v, p k v → p k (f x v)) (h : m.All p) :
    (xs.foldl (fun m x => m.modify (key x) (f x)) m).All p := by
  induction xs generalizing m with
  | nil => exact h
  | cons x xs ih =>
    exact ih (fun y hy => hf y (List.mem_cons_of_mem _ hy))
      (h.modify fun v hv => hf x List.mem_cons_self _ v hv)

theorem erase (h : m.All p) : (m.erase k).All p := by
  intro k' v' hv
  rw [get?_erase] at hv
  split at hv
  · cases hv
  · exact h k' v' hv

end SortedMap.All

end Maps

/-- Every account keeps its place, and what `f` tells of it. -/
structure Keeps {β : Type} (f : Account → β) (m m' : SortedMap AccountName Account) : Prop where
  map_eq : ∀ n, (m'.get? n).map f = (m.get? n).map f

namespace Keeps

variable {m m' m'' : SortedMap AccountName Account} {n n' : AccountName} {β γ : Type} {f : Account → β}
  {g g' : Account → Account}

theorem refl : Keeps f m m := ⟨fun _ => rfl⟩

theorem trans (h : Keeps f m m') (h' : Keeps f m' m'') : Keeps f m m'' :=
  ⟨fun n => (h'.map_eq n).trans (h.map_eq n)⟩

theorem modify (h : Keeps f m m') (hf : ∀ a, f (g a) = f a) : Keeps f m (m'.modify n g) := by
  constructor
  intro k
  rw [← h.map_eq k, SortedMap.get?_modify]
  split
  · cases m'.get? k <;> simp [hf]
  · rfl

theorem modify_self (hf : ∀ a, f (g a) = f a) : Keeps f m (m.modify n g) := refl.modify hf

theorem modify_both (hf : ∀ a, f (g a) = f a) (hf' : ∀ a, f (g' a) = f a) :
    Keeps f m ((m.modify n g).modify n' g') := (refl.modify hf).modify hf'

theorem foldl_modify {α : Type} {name : α → AccountName} {g : α → Account → Account}
    (hf : ∀ x a, f (g x a) = f a) (xs : List α) (h : Keeps f m m') :
    Keeps f m (xs.foldl (fun m x => m.modify (name x) (g x)) m') := by
  induction xs generalizing m' with
  | nil => exact h
  | cons x xs ih => exact ih (h.modify (hf x))

/-- What is told by less is kept as well. -/
theorem map (h : Keeps f m m') (g : β → γ) : Keeps (g ∘ f) m m' := by
  constructor
  intro n
  rw [← Option.map_map, ← Option.map_map, h.map_eq]

theorem contains (h : Keeps f m m') : m'.contains n = m.contains n := by
  have := congrArg Option.isSome (h.map_eq n)
  simpa [SortedMap.contains] using this

theorem within (h : Keeps f m m') : m.Within m' := fun _ hk => h.contains.trans hk

/-- An entry of the earlier map is still there, alike in what `f` tells. -/
theorem exists_after {a : Account} (h : Keeps f m m') (ha : m.get? n = some a) :
    ∃ b, m'.get? n = some b ∧ f b = f a := by
  have hn := h.map_eq n
  rw [ha, Option.map_some] at hn
  exact Option.map_eq_some_iff.1 hn

/-- An entry of the later map was there before, alike in what `f` tells. -/
theorem exists_of_get? {a : Account} (h : Keeps f m m') (ha : m'.get? n = some a) :
    ∃ b, m.get? n = some b ∧ f a = f b := by
  have hn := h.map_eq n
  rw [ha, Option.map_some] at hn
  obtain ⟨b, hb, hf⟩ := Option.map_eq_some_iff.1 hn.symm
  exact ⟨b, hb, hf.symm⟩

end Keeps

/-- Every account keeps its place and its name. -/
abbrev KeepsNames := Keeps Account.name

/-- An account but for its keys, texts, counts and partner. -/
def Account.body (a : Account) : Account :=
  { a with
    memoKey := .empty
    metadata := ""
    withdrawRoutes := 0
    witnessesVotedFor := 0
    recoveryPartner := none
    lastRecovery := 0 }

/-- An account but for all that no money depends on. -/
def Account.core (a : Account) : Account :=
  { a.body with
    proxy := none
    proxied := .replicate maxProxyDepth 0 }

/-- What an account says of its recovery: its partner, and when it was recovered last. -/
def Account.recovery (a : Account) : Option AccountName × Seconds := (a.recoveryPartner, a.lastRecovery)

/-- The name of an account, its stake, its proxy, and what votes through it. -/
def Account.standing (a : Account) :
    AccountName × Amount × Option AccountName × Vector Amount maxProxyDepth :=
  (a.name, a.commonTokens, a.proxy, a.proxied)

variable {s s' s'' : State} {l l' : Ledger} {n : AccountName} {events : List Event}

namespace State

theorem accounts_applyProxyEffects (e : ProxyEffects) : (s.applyProxyEffects e).accounts =
    e.proxied.entries.foldl (fun m x => m.modify x.1 (·.addProxied x.2)) s.accounts := by
  rw [applyProxyEffects_eq]

theorem applyProxyEffects_keeps {β : Type} {f : Account → β} (hf : ∀ v a, f (a.addProxied v) = f a)
    (e : ProxyEffects) : Keeps f s.accounts (s.applyProxyEffects e).accounts := by
  rw [accounts_applyProxyEffects]
  apply Keeps.foldl_modify
  · exact fun x a => hf x.2 a
  · exact .refl

theorem applyProxyEffects_keepsCore (e : ProxyEffects) :
    Keeps Account.core s.accounts (s.applyProxyEffects e).accounts :=
  applyProxyEffects_keeps (fun _ _ => rfl) e

theorem accounts_foldl_creditGroup {α : Type} (group : α → GroupId) (amount : α → Amount)
    (xs : List α) (s : State) :
    (xs.foldl (fun s x => s.creditGroup (group x) (amount x)) s).accounts = s.accounts := by
  obtain ⟨_, h⟩ := foldl_creditGroup group amount xs s
  rw [h]

theorem accounts_foldl_creditExpertise {α : Type} (name : α → AccountName) (d : α → DisciplineId)
    (amount : α → Amount) (now : Seconds) (xs : List α) (s : State) :
    (xs.foldl (fun s x => s.creditExpertise (name x) (d x) (amount x) now) s).accounts =
      s.accounts := by
  obtain ⟨_, h⟩ := foldl_creditExpertise name d amount now xs s
  rw [h]

theorem accounts_applyReward (s : State) (now : Seconds) (p : RewardPlan) :
    (s.applyReward now p).accounts =
      p.balances.entries.foldl (fun m x => m.modify x.1 (·.credit x.2)) s.accounts := by
  unfold applyReward credit
  dsimp only
  rw [accounts_foldl_creditExpertise (α := (AccountName × DisciplineId) × Amount) (·.1.1) (·.1.2)
    (·.2), accounts_foldl_creditGroup (α := GroupId × Amount) (·.1) (·.2), foldl_modifyAccount]

theorem applyReward_keeps {β : Type} {f : Account → β} (hf : ∀ x a, f (a.credit x) = f a)
    (s : State) (now : Seconds) (p : RewardPlan) :
    Keeps f s.accounts (s.applyReward now p).accounts := by
  rw [accounts_applyReward]
  apply Keeps.foldl_modify
  · exact fun x a => hf x.2 a
  · exact .refl

theorem applyReward_keepsNames (s : State) (now : Seconds) (p : RewardPlan) :
    KeepsNames s.accounts (s.applyReward now p).accounts :=
  applyReward_keeps (fun _ _ => rfl) s now p

theorem accounts_payShares (id : GrantId) (shares : List (GroupId × Amount)) (s : State)
    (remaining : Amount) : (payShares id s remaining shares).1.accounts = s.accounts := by
  obtain ⟨groups, h⟩ := payShares_footprint id shares s remaining
  rw [h]

theorem afterShares_keeps {β : Type} {f : Account → β} (hf : ∀ x a, f (a.credit x) = f a)
    (s : State) (block : Nat) (id : GrantId) (g : Grant) (shares : SortedMap GroupId Amount) :
    Keeps f s.accounts (s.afterShares block id g shares).accounts := by
  have h := accounts_payShares id shares.entries s g.amount
  unfold afterShares finishGrant
  dsimp only
  split
  · split
    · exact .modify (by rw [h]; exact .refl) (hf _)
    · rw [h]; exact .refl
  · exact h ▸ .refl

theorem changePartners_keeps {β : Type} {f : Account → β}
    (hf : ∀ p a, f { a with recoveryPartner := p } = f a) (s : State) (now : Seconds) :
    Keeps f s.accounts (s.changePartners now).accounts := by
  unfold changePartners
  generalize (s.partnerChanges.values.filter (·.isDue now)).map (·.account) = names
  induction names generalizing s with
  | nil => exact .refl
  | cons name names ih =>
    refine .trans ?_ (ih (s.changePartner name))
    unfold changePartner
    split
    · exact .refl
    · exact .modify_self fun _ => hf _ _

theorem accounts_returnDelegations (s : State) (now : Seconds) :
    (s.returnDelegations now).1.accounts = (s.dueDelegations now).foldl (fun m e =>
      m.modify e.2.delegator (fun a => { a with delegated := max (a.delegated - e.2.amount) 0 }))
      s.accounts := by
  unfold returnDelegations
  dsimp only
  generalize s.dueDelegations now = due
  induction due generalizing s with
  | nil => rfl
  | cons e due ih => rw [List.foldl_cons, ih]; rfl

theorem returnDelegations_keeps {β : Type} {f : Account → β}
    (hf : ∀ x a, f { a with delegated := x } = f a) (s : State) (now : Seconds) :
    Keeps f s.accounts (s.returnDelegations now).1.accounts := by
  rw [accounts_returnDelegations]
  apply Keeps.foldl_modify
  · exact fun _ a => hf _ a
  · exact .refl

end State

/-- Time changes balances, partners and what is bound of stakes, and nothing else of an account. -/
theorem Upkeep.keeps {β : Type} {f : Account → β} (hc : ∀ x a, f (a.credit x) = f a)
    (hp : ∀ p a, f { a with recoveryPartner := p } = f a)
    (hd : ∀ x a, f { a with delegated := x } = f a) (h : Upkeep l l') :
    Keeps f l.state.accounts l'.state.accounts := by
  cases h with
  | @grant id g _ _ _ h =>
    obtain rfl | ⟨shares, -, rfl⟩ := State.processGrant_ok h
    · exact .refl
    · exact State.afterShares_keeps hc l.state l.head.block id g shares
  | partners => exact State.changePartners_keeps hp l.state l.head.time
  | returns => exact State.returnDelegations_keeps hd l.state l.head.time
  | deactivation content =>
    obtain ⟨_, _, _, _, he⟩ := Ledger.deactivate_footprint l content
    rw [he]
    exact .refl
  | _ => exact .refl

theorem Upkeep.keepsStanding (h : Upkeep l l') :
    Keeps Account.standing l.state.accounts l'.state.accounts :=
  h.keeps (fun _ _ => rfl) (fun _ _ => rfl) fun _ _ => rfl

namespace LedgerM

/-- Routes change stakes, balances and what votes through accounts, and nothing else. -/
theorem RoutePaid.keeps {β : Type} {f : Account → β} (hs : ∀ x a, f (a.stake x) = f a)
    (hc : ∀ x a, f (a.credit x) = f a) (hv : ∀ v a, f (a.addProxied v) = f a)
    {amount deposit : Amount} {r : WithdrawRoute} (h : RoutePaid amount r l deposit l') :
    Keeps f l.state.accounts l'.state.accounts := by
  cases h with
  | skip => exact .refl
  | stake =>
    refine .trans ?_ (State.applyProxyEffects_keeps hv _)
    exact .modify .refl (hs _)
  | balance => exact .modify .refl (hc _)

theorem RoutesPaid.keeps {β : Type} {f : Account → β} (hs : ∀ x a, f (a.stake x) = f a)
    (hc : ∀ x a, f (a.credit x) = f a) (hv : ∀ v a, f (a.addProxied v) = f a)
    {amount deposit : Amount} {rs : List WithdrawRoute} (h : RoutesPaid amount rs l deposit l') :
    Keeps f l.state.accounts l'.state.accounts :=
  h.preserves (P := fun x => Keeps f l.state.accounts x.state.accounts)
    (fun _ _ _ _ h hk => hk.trans (h.keeps hs hc hv)) .refl

theorem RoutePaid.keepsNames {amount deposit : Amount} {r : WithdrawRoute}
    (h : RoutePaid amount r l deposit l') : KeepsNames l.state.accounts l'.state.accounts :=
  h.keeps (fun _ _ => rfl) (fun _ _ => rfl) fun _ _ => rfl

theorem RoutesPaid.keepsNames {amount deposit : Amount} {rs : List WithdrawRoute}
    (h : RoutesPaid amount rs l deposit l') : KeepsNames l.state.accounts l'.state.accounts :=
  h.keeps (fun _ _ => rfl) (fun _ _ => rfl) fun _ _ => rfl

theorem accounts_settle (name : AccountName) (effects : ProxyEffects) (amount rest : Amount) :
    (settle s name effects amount rest).accounts =
      ((s.applyProxyEffects effects).accounts.modify name (·.credit rest)).modify name
        (·.afterPayment amount (s.applyProxyEffects effects).config.withdrawIntervalSeconds) := rfl

/-- A payment changes stakes, balances, the schedule and what votes through accounts. -/
theorem payPowerDown_keeps {β : Type} {f : Account → β} (hs : ∀ x a, f (a.stake x) = f a)
    (hc : ∀ x a, f (a.credit x) = f a) (hv : ∀ v a, f (a.addProxied v) = f a)
    (hp : ∀ x interval a, f (a.afterPayment x interval) = f a) {name : AccountName}
    (h : payPowerDown name l = (.ok events, l')) : Keeps f l.state.accounts l'.state.accounts := by
  obtain ⟨a, l₁, routed, effects, -, -, hr, -, rfl⟩ := payPowerDown_ok h
  refine (hr.keeps hs hc hv).trans ?_
  rw [accounts_settle]
  exact ((State.applyProxyEffects_keeps hv effects).modify (hc _)).modify (hp _ _)

theorem payPowerDown_keepsNames {name : AccountName}
    (h : payPowerDown name l = (.ok events, l')) : KeepsNames l.state.accounts l'.state.accounts :=
  payPowerDown_keeps (fun _ _ => rfl) (fun _ _ => rfl) (fun _ _ => rfl) (fun _ _ _ => rfl) h

end LedgerM

/-- Whether an operation adds an account or changes what one has. -/
def Operation.handlesMoney : Operation → Bool
  | accountCreate _ | transfer _ | transferToCommonTokens _ | withdrawCommonTokens _
  | delegateCommonTokens _ | createGrant _ => true
  | _ => false

/-- Whether an operation adds an account, or changes a stake or a proxy. -/
def Operation.restakes : Operation → Bool
  | accountCreate _ | transferToCommonTokens _ | setWitnessProxy _ => true
  | _ => false

theorem DelegateCommonTokens.Plan.keeps {β : Type} {f : Account → β}
    (hd : ∀ x a, f { a with delegated := x } = f a) (hr : ∀ x a, f { a with received := x } = f a)
    (p : Plan) (s : State) : Keeps f s.accounts (p.commit s).accounts := by
  obtain ⟨delegator, delegatee, delegation, _, _, expiring⟩ := p
  cases delegation <;> cases expiring <;>
    exact .modify_both (fun _ => hd _ _) fun _ => hr _ _

theorem AccountUpdate.keeps {β : Type} {f : Account → β}
    (hf : ∀ k m a, f { a with memoKey := k, metadata := m } = f a) (op : AccountUpdate)
    (now : Seconds) (s : State) : Keeps f s.accounts (op.commit now s).accounts := by
  unfold commit State.replaceOwner
  cases op.owner with
  | none => exact .modify_self fun _ => hf _ _ _
  | some owner =>
    dsimp only
    split <;> exact .modify_self fun _ => hf _ _ _

theorem SetWithdrawRoute.keeps {β : Type} {f : Account → β}
    (hf : ∀ x a, f { a with withdrawRoutes := x } = f a) (op : SetWithdrawRoute) (plan : Plan)
    (s : State) : Keeps f s.accounts (op.commit plan s).accounts := by
  cases plan with
  | create => exact .modify_self fun _ => hf _ _
  | change => exact .refl
  | remove =>
    unfold commit clear
    dsimp only
    split <;> exact .modify_self fun _ => hf _ _

theorem WitnessVote.keeps {β : Type} {f : Account → β}
    (hf : ∀ x a, f { a with witnessesVotedFor := x } = f a) (op : WitnessVote) (weight : Amount)
    (s : State) : Keeps f s.accounts (op.commit weight s).accounts := by
  unfold commit
  dsimp only
  split
  · exact .modify_self fun _ => hf _ _
  · split <;> exact .modify_self fun _ => hf _ _

theorem SetWitnessProxy.Plan.keeps {β : Type} {f : Account → β}
    (hv : ∀ v a, f (a.addProxied v) = f a) (hp : ∀ p a, f { a with proxy := p } = f a)
    (hf : ∀ x a, f { a with witnessesVotedFor := x } = f a) (p : Plan) (s : State) :
    Keeps f s.accounts (p.commit s).accounts := by
  have he := State.applyProxyEffects_keeps hv (s := s) p.effects
  unfold commit
  generalize s.applyProxyEffects p.effects = s at he ⊢
  refine he.trans ?_
  dsimp only
  split
  · exact .modify_self fun _ => hp _ _
  · exact .modify_self fun a => (hf 0 { a with proxy := p.proxy }).trans (hp _ _)

namespace Operation.Effect

variable {op : Operation}

theorem keepsBody (h : op.Effect l l') (hm : op.handlesMoney = false)
    (hp : ∀ p, op ≠ .setWitnessProxy p) : Keeps Account.body l.state.accounts l'.state.accounts := by
  cases op with
  | accountUpdate => cases h; exact AccountUpdate.keeps (fun _ _ _ => rfl) _ _ _
  | setWithdrawRoute => cases h; exact SetWithdrawRoute.keeps (fun _ _ => rfl) _ _ _
  | setWitnessProxy => exact absurd rfl (hp _)
  | witnessVote => cases h; exact WitnessVote.keeps (fun _ _ => rfl) _ _ _
  | recoverAccount =>
    cases h
    unfold RecoverAccount.commit State.replaceOwner
    dsimp only
    split <;> exact .modify_self fun _ => rfl
  | accountCreate | transfer | transferToCommonTokens | withdrawCommonTokens
  | delegateCommonTokens | createGrant => cases hm
  | _ => cases h.footprint; exact .refl

theorem keepsCore (h : op.Effect l l') (hm : op.handlesMoney = false) :
    Keeps Account.core l.state.accounts l'.state.accounts := by
  cases op with
  | setWitnessProxy =>
    cases h
    exact SetWitnessProxy.Plan.keeps (fun _ _ => rfl) (fun _ _ => rfl) (fun _ _ => rfl) _ _
  | _ => exact (h.keepsBody hm fun _ he => by cases he).map Account.core

theorem keepsStanding (h : op.Effect l l') (hr : op.restakes = false) :
    Keeps Account.standing l.state.accounts l'.state.accounts := by
  cases op with
  | transfer => cases h; exact .modify_both (fun _ => rfl) fun _ => rfl
  | withdrawCommonTokens => cases h; exact .modify_self fun _ => rfl
  | delegateCommonTokens =>
    cases h
    exact DelegateCommonTokens.Plan.keeps (fun _ _ => rfl) (fun _ _ => rfl) _ _
  | createGrant => cases h; exact .modify_self fun _ => rfl
  | accountCreate | transferToCommonTokens | setWitnessProxy => cases hr
  | _ => exact (h.keepsBody rfl fun _ he => by cases he).map Account.standing

/-- All operations but the creation of an account and a recovery leave alone what accounts say of their
recovery. -/
theorem keepsRecovery (h : op.Effect l l') (hc : ∀ c, op ≠ .accountCreate c)
    (hr : ∀ r, op ≠ .recoverAccount r) :
    Keeps Account.recovery l.state.accounts l'.state.accounts := by
  cases op with
  | accountCreate => exact absurd rfl (hc _)
  | recoverAccount => exact absurd rfl (hr _)
  | accountUpdate => cases h; exact AccountUpdate.keeps (fun _ _ _ => rfl) _ _ _
  | transfer => cases h; exact .modify_both (fun _ => rfl) fun _ => rfl
  | transferToCommonTokens =>
    cases h
    unfold TransferToCommonTokens.commit
    refine .trans ?_ (State.applyProxyEffects_keeps (fun _ _ => rfl) _)
    exact .modify_both (fun _ => rfl) fun _ => rfl
  | withdrawCommonTokens => cases h; exact .modify_self fun _ => rfl
  | setWithdrawRoute => cases h; exact SetWithdrawRoute.keeps (fun _ _ => rfl) _ _ _
  | delegateCommonTokens =>
    cases h
    exact DelegateCommonTokens.Plan.keeps (fun _ _ => rfl) (fun _ _ => rfl) _ _
  | setWitnessProxy =>
    cases h
    exact SetWitnessProxy.Plan.keeps (fun _ _ => rfl) (fun _ _ => rfl) (fun _ _ => rfl) _ _
  | witnessVote => cases h; exact WitnessVote.keeps (fun _ _ => rfl) _ _ _
  | createGrant => cases h; exact .modify_self fun _ => rfl
  | _ => cases h.footprint; exact .refl

/-- All operations but the creation of an account leave every account its place and name. -/
theorem keepsNames (h : op.Effect l l') (hc : ∀ c, op ≠ .accountCreate c) :
    KeepsNames l.state.accounts l'.state.accounts := by
  cases op with
  | accountCreate => exact absurd rfl (hc _)
  | transferToCommonTokens =>
    cases h
    unfold TransferToCommonTokens.commit
    refine .trans ?_ ((State.applyProxyEffects_keepsCore _).map Account.name)
    exact .modify_both (fun _ => rfl) fun _ => rfl
  | setWitnessProxy => exact (h.keepsCore rfl).map Account.name
  | _ => exact (h.keepsStanding rfl).map Prod.fst

end Operation.Effect

end ResearchLedger
