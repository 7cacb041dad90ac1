import ResearchLedger.Proofs.Expertise
import ResearchLedger.Proofs.RewardPass
import ResearchLedger.Proofs.StoredRewards

/-! The events of a reward pass are the items of an account: they come to what each account, group and
expert token has gained, and there is no other change. -/
namespace ResearchLedger

open SortedMap

variable {s : State} {l : Ledger} {config : Config} {genesis : Genesis} {p : RewardPlan}
  {n : AccountName} {d : DisciplineId} {id : GroupId} {now : Seconds}

namespace Event

/-- What an event tells to have been paid to an account as a reward. -/
def rewardTo (n : AccountName) : Event → Amount
  | curatorRewarded m _ reward | reviewRewarded m _ reward | reviewVoterRewarded m _ reward
  | tokenHolderRewarded m _ reward => if m = n then reward else 0
  | _ => 0

/-- What an event tells to have been paid to a group as a reward. -/
def rewardToGroup (id : GroupId) : Event → Amount
  | groupRewarded group _ reward => if group = id then reward else 0
  | _ => 0

/-- The expertise that an event tells to have been given. -/
def expertise : Event → Amount
  | expertiseRewarded _ _ amount => amount
  | _ => 0

end Event

namespace RewardPlan

/-- The events of a plan come to its payments. -/
structure Itemised (p : RewardPlan) : Prop where
  balances : ∀ n, p.balances.getD n 0 = (p.events.map (Event.rewardTo n)).sum
  groups : ∀ id, p.groups.getD id 0 = (p.events.map (Event.rewardToGroup id)).sum
  expertise : p.Reported
  given : p.given = (p.events.map Event.expertise).sum
  named : ∀ n d, p.expertise.contains (n, d) = true ↔ ∃ amount, .expertiseRewarded n d amount ∈ p.events

theorem sum_report (f : Event → Amount) (p : RewardPlan) (event : Event) :
    ((p.report event).events.map f).sum = (p.events.map f).sum + f event := by
  rw [report, List.map_append, List.sum_append, List.map_singleton, List.sum_singleton]

theorem mem_report {event e : Event} : e ∈ (p.report event).events ↔ e ∈ p.events ∨ e = event := by
  rw [report, List.mem_append, List.mem_singleton]

theorem getD_raise {κ : Type} [KeyOrder κ] [DecidableEq κ] {m : SortedMap κ Amount} {k k' : κ}
    {amount : Amount} : (m.insert k (m.getD k 0 + amount)).getD k' 0 =
      m.getD k' 0 + if k = k' then amount else 0 := by
  by_cases h : k = k'
  · rw [h, getD_insert_self, if_pos rfl]
  · rw [getD_insert_of_ne h, if_neg h, add_zero]

namespace Itemised

theorem empty : Itemised {} :=
  ⟨fun _ => rfl, fun _ => rfl, fun _ _ => rfl, rfl, fun _ _ =>
    ⟨fun h => (Bool.false_ne_true h).elim, fun ⟨_, h⟩ => absurd h List.not_mem_nil⟩⟩

/-- An event that tells of no expertise, and of money what the plan has paid meanwhile. -/
theorem report {balances : SortedMap AccountName Amount} {groups : SortedMap GroupId Amount}
    {distributed : Amount} {event : Event} (hp : p.Itemised)
    (hb : ∀ n, balances.getD n 0 = p.balances.getD n 0 + event.rewardTo n)
    (hg : ∀ id, groups.getD id 0 = p.groups.getD id 0 + event.rewardToGroup id)
    (hx : ∀ n d, event.expertiseTo n d = 0) (he : event.expertise = 0)
    (hn : ∀ n d amount, event ≠ .expertiseRewarded n d amount) :
    (RewardPlan.report { p with balances, groups, distributed } event).Itemised where
  balances n := by rw [sum_report, ← hp.balances]; exact hb n
  groups id := by rw [sum_report, ← hp.groups]; exact hg id
  expertise := Reported.report hx hp.expertise
  given := by rw [sum_report, ← hp.given, he, add_zero]; rfl
  named n d := by
    simp only [mem_report]
    refine (hp.named n d).trans (exists_congr fun amount => ?_)
    exact (or_iff_left (hn n d amount).symm).symm

theorem kept {A : AccountName → Prop} {Q : DisciplineId → Prop} : Kept A Q Itemised where
  payAccount := by
    intro p p' n amount event he h hp
    obtain rfl := payAccount_ok h
    refine hp.report (fun m => ?_) (fun id => ?_) ?_ ?_ ?_
    · rw [getD_raise]
      cases he <;> rfl
    · cases he <;> exact (add_zero _).symm
    · cases he <;> exact fun _ _ => rfl
    · cases he <;> rfl
    · cases he <;> exact fun _ _ _ hne => by cases hne
  payGroup := by
    intro p p' g research amount h hp
    obtain rfl := payGroup_ok h
    exact hp.report (fun _ => (add_zero _).symm) (fun _ => getD_raise) (fun _ _ => rfl) rfl
      fun _ _ _ hne => by cases hne
  divide hp := hp.report (fun _ => (add_zero _).symm) (fun _ => (add_zero _).symm) (fun _ _ => rfl) rfl
    fun _ _ _ hne => by cases hne
  giveExpertise := by
    intro p p' m e amount hm he h hp
    have hreported := Reported.kept.giveExpertise hm he h hp.expertise
    rw [giveExpertise_ok h] at hreported ⊢
    refine ⟨fun n => ?_, fun id => ?_, hreported, ?_, fun n d => ?_⟩
    · exact (hp.balances n).trans (by simp [Event.rewardTo])
    · exact (hp.groups id).trans (by simp [Event.rewardToGroup])
    · rw [RewardPlan.given, sumOf_raise, ← RewardPlan.given, hp.given]
      simp [Event.expertise]
    · rw [contains_insert, hp.named, Prod.mk.injEq]
      simp only [List.mem_append, List.mem_singleton, Event.expertiseRewarded.injEq]
      constructor
      · rintro (⟨rfl, rfl⟩ | ⟨amount', h'⟩)
        · exact ⟨amount, .inr ⟨rfl, rfl, rfl⟩⟩
        · exact ⟨amount', .inl h'⟩
      · rintro ⟨amount', h' | ⟨rfl, rfl, -⟩⟩
        · exact .inr ⟨amount', h'⟩
        · exact .inl ⟨rfl, rfl⟩

end Itemised

end RewardPlan

/-- Every plan that a ledger makes is itemised. -/
theorem Ledger.Plans.itemised {amount : Amount} (h : l.Plans amount p) : p.Itemised :=
  h.keeps (A := fun _ => True) (Q := fun _ => True) RewardPlan.Itemised.kept
    ⟨fun _ _ _ _ _ => trivial, fun _ _ _ => trivial⟩ (fun _ _ _ => trivial) .empty

/-- Raises that are named by the entries of a map reach each key once. -/
theorem SortedMap.get?_foldl_raise {κ α : Type} [KeyOrder κ] [DecidableEq κ] {m : SortedMap κ α}
    {e : SortedMap κ Amount} {k : κ} {u : Amount → α → α} (hu : ∀ v, m.get? k = some v → u 0 v = v) :
    (e.entries.foldl (fun m x => m.modify x.1 (u x.2)) m).get? k = (m.get? k).map (u (e.getD k 0)) := by
  refine get?_foldl_modify.trans (Option.map_congr fun v hv => ?_)
  rw [getD_eq]
  cases e.get? k with
  | some x => rfl
  | none => exact (hu v hv).symm

namespace State

/-- Expertise that is given by the entries of a map comes to each token once. -/
theorem expertToken?_foldl_creditExpertise {e : SortedMap (AccountName × DisciplineId) Amount} :
    (e.entries.foldl (fun s x => s.creditExpertise x.1.1 x.1.2 x.2 now) s).expertToken? n d =
      match e.get? (n, d) with
      | some x => some (((s.expertToken? n d).getD (.fresh n d now)).gain x)
      | none => s.expertToken? n d := by
  have miss {xs : List ((AccountName × DisciplineId) × Amount)} {s : State}
      (h : ∀ x ∈ xs, x.1 ≠ (n, d)) :
      (xs.foldl (fun s x => s.creditExpertise x.1.1 x.1.2 x.2 now) s).expertToken? n d =
        s.expertToken? n d := by
    induction xs generalizing s with
    | nil => rfl
    | cons x xs ih =>
      rw [List.forall_mem_cons] at h
      exact (ih h.2).trans (expertToken?_creditExpertise.trans
        (if_neg fun hx => h.1 (Prod.ext hx.1 hx.2)))
  have hit {xs : List ((AccountName × DisciplineId) × Amount)} {s : State} {x : Amount}
      (hn : (xs.map (·.1)).Nodup) (hx : ((n, d), x) ∈ xs) :
      (xs.foldl (fun s x => s.creditExpertise x.1.1 x.1.2 x.2 now) s).expertToken? n d =
        some (((s.expertToken? n d).getD (.fresh n d now)).gain x) := by
    induction xs generalizing s with
    | nil => cases hx
    | cons y xs ih =>
      rw [List.map_cons, List.nodup_cons] at hn
      rw [List.foldl_cons]
      rcases List.mem_cons.1 hx with rfl | hx
      · have hrest : ∀ z ∈ xs, z.1 ≠ (n, d) := fun z hz he =>
          hn.1 (List.mem_map.2 ⟨z, hz, he⟩)
        rw [miss hrest, expertToken?_creditExpertise, if_pos ⟨rfl, rfl⟩]
      · have hne : ¬ (y.1.1 = n ∧ y.1.2 = d) := fun he =>
          hn.1 (List.mem_map.2 ⟨_, hx, (Prod.ext he.1 he.2).symm⟩)
        rw [ih hn.2 hx, expertToken?_creditExpertise, if_neg hne]
  cases he : e.get? (n, d) with
  | some x => exact hit (nodup_keys e) (mem_entries_iff.2 he)
  | none =>
    refine miss fun x hx hk => ?_
    rw [← hk, mem_entries_iff.1 hx] at he
    cases he

end State

/-- The account with so much more money. -/
def Account.raised (a : Account) (x : Amount) : Account :=
  { a with balance := ⟨a.balance.amount + x, a.balance.symbol⟩ }

theorem Account.credit_eq_raised {a : Account} {x : Amount} (h₀ : 0 ≤ a.balance.amount + x)
    (hm : a.balance.amount + x ≤ Amount.max) : a.credit x = a.raised x := by
  rw [credit, raised, Amount.clamp_of_le h₀ hm]

/-- A ledger has changed by rewards alone, and the events tell of all of them. -/
structure Ledger.Rewarded (l : Ledger) (events : List Event) (l' : Ledger) : Prop where
  head : l'.head = l.head
  stores : ∃ accounts groups expertTokens,
    l'.state = { l.state with accounts, groups, expertTokens }
  accounts : ∀ n, l'.state.accounts.get? n =
    (l.state.accounts.get? n).map (·.raised (events.map (Event.rewardTo n)).sum)
  groups : ∀ id, l'.state.groups.get? id = (l.state.groups.get? id).map fun g =>
    { g with balance := g.balance + (events.map (Event.rewardToGroup id)).sum }
  tokens : ∀ n d, (∃ amount, .expertiseRewarded n d amount ∈ events) →
    let t := (l.state.expertToken? n d).getD (.fresh n d l.head.time)
    l'.state.expertToken? n d =
      some { t with amount := t.amount + (events.map (Event.expertiseTo n d)).sum }
  otherTokens : ∀ n d, (∀ amount, .expertiseRewarded n d amount ∉ events) →
    l'.state.expertToken? n d = l.state.expertToken? n d

namespace RewardPlan.Itemised

variable (hp : p.Itemised) (hsound : p.Sound s) (now : Seconds)

include hp hsound

theorem get?_accounts (hs : s.Solvent) (hm : s.money + p.distributed ≤ Amount.max) (n : AccountName) :
    (s.applyReward now p).accounts.get? n =
      (s.accounts.get? n).map (·.raised (p.events.map (Event.rewardTo n)).sum) := by
  obtain ⟨h₀, hle⟩ := getD_le_sumOf (hsound.balances.mono fun _ _ h => h.2) n
  have hfit (a : Account) (ha : s.accounts.get? n = some a) :
      0 ≤ a.balance.amount ∧ a.balance.amount + p.balances.getD n 0 ≤ Amount.max := by
    have := hs.balance_le_money ha
    have := hsound.groups_nonneg
    have := hsound.distributed
    exact ⟨(hs.accounts n a ha).balance, by linarith⟩
  rw [State.accounts_applyReward, ← hp.balances]
  refine (get?_foldl_raise (u := fun x (a : Account) => a.credit x) fun a ha => ?_).trans
    (Option.map_congr fun a ha => ?_)
  · have := hfit a ha
    exact (Account.credit_eq_raised (by linarith) (by linarith)).trans (by simp [Account.raised])
  · have := hfit a ha
    exact Account.credit_eq_raised (by linarith) this.2

theorem get?_groups (hs : s.Solvent) (hm : s.money + p.distributed ≤ Amount.max) (id : GroupId) :
    (s.applyReward now p).groups.get? id = (s.groups.get? id).map fun g =>
      { g with balance := g.balance + (p.events.map (Event.rewardToGroup id)).sum } := by
  obtain ⟨h₀, hle⟩ := getD_le_sumOf (hsound.groups.mono fun _ _ h => h.2) id
  have hfit (g : ResearchGroup) (hg : s.groups.get? id = some g) :
      0 ≤ g.balance ∧ g.balance + p.groups.getD id 0 ≤ Amount.max := by
    have : g.balance ≤ s.funds := le_sumOf (f := fun _ (g : ResearchGroup) => g.balance) hs.groups hg
    have := hs.balances_nonneg
    have := hs.stakes_nonneg
    have := hs.escrow_nonneg
    have := hsound.balances_nonneg
    have := hsound.distributed
    have hmoney : s.money = s.balances + s.stakes + s.escrow + s.funds := rfl
    exact ⟨hs.groups id g hg, by linarith⟩
  rw [State.groups_applyReward, ← hp.groups]
  refine (get?_foldl_raise (u := fun x (g : ResearchGroup) =>
    { g with balance := Amount.clamp (g.balance + x) }) fun g hg => ?_).trans
    (Option.map_congr fun g hg => ?_)
  · have := hfit g hg
    rw [Amount.clamp_of_le (by linarith) (by linarith), add_zero]
  · have := hfit g hg
    rw [Amount.clamp_of_le (by linarith) this.2]

theorem expertToken?_eq (hs : s.ExpertiseSound) (hx : ∀ t, s.expertToken? n d = some t →
      t.amount + p.given ≤ Amount.max) (hm : p.given ≤ Amount.max)
    (he : ∃ amount, .expertiseRewarded n d amount ∈ p.events) :
    (s.applyReward now p).expertToken? n d =
      let t := (s.expertToken? n d).getD (.fresh n d now)
      some { t with amount := t.amount + (p.events.map (Event.expertiseTo n d)).sum } := by
  obtain ⟨x, hgiven⟩ := contains_iff.1 ((hp.named n d).2 he)
  obtain ⟨groups, hstate⟩ := State.applyReward_eq s now p
  obtain ⟨h₀, hle⟩ := getD_le_sumOf hsound.expertise (n, d)
  rw [hstate, State.expertToken?_foldl_creditExpertise, hgiven]
  have hx' : p.expertise.getD (n, d) 0 = x := by rw [getD_eq, hgiven]; rfl
  rw [← hp.expertise n d, hx']
  rw [hx'] at h₀ hle
  refine congrArg some ?_
  change ExpertToken.gain ((s.expertToken? n d).getD _) x = _
  generalize ht : (s.expertToken? n d).getD (.fresh n d now) = t
  have hfit : 0 ≤ t.amount + x ∧ t.amount + x ≤ Amount.max := by
    have hgiven : p.expertise.sumOf (fun _ amount => amount) = p.given := rfl
    subst ht
    cases hold : s.expertToken? n d with
    | none =>
      change 0 ≤ 0 + x ∧ 0 + x ≤ Amount.max
      rw [zero_add]
      exact ⟨h₀, by linarith⟩
    | some t =>
      have := (hs n d t hold).1
      have := hx t hold
      rw [Option.getD_some]
      exact ⟨by linarith, by linarith⟩
  rw [ExpertToken.gain, Amount.clamp_of_le hfit.1 hfit.2]

omit hsound in
theorem expertToken?_other (he : ∀ amount, .expertiseRewarded n d amount ∉ p.events) :
    (s.applyReward now p).expertToken? n d = s.expertToken? n d := by
  obtain ⟨groups, hstate⟩ := State.applyReward_eq s now p
  have hnone : p.expertise.get? (n, d) = none := by
    refine contains_eq_false_iff.1 (Bool.eq_false_iff.2 fun hc => ?_)
    obtain ⟨amount, hmem⟩ := (hp.named n d).1 hc
    exact he amount hmem
  rw [hstate, State.expertToken?_foldl_creditExpertise, hnone]
  rfl

end RewardPlan.Itemised

/-- A reward pass over a reachable ledger changes nothing but what its events tell: the balances of
accounts and groups rise by the rewards to them, expert tokens by the expertise given to them, and all
of this expertise is within the budget. -/
theorem Ledger.Reachable.rewards_itemised (h : l.Reachable config genesis) (hg : genesis.Storable)
    (budget : Asset) (hb : budget.symbol = .primary) (h₀ : 0 ≤ budget.amount)
    (hm : l.state.money + budget.amount ≤ Amount.max)
    (hx : ∀ n d t, l.state.expertToken? n d = some t → t.amount + budget.amount ≤ Amount.max) :
    ∃ report l', LedgerM.distributeReward budget l = (.ok report, l') ∧
      l.Rewarded report.events l' ∧ (report.events.map Event.expertise).sum ≤ budget.amount := by
  have hl := h.sound hg
  have hbudget : budget.amount ≤ Amount.max := by
    have := hl.solvent.money_nonneg
    linarith
  obtain ⟨p, hplan, hsound, hle⟩ :=
    State.planReward_ok hl.linked hl.apportioned hl.balanced h₀ hbudget
  have hgiven := State.planReward_given hl.linked hl.apportioned hl.balanced h₀ hbudget hplan
  have hp := (Plans.pass (checkBudget_eq hb h₀) hbudget hplan).itemised
  have hfit : l.state.money + p.distributed ≤ Amount.max := by linarith
  refine ⟨p.toReport budget.amount, _,
    by rw [LedgerM.run_distributeReward, checkBudget_eq hb h₀, hplan], ?_, hp.given ▸ hgiven⟩
  exact {
    head := rfl
    stores := State.applyReward_footprint l.state l.head.time p
    accounts := hp.get?_accounts hsound _ hl.solvent hfit
    groups := hp.get?_groups hsound _ hl.solvent hfit
    tokens := fun n d => hp.expertToken?_eq hsound _ (h.expertiseSound hg)
      (fun t ht => (Int.add_le_add_left hgiven _).trans (hx n d t ht)) (hgiven.trans hbudget)
    otherTokens := fun _ _ => hp.expertToken?_other _ }

/-- What holds of all stored tokens holds of each that is found. -/
theorem State.forall_expertToken? {P : ExpertToken → Prop}
    (h : ∀ e ∈ s.expertTokens.entries, ∀ x ∈ e.2.entries, P x.2) (n : AccountName) (d : DisciplineId)
    (t : ExpertToken) (ht : s.expertToken? n d = some t) : P t := by
  unfold expertToken? at ht
  obtain ⟨tokens, htokens, ht⟩ := Option.bind_eq_some_iff.1 ht
  exact h (n, tokens) (mem_entries_iff.2 htokens) (d, t) (mem_entries_iff.2 ht)

/-- A budget of a thousand on a ledger with one voted content: three events tell that the content has
got its part, its group 750, and alice as much expertise. -/
theorem Sample.published_rewards_itemised :
    ∃ report l', LedgerM.distributeReward ⟨1000, .primary⟩ published = (.ok report, l') ∧
      published.Rewarded report.events l' ∧ (report.events.map Event.expertise).sum ≤ 1000 ∧
      report.events = [.contentRewarded 0 0 1000, .groupRewarded 0 0 750,
        .expertiseRewarded alice 0 750] := by
  obtain ⟨report, l', hrun, hrewarded, hle⟩ :=
    Ledger.Reachable.rewards_itemised published_reachable (by decide) ⟨1000, .primary⟩ rfl (by decide)
      (by decide +kernel) (State.forall_expertToken? (by decide +kernel))
  have hevents : (LedgerM.distributeReward ⟨1000, .primary⟩ published).1.toOption.map (·.events) =
      some [.contentRewarded 0 0 1000, .groupRewarded 0 0 750, .expertiseRewarded alice 0 750] := by
    decide +kernel
  rw [hrun] at hevents
  exact ⟨report, l', hrun, hrewarded, hle, Option.some.inj hevents⟩

end ResearchLedger
