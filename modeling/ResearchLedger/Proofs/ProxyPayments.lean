import ResearchLedger.Proofs.ProxyDelta

/-! How the numbers follow a stake: up to the greatest that can be kept while it grows, and exactly
after a payment if none has met that bound. -/
namespace ResearchLedger

open SortedMap

variable {s s' : State} {l l' : Ledger} {c : Count} {n : AccountName} {a : Account} {x amount : Amount}
  {e : ProxyEffects} {events : List Event}

namespace State

/-- Every number is the stake that belongs into it, as far as it can be kept. -/
def Capped (s : State) : Prop := ∀ c x, s.noted c = some x → x = min (s.count c) Amount.max

theorem count_nonneg (hs : s.accounts.All fun _ a => a.Solvent) (c : Count) : 0 ≤ s.count c := by
  refine sumOf_nonneg fun n a ha => ?_
  split
  · exact (hs n a ha).commonTokens
  · exact le_refl _

theorem commonTokens_le_count (hs : s.accounts.All fun _ a => a.Solvent)
    (ha : s.accounts.get? n = some a) (hc : s.counts c n = true) : a.commonTokens ≤ s.count c := by
  have := le_sumOf (f := fun n (a : Account) => if s.counts c n then a.commonTokens else 0)
    (fun n a ha => ?_) ha
  · rwa [if_pos hc] at this
  · split
    · exact (hs n a ha).commonTokens
    · exact le_refl _

theorem Solvent.count_le_money (hs : s.Solvent) (c : Count) : s.count c ≤ s.money := by
  have hle : s.count c ≤ s.stakes := by
    refine sumOf_le_sumOf fun n a ha => ?_
    split
    · exact le_refl _
    · exact (hs.accounts n a ha).commonTokens
  have := hs.balances_nonneg
  have := hs.escrow_nonneg
  have := hs.funds_nonneg
  unfold money
  linarith

theorem Exact.capped (h : s.Exact) (hs : s.Solvent) (hm : s.money ≤ Amount.max) : s.Capped :=
  fun c x hx => (h c x hx).trans (min_eq_left ((hs.count_le_money c).trans hm)).symm

theorem Capped.exact (h : s.Capped) (hs : s.Solvent) (hm : s.money ≤ Amount.max) : s.Exact :=
  fun c x hx => (h c x hx).trans (min_eq_left ((hs.count_le_money c).trans hm))

theorem Capped.in_range (h : s.Capped) (hs : s.accounts.All fun _ a => a.Solvent) :
    s.noted c = some x → 0 ≤ x ∧ x ≤ Amount.max := by
  intro hx
  rw [h c x hx]
  exact ⟨le_min (count_nonneg hs c) (by decide), min_le_right _ _⟩

theorem count_applyProxyEffects : (s.applyProxyEffects e).count c = s.count c :=
  count_keeps (applyProxyEffects_keeps (fun _ _ => rfl) e) (by rw [applyProxyEffects_eq]) c

theorem Chained.applyProxyEffects (h : s.Chained) (e : ProxyEffects) :
    (s.applyProxyEffects e).Chained := by
  have hk := applyProxyEffects_keeps (s := s) (f := Account.proxy) (fun _ _ => rfl) e
  refine h.congr (proxyOf_keeps hk) hk.within (by rw [applyProxyEffects_eq]) ?_
  rw [applyProxyEffects_eq]
  exact fun w hw => contains_foldl_modify.trans hw

/-- When a stake grows, the numbers it belongs into grow with it, as far as they can be kept. -/
theorem Capped.stake (h : s.Capped) (hs : s.Chained) (hsolvent : s.accounts.All fun _ a => a.Solvent)
    (ha : s.accounts.get? n = some a) (hx : 0 ≤ x) (he : s.stakeEffects n x = .ok e)
    (hnoted : ∀ c, s'.noted c = s.noted c) (hcount : ∀ c, s'.count c =
      s.count c + if s.counts c n then Amount.clamp (a.commonTokens + x) - a.commonTokens else 0) :
    (s'.applyProxyEffects e).Capped := by
  intro c y hy
  have hstake := (hsolvent n a ha).commonTokens
  rw [noted_applyProxyEffects fun z hz => h.in_range hsolvent (hnoted c ▸ hz), hnoted,
    stakeEffects_change hs he] at hy
  obtain ⟨z, hz, rfl⟩ := Option.map_eq_some_iff.1 hy
  have hcapped := h c z hz
  have h₀ := count_nonneg hsolvent c
  have hmax := Amount.max_nonneg
  rw [count_applyProxyEffects, hcount, hcapped]
  split
  · have hle := commonTokens_le_count hsolvent ha ‹_›
    rw [Amount.clamp_of_nonneg (by lia), Amount.clamp_of_nonneg (by lia)]
    lia
  · rw [add_zero, add_zero, Amount.clamp_of_nonneg (by lia)]
    lia

end State

namespace LedgerM

variable {r : WithdrawRoute} {rs : List WithdrawRoute} {deposit : Amount} {name : AccountName}

theorem RoutePaid.chained (h : RoutePaid amount r l deposit l') (hs : l.state.Chained) :
    l'.state.Chained := by
  cases h with
  | skip => exact hs
  | stake =>
    have hs₁ : (l.state.modifyAccount r.target (·.stake deposit)).Chained := hs.frame fun _ => rfl
    have hs₂ : ((l.state.modifyAccount r.target (·.stake deposit)).creditExpertise r.target
        commonDiscipline deposit l.head.time).Chained := hs₁.congr (fun _ => rfl) .refl rfl .refl
    exact hs₂.applyProxyEffects _
  | balance => exact hs.frame (f := (·.credit deposit)) fun _ => rfl

theorem RoutesPaid.chained (h : RoutesPaid amount rs l deposit l') (hs : l.state.Chained) :
    l'.state.Chained :=
  h.preserves (P := fun l => l.state.Chained) (fun _ _ _ _ h hs => h.chained hs) hs

/-- Routes carry the numbers along with the stakes. -/
theorem RoutePaid.capped (h : RoutePaid amount r l deposit l') (hs : l.state.Chained)
    (hsolvent : l.state.accounts.All fun _ a => a.Solvent) (hc : l.state.Capped) :
    l'.state.Capped := by
  cases h with
  | skip => exact hc
  | stake hd hp hr he =>
    obtain ⟨a, ha, -⟩ := ResearchLedger.bind_eq_ok.1 he
    have ha := State.account_eq_ok.1 ha
    refine hc.stake hs hsolvent ha hp.le he (fun c => ?_) fun c => ?_
    · exact State.noted_frame (f := (·.stake deposit)) (fun _ => rfl) c
    · exact State.count_modifyAccount (f := (·.stake deposit)) ha (fun _ => rfl) c
  | balance =>
    intro c x hx
    change (l.state.credit r.target deposit).noted c = some x at hx
    change x = min ((l.state.credit r.target deposit).count c) Amount.max
    rw [State.noted_credit] at hx
    rw [State.count_credit]
    exact hc c x hx

theorem RoutesPaid.capped (h : RoutesPaid amount rs l deposit l') (hs : l.state.Chained)
    (hsolvent : l.state.accounts.All fun _ a => a.Solvent) (hc : l.state.Capped) :
    l'.state.Capped := by
  refine (h.preserves (P := fun l => l.state.Chained ∧ (l.state.accounts.All fun _ a => a.Solvent) ∧
    l.state.Capped) (fun _ _ _ _ h hp => ?_) ⟨hs, hsolvent, hc⟩).2.2
  exact ⟨h.chained hp.1, h.solvent hp.2.1, h.capped hp.1 hp.2.1 hp.2.2⟩

variable {rest : Amount}

theorem settle_chained (hs : s.Chained) : (settle s name e amount rest).Chained := by
  have hs₁ : ((s.applyProxyEffects e).credit name rest).Chained :=
    (hs.applyProxyEffects e).frame (f := (·.credit rest)) fun _ => rfl
  have hs₂ := hs₁.frame (n := name)
    (f := (·.afterPayment amount (s.applyProxyEffects e).config.withdrawIntervalSeconds)) fun _ => rfl
  exact hs₂.congr (fun _ => rfl) .refl rfl .refl

theorem noted_settle : (settle s name e amount rest).noted c = (s.applyProxyEffects e).noted c := by
  have hpaid := State.noted_frame (s := (s.applyProxyEffects e).credit name rest) (n := name)
    (f := (·.afterPayment amount (s.applyProxyEffects e).config.withdrawIntervalSeconds))
    (fun _ => rfl) c
  rw [State.noted_credit] at hpaid
  refine Eq.trans ?_ hpaid
  cases c <;> rfl

theorem count_settle (ha : s.accounts.get? name = some a) :
    (settle s name e amount rest).count c = s.count c - if s.counts c name then amount else 0 := by
  have hk := State.applyProxyEffects_keeps (s := s) (f := Account.proxy) (fun _ _ => rfl) e
  have hpaid : Keeps Account.proxy s.accounts ((s.applyProxyEffects e).credit name rest).accounts :=
    hk.trans (.modify_self fun _ => rfl)
  have hvotes : ((s.applyProxyEffects e).credit name rest).witnessVotes = s.witnessVotes := by
    change (s.applyProxyEffects e).witnessVotes = _
    rw [State.applyProxyEffects_eq]
  have hcounts := State.counts_congr (State.proxyOf_keeps hpaid) hvotes c name
  obtain ⟨b, hb, -⟩ := hpaid.exists_after ha
  have hcount := State.count_modifyAccount
    (f := (·.afterPayment amount (s.applyProxyEffects e).config.withdrawIntervalSeconds)) hb
    (fun _ => rfl) c
  have hstake : (b.afterPayment amount
      (s.applyProxyEffects e).config.withdrawIntervalSeconds).commonTokens - b.commonTokens =
        -amount := by
    change b.commonTokens - amount - b.commonTokens = _
    abel
  rw [State.count_credit, State.count_applyProxyEffects, hcounts, hstake] at hcount
  refine Eq.trans ?_ (hcount.trans ?_)
  · cases c <;> rfl
  · split <;> abel

/-- After a payment the numbers are exact exactly if none of them met its bound in the course of it. -/
theorem settle_exact_iff (hs : s.Chained) (hsolvent : s.accounts.All fun _ a => a.Solvent)
    (hc : s.Capped) (ha : s.accounts.get? name = some a) (h₀ : 0 ≤ amount)
    (hle : amount ≤ a.commonTokens) (he : s.stakeEffects name (-amount) = .ok e) :
    (settle s name e amount rest).Exact ↔
      ∀ c x, s.noted c = some x → s.count c ≤ Amount.max := by
  have hmax := Amount.max_nonneg
  -- A number that was cut off at the greatest amount stays too small by what was cut off.
  have hnoted : ∀ {c x}, s.noted c = some x → (settle s name e amount rest).noted c =
      some (min (s.count c) Amount.max - if s.counts c name then amount else 0) := by
    intro c x hx
    have hcount := State.count_nonneg hsolvent c
    rw [noted_settle, State.noted_applyProxyEffects fun _ => hc.in_range hsolvent, hx,
      Option.map_some, State.stakeEffects_change hs he, hc c x hx]
    congr 1
    split
    · have := State.commonTokens_le_count hsolvent ha ‹_›
      have := (hsolvent name a ha).commonTokens_le
      rw [Amount.clamp_of_le (by lia) (by lia)]
      rfl
    · rw [add_zero, sub_zero, Amount.clamp_of_le (by lia) (by lia)]
  constructor
  · intro h c x hx
    have := h c _ (hnoted hx)
    rw [count_settle ha] at this
    have : min (s.count c) Amount.max = s.count c := by linarith
    exact min_eq_left_iff.1 this
  · intro h c x hx
    obtain ⟨y, hy⟩ : ∃ y, s.noted c = some y := by
      rw [noted_settle, State.noted_applyProxyEffects fun _ => hc.in_range hsolvent] at hx
      obtain ⟨y, hy, -⟩ := Option.map_eq_some_iff.1 hx
      exact ⟨y, hy⟩
    rw [hnoted hy] at hx
    cases hx
    rw [count_settle ha, min_eq_left (h c y hy)]

end LedgerM

/-- In the course of its next payment an account makes no number greater than can be kept. -/
def Ledger.Roomy (l : Ledger) (name : AccountName) : Prop :=
  ∀ c x, (LedgerM.midPayment l name).state.noted c = some x →
    (LedgerM.midPayment l name).state.count c ≤ Amount.max

namespace LedgerM

variable {name : AccountName}

theorem payPowerDown_chained (h : payPowerDown name l = (.ok events, l')) (hs : l.state.Chained) :
    l'.state.Chained := by
  obtain ⟨a, l₁, routed, effects, -, -, hr, -, rfl⟩ := payPowerDown_ok h
  exact settle_chained (hr.chained hs)

/-- A payment leaves the numbers exact exactly if it has room for what it moves. -/
theorem payPowerDown_exact_iff (h : payPowerDown name l = (.ok events, l')) (hs : l.state.Chained)
    (hsolvent : l.state.Solvent) (hm : l.state.money ≤ Amount.max) (hexact : l.state.Exact) :
    l'.state.Exact ↔ l.Roomy name := by
  obtain ⟨a, l₁, routed, effects, ha, hmid, hr, he, rfl⟩ := payPowerDown_ok h
  have hc₁ := hr.capped hs hsolvent.accounts (hexact.capped hsolvent hm)
  obtain ⟨hsolvent₁, hgrown⟩ := hr.solvent hsolvent.accounts
  obtain ⟨b, hb, -⟩ := hr.keepsNames.exists_after ha
  obtain ⟨h₀, hle⟩ := (hsolvent.accounts _ _ ha).nextPayment
  have hstake := hgrown name
  rw [State.stakeOf_of_get? ha, State.stakeOf_of_get? hb] at hstake
  unfold Ledger.Roomy
  rw [hmid]
  exact settle_exact_iff (hr.chained hs) hsolvent₁ hc₁ hb h₀ (hle.trans hstake) he

end LedgerM

end ResearchLedger
