import ResearchLedger.Proofs.ProxyPayments

/-! How the numbers change when an account changes its proxy or its votes. -/
namespace ResearchLedger

open SortedMap

variable {s s' : State} {l l' : Ledger} {c : Count} {n q : AccountName} {a : Account}
  {e : ProxyEffects}

namespace State

/-- The stake that is a number of proxies below an account. -/
def reach (s : State) (n : AccountName) (i : Nat) : Amount :=
  s.accounts.sumOf fun x a => if climb s.proxyOf i x = some n then a.commonTokens else 0

theorem count_eq_gather (hs : s.Chained) (c : Count) : s.count c = s.accounts.sumOf fun x a =>
    a.commonTokens * gather s.proxyOf (s.mark c) (maxProxyDepth + 1) 0 (some x) := by
  refine sumOf_congr fun x a _ => ?_
  rw [gather_mark hs]
  split
  · rw [mul_one]
  · rw [mul_zero]

/-- The stake that votes with an account, by distance, is what stands below it. -/
theorem weigh_ofAccount (he : ∀ slot x, s.noted (.through n slot) = some x →
    x = s.count (.through n slot)) (ha : s.accounts.get? n = some a) (f : Nat → Amount) :
    (ProxyDelta.ofAccount a).weigh f = ∑ i ∈ Finset.range (maxProxyDepth + 1), s.reach n i * f i := by
  refine Finset.sum_congr rfl fun i hi => ?_
  have hi := Finset.mem_range.1 hi
  congr 1
  cases i with
  | zero =>
    have hself : s.reach n 0 = a.commonTokens := by
      have := sumOf_eq_single (f := fun x (a : Account) =>
        if climb s.proxyOf 0 x = some n then a.commonTokens else 0) ha fun x b _ hx =>
          if_neg fun h => hx (Option.some.inj h)
      exact this.trans (if_pos rfl)
    rw [hself]
    simp [ProxyDelta.ofAccount]
  | succ k =>
    have hslot := he ⟨k, by omega⟩ a.proxied[k] (noted_through ha _)
    have hk : k < maxProxyDepth := by omega
    have hreach : s.reach n (k + 1) = s.count (.through n ⟨k, hk⟩) := by
      simp [reach, count, counts]
    rw [hreach, ← hslot]
    simp [ProxyDelta.ofAccount, hi, hk]

/-- One account may have changed its proxy and its votes, and no stake has changed. -/
structure Recast (s s' : State) (n : AccountName) : Prop where
  stakes : Keeps Account.commonTokens s.accounts s'.accounts
  witnesses : ∀ w, s'.witnesses.contains w = s.witnesses.contains w
  proxyOf : ∀ x, x ≠ n → s'.proxyOf x = s.proxyOf x
  approves : ∀ x, x ≠ n → ∀ w, s'.approves x w = s.approves x w

namespace Recast

theorem mark (h : Recast s s' n) (m : Nat) {x : AccountName} (hx : x ≠ n) :
    s'.mark c m x = s.mark c m x := by
  cases c with
  | through => rfl
  | votes witness => simp only [State.mark, h.approves x hx]

theorem chained (h : Recast s s' n) (hs : s.Chained) (hn : s.accounts.contains n = true)
    (hp : ∀ q, s'.proxyOf n = some q → s.accounts.contains q = true ∧ Avoids s.proxyOf n (some q))
    (hv : ∀ w, s'.approves n w = true → s'.proxyOf n = none ∧ s.witnesses.contains w = true) :
    s'.Chained where
  acyclic := by
    refine hs.acyclic.reset h.proxyOf ?_
    cases hq : s'.proxyOf n with
    | none => exact .none
    | some q => exact (hp q hq).2
  proxies := by
    intro x q hq
    rw [h.stakes.contains]
    by_cases hx : x = n
    · subst hx
      exact (hp q hq).1
    · exact hs.proxies x q (h.proxyOf x hx ▸ hq)
  voters := by
    intro x w hw
    rw [h.stakes.contains, h.witnesses]
    by_cases hx : x = n
    · subst hx
      exact ⟨(hv w hw).1, hn, (hv w hw).2⟩
    · rw [h.proxyOf x hx]
      exact hs.voters x w (h.approves x hx w ▸ hw)

/-- What a chain that starts at the changed account gathers anew. -/
theorem gather_own (h : Recast s s' n) (hn : Avoids s.proxyOf n (s'.proxyOf n)) (k m : Nat) :
    gather s'.proxyOf (s'.mark c) (k + 1) m (some n) - gather s.proxyOf (s.mark c) (k + 1) m (some n) =
      s'.mark c m n - s.mark c m n +
        (gather s.proxyOf (s.mark c) k (m + 1) (s'.proxyOf n) -
          gather s.proxyOf (s.mark c) k (m + 1) (s.proxyOf n)) := by
  rw [gather_some, gather_some, gather_congr h.proxyOf (fun m x hx => h.mark m hx) hn]
  abel

/-- What one stake brings into a number changes where its chain meets the changed account. -/
theorem stake_gather (h : Recast s s' n) (hs : s.Chained) (hn : Avoids s.proxyOf n (s'.proxyOf n))
    (x : AccountName) (stake : Amount) :
    stake * gather s'.proxyOf (s'.mark c) (maxProxyDepth + 1) 0 (some x) =
      stake * gather s.proxyOf (s.mark c) (maxProxyDepth + 1) 0 (some x) +
      ∑ i ∈ Finset.range (maxProxyDepth + 1), (if climb s.proxyOf i x = some n then stake else 0) *
        (s'.mark c i n - s.mark c i n +
          (gather s.proxyOf (s.mark c) (maxProxyDepth - i) (i + 1) (s'.proxyOf n) -
            gather s.proxyOf (s.mark c) (maxProxyDepth - i) (i + 1) (s.proxyOf n))) := by
  have hsub : gather s'.proxyOf (s'.mark c) (maxProxyDepth + 1) 0 (some x) -
      gather s.proxyOf (s.mark c) (maxProxyDepth + 1) 0 (some x) = _ :=
    gather_sub h.proxyOf (fun m x hx => h.mark m hx) (hs.acyclic.avoids n)
  rw [sub_eq_iff_eq_add'] at hsub
  rw [hsub, mul_add, Finset.mul_sum]
  congr 1
  refine Finset.sum_congr rfl fun i hi => ?_
  have hi := Finset.mem_range.1 hi
  split
  · rw [Nat.succ_sub (by omega), Nat.zero_add, h.gather_own hn]
  · rw [mul_zero, zero_mul]

/-- When an account changes its proxy or its votes, the stake below it goes along. -/
theorem count (h : Recast s s' n) (hs : s.Chained) (hs' : s'.Chained)
    (hn : Avoids s.proxyOf n (s'.proxyOf n)) (c : Count) :
    s'.count c = s.count c + ∑ i ∈ Finset.range (maxProxyDepth + 1), s.reach n i *
      (s'.mark c i n - s.mark c i n +
        (gather s.proxyOf (s.mark c) (maxProxyDepth - i) (i + 1) (s'.proxyOf n) -
          gather s.proxyOf (s.mark c) (maxProxyDepth - i) (i + 1) (s.proxyOf n))) := by
  have hsum : s'.count c = s.accounts.sumOf fun x a =>
      a.commonTokens * gather s'.proxyOf (s'.mark c) (maxProxyDepth + 1) 0 (some x) := by
    rw [count_eq_gather hs']
    refine sumOf_eq_of_get? fun x => ?_
    have := congrArg (Option.map
      (· * gather s'.proxyOf (s'.mark c) (maxProxyDepth + 1) 0 (some x))) (h.stakes.map_eq x)
    simp only [Option.map_map] at this
    exact this
  rw [hsum, count_eq_gather hs]
  simp only [h.stake_gather hs hn]
  rw [sumOf_add, sumOf_sum]
  congr 1
  exact Finset.sum_congr rfl fun i _ => List.sum_map_mul_right ..

/-- Numbers stay exact if what is noted changes by what the stake below brings elsewhere. -/
theorem exact (h : Recast s s' n) (hs : s.Chained) (hs' : s'.Chained)
    (hn : Avoids s.proxyOf n (s'.proxyOf n)) (he : s.Exact) (hsolvent : s'.Solvent)
    (hm : s'.money ≤ Amount.max) (ha : s.accounts.get? n = some a)
    (hnoted : ∀ c, s'.noted c = (s.noted c).map fun x => Amount.clamp (x +
      (ProxyDelta.ofAccount a).weigh fun i => s'.mark c i n - s.mark c i n +
        (gather s.proxyOf (s.mark c) (maxProxyDepth - i) (i + 1) (s'.proxyOf n) -
          gather s.proxyOf (s.mark c) (maxProxyDepth - i) (i + 1) (s.proxyOf n)))) : s'.Exact := by
  intro c x hx
  rw [hnoted] at hx
  obtain ⟨y, hy, rfl⟩ := Option.map_eq_some_iff.1 hx
  rw [weigh_ofAccount (fun slot => he (.through n slot)) ha, he c y hy, ← h.count hs hs' hn]
  exact Amount.clamp_of_le (count_nonneg hsolvent.accounts c) ((hsolvent.count_le_money c).trans hm)

end Recast

/-- A chain that passes the check never meets an account that had been met before. -/
theorem checkChain_ok {room : Nat} {chain : List AccountName} {u : Unit} (hs : s.Linked)
    (ha : s.accounts.get? q = some a) (hn : n ∈ chain) (h : s.checkChain room chain a = .ok u) :
    Avoids s.proxyOf n (s.proxyOf q) := by
  rw [proxyOf_of_get? ha]
  induction room generalizing q a chain with
  | zero =>
    unfold checkChain at h
    generalize a.proxy = o at h
    cases o with
    | none => exact .none
    | some proxy =>
      obtain ⟨next, -, h⟩ := bind_eq_ok.1 h
      cases (guard_bind_eq_ok.1 h).2
  | succ room ih =>
    unfold checkChain at h
    generalize a.proxy = o at h
    cases o with
    | none => exact .none
    | some proxy =>
      obtain ⟨next, hnext, h⟩ := bind_eq_ok.1 h
      obtain ⟨hmet, h⟩ := guard_bind_eq_ok.1 h
      have hnext := account_eq_ok.1 hnext
      have hrest := ih hnext (List.mem_cons_of_mem _ hn) h
      rw [← proxyOf_of_get? hnext] at hrest
      intro k
      cases k with
      | zero =>
        rintro ⟨⟩
        exact hmet (hs.name_eq hnext ▸ hn)
      | succ k => exact hrest k

/-- A new proxy that is admitted exists, and its chain does not lead back. -/
theorem checkNewProxy_ok {u : Unit} (hs : s.Linked) (h : s.checkNewProxy n q = .ok u) :
    s.accounts.contains q = true ∧ Avoids s.proxyOf n (some q) := by
  unfold checkNewProxy at h
  obtain ⟨hne, h⟩ := guard_bind_eq_ok.1 h
  obtain ⟨a, ha, h⟩ := bind_eq_ok.1 h
  have ha := account_eq_ok.1 ha
  have hrest := checkChain_ok hs ha (n := n) (by simp) h
  refine ⟨contains_of_get? ha, fun k => ?_⟩
  cases k with
  | zero => exact fun h => hne (Option.some.inj h).symm
  | succ k => exact hrest k

end State

namespace SetWitnessProxy

variable {op : SetWitnessProxy} {plan : Plan}

/-- A change of proxy that is admitted: the old chain gives what votes with the account, the new one
receives it, and with a proxy the account's own votes end. -/
theorem plan_ok (h : op.plan s = .ok plan) : ∃ a e,
    s.accounts.get? op.account = some a ∧
    (∀ q, op.proxy = some q → s.checkNewProxy op.account q = .ok ()) ∧
    s.carry op.account a.proxy (ProxyDelta.ofAccount a).neg {} = .ok e ∧
    s.carry op.account op.proxy (ProxyDelta.ofAccount a) e = .ok plan.effects ∧
    plan.account = op.account ∧ plan.proxy = op.proxy ∧
    plan.cleared = if op.proxy.isSome then s.witnessesVotedBy op.account else [] := by
  unfold SetWitnessProxy.plan at h
  obtain ⟨a, ha, h⟩ := bind_eq_ok.1 h
  have ha := State.account_eq_ok.1 ha
  obtain ⟨-, h⟩ := guard_bind_eq_ok.1 h
  have hrest : ∀ {x : Except LedgerError Plan}, x = .ok plan → x = (do
        let e ← s.carry op.account a.proxy (ProxyDelta.ofAccount a).neg {}
        let e' ← s.carry op.account op.proxy (ProxyDelta.ofAccount a) e
        return ⟨op.account, op.proxy, e',
          if op.proxy.isSome then s.witnessesVotedBy op.account else []⟩) →
      ∃ e, s.carry op.account a.proxy (ProxyDelta.ofAccount a).neg {} = .ok e ∧
        s.carry op.account op.proxy (ProxyDelta.ofAccount a) e = .ok plan.effects ∧
        plan.account = op.account ∧ plan.proxy = op.proxy ∧
        plan.cleared = if op.proxy.isSome then s.witnessesVotedBy op.account else [] := by
    rintro x hx rfl
    obtain ⟨e, he, hx⟩ := bind_eq_ok.1 hx
    obtain ⟨e', he', hx⟩ := bind_eq_ok.1 hx
    cases hx
    exact ⟨e, he, he', rfl, rfl, rfl⟩
  dsimp only at h
  split at h
  · rename_i q hq
    obtain ⟨_, hcheck, h⟩ := bind_eq_ok.1 h
    obtain ⟨e, he⟩ := hrest h rfl
    refine ⟨a, e, ha, fun q' hq' => ?_, he⟩
    cases hq.symm.trans hq'
    exact hcheck
  · rename_i hnone
    obtain ⟨e, he⟩ := hrest h rfl
    exact ⟨a, e, ha, fun q hq => absurd hq (hnone q), he⟩

/-- The accounts after a change of proxy. -/
theorem accounts_commit (p : Plan) (s : State) : ∃ votes : Account → Nat, (p.commit s).accounts =
    (s.applyProxyEffects p.effects).accounts.modify p.account fun a =>
      { a with proxy := p.proxy, witnessesVotedFor := votes a } := by
  unfold Plan.commit
  dsimp only
  split
  · exact ⟨(·.witnessesVotedFor), rfl⟩
  · exact ⟨fun _ => 0, rfl⟩

theorem witnesses_commit (p : Plan) (s : State) :
    (p.commit s).witnesses = (s.applyProxyEffects p.effects).witnesses := by
  unfold Plan.commit
  dsimp only
  split <;> rfl

theorem approves_commit (p : Plan) (s : State) (n witness : AccountName) :
    (p.commit s).approves n witness =
      (s.approves n witness && !(!p.cleared.isEmpty && n = p.account)) := by
  have hvotes : (s.applyProxyEffects p.effects).witnessVotes = s.witnessVotes := by
    rw [State.applyProxyEffects_eq]
  unfold Plan.commit
  dsimp only
  split
  · rename_i hempty
    change ((s.applyProxyEffects p.effects).witnessVotes.getD n ∅).contains witness = _
    rw [hvotes, hempty]
    simp [State.approves]
  · rename_i hempty
    have hempty : p.cleared.isEmpty = false := Bool.eq_false_iff.2 hempty
    change (((s.applyProxyEffects p.effects).witnessVotes.erase p.account).getD n ∅).contains witness = _
    rw [hvotes, getD_eq, get?_erase, hempty]
    by_cases hn : n = p.account
    · subst hn
      simp [SortedMap.contains]
    · rw [if_neg (Ne.symm hn)]
      simp [hn, State.approves, getD_eq]

/-- With a proxy the account's own votes end. -/
theorem approves_of_plan (h : op.plan s = .ok plan) (n witness : AccountName) :
    (plan.commit s).approves n witness =
      (s.approves n witness && !(op.proxy.isSome && n = op.account)) := by
  obtain ⟨a, e, -, -, -, -, haccount, -, hcleared⟩ := plan_ok h
  rw [approves_commit, haccount, hcleared]
  cases hw : s.approves n witness with
  | false => rfl
  | true =>
    by_cases hn : n = op.account
    · subst hn
      have hmem := State.mem_witnessesVotedBy.2 hw
      cases op.proxy with
      | none => rfl
      | some q =>
        have hempty : (s.witnessesVotedBy op.account).isEmpty = false := by
          rw [List.isEmpty_eq_false_iff_exists_mem]
          exact ⟨witness, hmem⟩
        simp [hempty]
    · simp [hn]

theorem proxyOf_commit (h : op.plan s = .ok plan) (x : AccountName) :
    (plan.commit s).proxyOf x = if x = op.account then op.proxy else s.proxyOf x := by
  obtain ⟨a, e, ha, -, -, -, haccount, hproxy, -⟩ := plan_ok h
  have hk := State.applyProxyEffects_keeps (s := s) (f := Account.proxy) (fun _ _ => rfl) plan.effects
  obtain ⟨votes, hacc⟩ := accounts_commit plan s
  unfold State.proxyOf
  rw [hacc, haccount, hproxy, get?_modify]
  by_cases hx : x = op.account
  · subst hx
    obtain ⟨b, hb, -⟩ := hk.exists_after ha
    simp [hb]
  · rw [if_neg (Ne.symm hx), if_neg hx]
    exact State.proxyOf_keeps hk x

theorem recast (h : op.plan s = .ok plan) : s.Recast (plan.commit s) op.account where
  stakes := by
    obtain ⟨votes, hacc⟩ := accounts_commit plan s
    rw [hacc]
    exact (State.applyProxyEffects_keeps (fun _ _ => rfl) _).modify fun _ => rfl
  witnesses := by
    intro w
    rw [witnesses_commit, State.applyProxyEffects_eq]
    exact contains_foldl_modify
  proxyOf := fun x hx => (proxyOf_commit h x).trans (if_neg hx)
  approves := by
    intro x hx w
    rw [approves_of_plan h]
    simp [hx]

/-- A new proxy exists, and its chain does not lead back. -/
theorem avoids (hs : s.Linked) (h : op.plan s = .ok plan) (q : AccountName) (hq : op.proxy = some q) :
    s.accounts.contains q = true ∧ Avoids s.proxyOf op.account (some q) := by
  obtain ⟨a, e, -, hcheck, -⟩ := plan_ok h
  exact State.checkNewProxy_ok hs (hcheck q hq)

theorem chained_commit (hs : s.Chained) (hl : s.Linked) (h : op.plan s = .ok plan) :
    (plan.commit s).Chained := by
  have hp : (plan.commit s).proxyOf op.account = op.proxy := (proxyOf_commit h _).trans (if_pos rfl)
  obtain ⟨a, e, ha, -⟩ := plan_ok h
  refine (recast h).chained hs (contains_of_get? ha) ?_ ?_
  · intro q hq
    exact avoids hl h q (hp ▸ hq)
  · intro w hw
    rw [approves_of_plan h] at hw
    rw [hp]
    simp only [decide_true, Bool.and_true, Bool.and_eq_true, Bool.not_eq_true',
      Option.isSome_eq_false_iff, Option.isNone_iff_eq_none] at hw
    exact ⟨hw.2, (hs.voters _ _ hw.1).2.2⟩

theorem noted_commit (hr : ∀ x, s.noted c = some x → 0 ≤ x ∧ x ≤ Amount.max) :
    (plan.commit s).noted c = (s.noted c).map fun x => Amount.clamp (x + plan.effects.change c) := by
  rw [← State.noted_applyProxyEffects hr]
  obtain ⟨votes, hacc⟩ := accounts_commit plan s
  refine State.noted_keeps ?_ (witnesses_commit plan s) c
  rw [hacc]
  exact .modify_self fun _ => rfl

/-- What is heard of the account itself changes with its proxy. -/
theorem mark_sub (hs : s.Chained) (h : op.plan s = .ok plan) (c : Count) (i : Nat) :
    (plan.commit s).mark c i op.account - s.mark c i op.account =
      (if op.proxy = none then s.heard c op.account else 0) -
        if s.proxyOf op.account = none then s.heard c op.account else 0 := by
  cases c with
  | through => simp [State.mark, State.heard]
  | votes witness =>
    simp only [State.mark, State.heard, approves_of_plan h]
    cases hw : s.approves op.account witness with
    | false => simp
    | true =>
      rw [if_pos (hs.voters _ _ hw).1]
      cases op.proxy <;> simp

theorem exact_commit (hs : s.Chained) (hl : s.Linked) (he : s.Exact) (hsolvent : s.Solvent)
    (hm : s.money ≤ Amount.max) (hsolvent' : (plan.commit s).Solvent)
    (hm' : (plan.commit s).money ≤ Amount.max) (h : op.plan s = .ok plan) :
    (plan.commit s).Exact := by
  have hp : (plan.commit s).proxyOf op.account = op.proxy := (proxyOf_commit h _).trans (if_pos rfl)
  obtain ⟨a, e, ha, -, hleave, hjoin, -, -, -⟩ := plan_ok h
  have hq := State.proxyOf_of_get? ha
  have hchained := chained_commit hs hl h
  refine (recast h).exact hs hchained ?_ he hsolvent' hm' ha fun c => ?_
  · rw [hp]
    cases hnew : op.proxy with
    | none => exact .none
    | some q => exact (avoids hl h q hnew).2
  · have hchange := State.carry_change hs hjoin c
    rw [State.carry_change hs hleave c, ProxyEffects.change_empty, zero_add, ProxyDelta.weigh_neg,
      neg_add_eq_sub, ProxyDelta.weigh_sub] at hchange
    rw [noted_commit fun x => (he.capped hsolvent hm).in_range hsolvent.accounts, hchange, hp, hq]
    refine Option.map_congr fun x _ => ?_
    congr 2
    refine ProxyDelta.weigh_congr fun i _ => ?_
    rw [mark_sub hs h, hq]
    abel

end SetWitnessProxy

namespace WitnessVote

variable {op : WitnessVote} {weight : Amount}

/-- A vote that is admitted: the voter has no proxy, and the vote changes its approvals. -/
theorem plan_ok (h : op.plan s = .ok weight) : ∃ a,
    s.accounts.get? op.account = some a ∧ a.proxy = none ∧
    s.witnesses.contains op.witness = true ∧ s.approves op.account op.witness = !op.approve ∧
    weight = a.witnessVoteWeight := by
  unfold WitnessVote.plan at h
  obtain ⟨a, ha, h⟩ := bind_eq_ok.1 h
  obtain ⟨hproxy, h⟩ := guard_bind_eq_ok.1 h
  obtain ⟨w, hw, h⟩ := bind_eq_ok.1 h
  refine ⟨a, State.account_eq_ok.1 ha, by simpa using hproxy,
    contains_of_get? (State.witness_eq_ok.1 hw), ?_⟩
  dsimp only at h
  split at h
  · rename_i happrove
    obtain ⟨-, h⟩ := guard_bind_eq_ok.1 h
    obtain ⟨habsent, h⟩ := guard_bind_eq_ok.1 h
    obtain ⟨-, h⟩ := guard_bind_eq_ok.1 h
    cases h
    rw [happrove]
    exact ⟨Bool.eq_false_iff.2 habsent, rfl⟩
  · rename_i hreject
    obtain ⟨hpresent, h⟩ := guard_bind_eq_ok.1 h
    cases h
    rw [Bool.eq_false_iff.2 hreject]
    refine ⟨?_, rfl⟩
    simpa [State.approves] using hpresent

theorem accounts_commit (op : WitnessVote) (weight : Amount) (s : State) : ∃ votes : Account → Nat,
    (op.commit weight s).accounts =
      s.accounts.modify op.account fun a => { a with witnessesVotedFor := votes a } := by
  refine ⟨fun a => if op.approve then a.witnessesVotedFor + 1 else a.witnessesVotedFor - 1, ?_⟩
  unfold commit
  dsimp only
  split
  · rfl
  · split <;> rfl

theorem witnesses_commit (weight : Amount) (s : State) : (op.commit weight s).witnesses =
    s.witnesses.modify op.witness (·.addVotes (if op.approve then weight else -weight)) := by
  unfold commit
  dsimp only
  split
  · rfl
  · split <;> rfl

theorem witnessVotes_commit (weight : Amount) (s : State) : (op.commit weight s).witnessVotes =
    if op.approve then
      s.witnessVotes.insert op.account (SortedSet.add (s.witnessVotes.getD op.account ∅) op.witness)
    else if ((s.witnessVotes.getD op.account ∅).erase op.witness).isEmpty then
      s.witnessVotes.erase op.account
    else s.witnessVotes.insert op.account ((s.witnessVotes.getD op.account ∅).erase op.witness) := by
  unfold commit
  dsimp only
  split
  · rfl
  · split
    · rename_i hempty
      exact (if_pos hempty).symm
    · rename_i hrest
      exact (if_neg hrest).symm

theorem approves_commit (weight : Amount) (s : State) (n witness : AccountName) :
    (op.commit weight s).approves n witness =
      if n = op.account ∧ witness = op.witness then op.approve else s.approves n witness := by
  have hvotes : (op.commit weight s).witnessVotes.getD n ∅ =
      if n = op.account then
        if op.approve then SortedSet.add (s.witnessVotes.getD n ∅) op.witness
        else (s.witnessVotes.getD n ∅).erase op.witness
      else s.witnessVotes.getD n ∅ := by
    rw [witnessVotes_commit]
    by_cases hn : n = op.account
    · subst hn
      rw [if_pos rfl]
      split
      · exact getD_insert_self
      · split
        · rename_i hempty
          rw [eq_empty_of_isEmpty hempty, getD_eq, get?_erase_self]
          rfl
        · exact getD_insert_self
    · rw [if_neg hn]
      split
      · exact getD_insert_of_ne (Ne.symm hn)
      · split
        · rw [getD_eq, getD_eq, get?_erase_of_ne (Ne.symm hn)]
        · exact getD_insert_of_ne (Ne.symm hn)
  unfold State.approves
  rw [hvotes]
  by_cases hn : n = op.account
  · subst hn
    by_cases hw : witness = op.witness
    · subst hw
      cases op.approve <;> simp [SortedMap.contains, SortedSet.add]
    · cases op.approve <;>
        simp [hw, SortedMap.contains, SortedSet.add, get?_insert_of_ne (Ne.symm hw),
          get?_erase_of_ne (Ne.symm hw)]
  · simp [hn]

theorem proxyOf_commit (weight : Amount) (s : State) (x : AccountName) :
    (op.commit weight s).proxyOf x = s.proxyOf x := by
  obtain ⟨votes, hacc⟩ := accounts_commit op weight s
  refine State.proxyOf_keeps ?_ x
  rw [hacc]
  exact .modify_self fun _ => rfl

theorem recast (weight : Amount) (s : State) : s.Recast (op.commit weight s) op.account where
  stakes := by
    obtain ⟨votes, hacc⟩ := accounts_commit op weight s
    rw [hacc]
    exact .modify_self fun _ => rfl
  witnesses := by
    intro w
    rw [witnesses_commit]
    exact contains_modify
  proxyOf := fun x _ => proxyOf_commit weight s x
  approves := by
    intro x hx w
    rw [approves_commit, if_neg fun h => hx h.1]

theorem chained_commit (hs : s.Chained) (h : op.plan s = .ok weight) :
    (op.commit weight s).Chained := by
  obtain ⟨a, ha, hproxy, hwitness, -, -⟩ := plan_ok h
  have hnone : (op.commit weight s).proxyOf op.account = none := by
    rw [proxyOf_commit, State.proxyOf_of_get? ha, hproxy]
  refine (recast weight s).chained hs (contains_of_get? ha) ?_ ?_
  · intro q hq
    rw [hnone] at hq
    cases hq
  · intro w hw
    refine ⟨hnone, ?_⟩
    rw [approves_commit] at hw
    split at hw
    · rename_i heq
      rw [heq.2]
      exact hwitness
    · exact (hs.voters _ _ hw).2.2

/-- How often a vote adds the weight of the voter to a number. -/
def sign (op : WitnessVote) : Count → Amount
  | .through .. => 0
  | .votes witness => if witness = op.witness then if op.approve then 1 else -1 else 0

theorem noted_commit (hr : ∀ x, s.noted c = some x → 0 ≤ x ∧ x ≤ Amount.max) :
    (op.commit weight s).noted c =
      (s.noted c).map fun x => Amount.clamp (x + weight * op.sign c) := by
  have hsame : s.noted c = (s.noted c).map fun x => Amount.clamp (x + weight * 0) := by
    cases hx : s.noted c with
    | none => rfl
    | some x => simp [Amount.clamp_of_le (hr x hx).1 (hr x hx).2]
  cases c with
  | through account slot =>
    obtain ⟨votes, hacc⟩ := accounts_commit op weight s
    have hk : Keeps Account.proxied s.accounts (op.commit weight s).accounts := by
      rw [hacc]
      exact .modify_self fun _ => rfl
    exact ((hk.map (·[slot])).map_eq account).trans hsame
  | votes witness =>
    by_cases hw : witness = op.witness
    · subst hw
      simp only [State.noted, sign]
      rw [witnesses_commit, get?_modify_self, Option.map_map, Option.map_map]
      refine Option.map_congr fun w _ => ?_
      cases op.approve <;> simp [Witness.addVotes]
    · have hsign : op.sign (.votes witness) = 0 := if_neg hw
      rw [hsign]
      refine Eq.trans ?_ hsame
      simp only [State.noted]
      rw [witnesses_commit, get?_modify_of_ne (Ne.symm hw)]

theorem mark_sub (h : op.plan s = .ok weight) (c : Count) (i : Nat) :
    (op.commit weight s).mark c i op.account - s.mark c i op.account = op.sign c := by
  obtain ⟨a, -, -, -, hbefore, -⟩ := plan_ok h
  cases c with
  | through => simp [State.mark, sign]
  | votes witness =>
    simp only [State.mark, sign, approves_commit]
    by_cases hw : witness = op.witness
    · subst hw
      rw [hbefore]
      cases op.approve <;> simp
    · simp [hw]

theorem exact_commit (hs : s.Chained) (he : s.Exact) (hsolvent : s.Solvent)
    (hm : s.money ≤ Amount.max) (hsolvent' : (op.commit weight s).Solvent)
    (hm' : (op.commit weight s).money ≤ Amount.max) (h : op.plan s = .ok weight) :
    (op.commit weight s).Exact := by
  obtain ⟨a, ha, hproxy, -, -, hweight⟩ := plan_ok h
  have hnone : s.proxyOf op.account = none := (State.proxyOf_of_get? ha).trans hproxy
  refine (recast weight s).exact hs (chained_commit hs h) ?_ he hsolvent' hm' ha fun c => ?_
  · rw [proxyOf_commit, hnone]
    exact .none
  · have hsign : weight * op.sign c = (ProxyDelta.ofAccount a).weigh fun _ => op.sign c := by
      simp only [hweight, ← ProxyDelta.weigh_weight, ProxyDelta.weigh_mul, one_mul]
    rw [noted_commit fun x => (he.capped hsolvent hm).in_range hsolvent.accounts, hsign]
    refine Option.map_congr fun x _ => ?_
    congr 2
    refine ProxyDelta.weigh_congr fun i _ => ?_
    rw [mark_sub h, proxyOf_commit, hnone, gather_none, sub_zero, add_zero]

end WitnessVote

end ResearchLedger
