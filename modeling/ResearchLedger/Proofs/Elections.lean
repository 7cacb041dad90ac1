import ResearchLedger.Proofs.ProxyChange

/-! What single changes do to the numbers that elections rest on. -/
namespace ResearchLedger

open SortedMap

variable {s s' : State} {l l' : Ledger} {op : Operation} {c : Count} {config : Config}
  {genesis : Genesis} {steps : List Step}

namespace State

/-- Nothing has changed that elections rest on. -/
structure SamePoll (s s' : State) : Prop where
  accounts : Keeps Account.standing s.accounts s'.accounts
  witnesses : s'.witnesses = s.witnesses
  witnessVotes : s'.witnessVotes = s.witnessVotes

theorem SamePoll.chained (h : SamePoll s s') (hs : s.Chained) : s'.Chained :=
  hs.congr (proxyOf_keeps (h.accounts.map (·.2.2.1))) h.accounts.within h.witnessVotes
    (h.witnesses ▸ .refl)

theorem SamePoll.exact_iff (h : SamePoll s s') : s'.Exact ↔ s.Exact := by
  unfold Exact
  simp only [noted_keeps (h.accounts.map (·.2.2.2)) h.witnesses,
    count_keeps (h.accounts.map fun x => (x.2.1, x.2.2.1)) h.witnessVotes]

theorem samePoll_modifyAccount {n : AccountName} {f : Account → Account}
    (hf : ∀ a, (f a).standing = a.standing) : s.SamePoll (s.modifyAccount n f) where
  accounts := .modify_self hf
  witnesses := rfl
  witnessVotes := rfl

/-- Nothing belongs into a number that is not kept. -/
theorem Chained.count_eq_zero (hs : s.Chained) (h : s.noted c = none) : s.count c = 0 := by
  refine sumOf_eq_zero fun n a _ => ?_
  have hcounts : s.counts c n = false := by
    cases c with
    | through account slot =>
      have habsent := contains_eq_false_iff.2 (Option.map_eq_none_iff.1 h)
      refine decide_eq_false fun hclimb => ?_
      rw [climb_succ] at hclimb
      obtain ⟨y, -, hy⟩ := Option.bind_eq_some_iff.1 hclimb
      have := hs.proxies y account hy
      rw [habsent] at this
      cases this
    | votes witness =>
      have habsent := contains_eq_false_iff.2 (Option.map_eq_none_iff.1 h)
      have happroves : ∀ x, s.approves x witness = false := by
        intro x
        refine Bool.eq_false_iff.2 fun hx => ?_
        have := (hs.voters x witness hx).2.2
        rw [habsent] at this
        cases this
      simp [counts, happroves]
  rw [hcounts]
  rfl

/-- New numbers begin with nothing. -/
theorem Exact.widen (he : s.Exact) (hs : s.Chained) (hcount : ∀ c, s'.count c = s.count c)
    (hnoted : ∀ c x, s'.noted c = some x → s.noted c = some x ∨ s.noted c = none ∧ x = 0) :
    s'.Exact := by
  intro c x hx
  rw [hcount]
  rcases hnoted c x hx with h | ⟨h, rfl⟩
  · exact he c x h
  · exact (hs.count_eq_zero h).symm

variable {n : AccountName} {a : Account}

theorem proxyOf_insert (hn : s.accounts.get? n = none) (ha : a.proxy = none) (x : AccountName) :
    proxyOf { s with accounts := s.accounts.insert n a } x = s.proxyOf x := by
  unfold proxyOf
  dsimp only
  rw [get?_insert]
  split
  · subst x
    rw [hn]
    exact ha
  · rfl

/-- A new account has no proxy and no votes, and is nobody's proxy. -/
theorem Chained.insert (hs : s.Chained) (hn : s.accounts.get? n = none) (ha : a.proxy = none) :
    Chained { s with accounts := s.accounts.insert n a } :=
  hs.congr (proxyOf_insert hn ha) .insert rfl .refl

theorem Exact.insert (he : s.Exact) (hs : s.Chained) (hn : s.accounts.get? n = none)
    (h₀ : a.commonTokens = 0) (hp : a.proxy = none) (hslots : a.proxied = .replicate maxProxyDepth 0) :
    Exact { s with accounts := s.accounts.insert n a } := by
  refine he.widen hs (fun c => ?_) fun c x hx => ?_
  · have hcounts : ∀ x, counts { s with accounts := s.accounts.insert n a } c x = s.counts c x :=
      counts_congr (proxyOf_insert hn hp) rfl c
    unfold count
    simp only [hcounts]
    rw [sumOf_insert_new hn, h₀, ite_self, zero_add]
  · cases c with
    | votes => exact .inl hx
    | through account slot =>
      simp only [noted] at hx ⊢
      rw [get?_insert] at hx
      split at hx
      · subst account
        cases hx
        refine .inr ⟨by rw [hn]; rfl, ?_⟩
        dsimp only
        rw [hslots]
        exact Vector.getElem_replicate _
      · exact .inl hx

/-- A new witness has no votes. -/
theorem Exact.register (he : s.Exact) (hs : s.Chained) {w : Witness}
    (hw : w.votes = ((s.witnesses.get? n).map (·.votes)).getD 0) :
    Exact { s with witnesses := s.witnesses.insert n w } := by
  refine he.widen hs (fun c => ?_) fun c x hx => ?_
  · have hk : Keeps Account.ballot s.accounts s.accounts := .refl
    exact count_keeps hk rfl c
  · cases c with
    | through => exact .inl hx
    | votes witness =>
      simp only [noted] at hx ⊢
      rw [get?_insert] at hx
      split at hx
      · subst witness
        cases hx
        dsimp only
        rw [hw]
        cases s.witnesses.get? n with
        | none => exact .inr ⟨rfl, rfl⟩
        | some w => exact .inl rfl
      · exact .inl hx

end State

theorem Upkeep.samePoll (h : Upkeep l l') : l.state.SamePoll l'.state := by
  have hk := h.keepsStanding
  cases h.footprint with
  | deactivation content =>
    obtain ⟨_, _, _, _, he⟩ := Ledger.deactivate_footprint l content
    rw [he] at hk ⊢
    exact ⟨hk, rfl, rfl⟩
  | rest => exact ⟨hk, rfl, rfl⟩

theorem State.samePoll_applyReward (s : State) (now : Seconds) (p : RewardPlan) :
    s.SamePoll (s.applyReward now p) := by
  have hk := applyReward_keeps (f := Account.standing) (fun _ _ => rfl) s now p
  obtain ⟨_, _, _, he⟩ := applyReward_footprint s now p
  rw [he] at hk ⊢
  exact ⟨hk, rfl, rfl⟩

/-- Whether an operation may change what elections rest on. -/
def Operation.polls : Operation → Bool
  | accountCreate _ | transferToCommonTokens _ | setWitnessProxy _ | witnessUpdate _
  | witnessVote _ => true
  | _ => false

theorem Operation.Effect.samePoll (h : op.Effect l l') (hp : op.polls = false) :
    l.state.SamePoll l'.state where
  accounts := h.keepsStanding (by cases op <;> first | rfl | cases hp)
  witnesses := by cases h.footprint <;> first | rfl | cases hp
  witnessVotes := by cases h.footprint <;> first | rfl | cases hp

namespace AccountCreate

variable {op : AccountCreate} {u : Unit}

/-- A new account is created when its creator has paid the fee. -/
theorem poll_commit (now : Seconds) (h : op.check s = .ok u) : ∃ s₁,
    s.SamePoll s₁ ∧ s₁.accounts.get? op.name = none ∧ State.SamePoll
      { s₁ with accounts := s₁.accounts.insert op.name (op.account now) } (op.commit now s) := by
  refine ⟨s.debit op.creator op.fee.amount, State.samePoll_modifyAccount fun _ => rfl,
    get?_debit h, ?_⟩
  unfold commit
  dsimp only
  split <;> exact ⟨.refl, rfl, rfl⟩

theorem chained_commit (now : Seconds) (h : op.check s = .ok u) (hs : s.Chained) :
    (op.commit now s).Chained := by
  obtain ⟨s₁, h₁, hn, h₂⟩ := poll_commit now h
  exact h₂.chained ((h₁.chained hs).insert hn rfl)

theorem exact_commit (now : Seconds) (h : op.check s = .ok u) (hs : s.Chained) (he : s.Exact) :
    (op.commit now s).Exact := by
  obtain ⟨s₁, h₁, hn, h₂⟩ := poll_commit now h
  exact h₂.exact_iff.2 ((h₁.exact_iff.2 he).insert (h₁.chained hs) hn rfl rfl rfl)

end AccountCreate

theorem WitnessUpdate.exact_commit {op : WitnessUpdate} (now : Seconds) (hs : s.Chained)
    (he : s.Exact) : (op.commit now s).Exact := by
  refine he.register hs ?_
  change (s.witnesses.getD op.owner _).votes = _
  rw [getD_eq]
  cases s.witnesses.get? op.owner <;> rfl

namespace TransferToCommonTokens

variable {op : TransferToCommonTokens} {effects : ProxyEffects}

theorem chained_commit (now : Seconds) (hs : s.Chained) : (op.commit now effects s).Chained := by
  have hd : (s.debit op.sender op.amount.amount).Chained := hs.frame fun _ => rfl
  have hk : ((s.debit op.sender op.amount.amount).modifyAccount op.target
      (·.stake op.amount.amount)).Chained := hd.frame fun _ => rfl
  have hx : (((s.debit op.sender op.amount.amount).modifyAccount op.target
      (·.stake op.amount.amount)).creditExpertise op.target commonDiscipline op.amount.amount
        now).Chained := hk.congr (fun _ => rfl) .refl rfl .refl
  exact hx.applyProxyEffects effects

theorem exact_commit (now : Seconds) (h : op.plan s = .ok effects) (hs : s.Chained) (he : s.Exact)
    (hsolvent : s.Solvent) (hm : s.money ≤ Amount.max)
    (hsolvent' : (op.commit now effects s).Solvent)
    (hm' : (op.commit now effects s).money ≤ Amount.max) : (op.commit now effects s).Exact := by
  obtain ⟨hp, ⟨b, hb, -⟩, -, heffects⟩ := plan_ok h
  have hpoll : s.SamePoll (s.debit op.sender op.amount.amount) :=
    State.samePoll_modifyAccount fun _ => rfl
  obtain ⟨b', hb', hstanding⟩ := hpoll.accounts.exists_after hb
  have hstake : b'.commonTokens = b.commonTokens := congrArg (·.2.1) hstanding
  have hcapped : (op.commit now effects s).Capped := by
    refine (he.capped hsolvent hm).stake hs hsolvent.accounts hb hp.le heffects (fun c => ?_)
      fun c => ?_
    · exact (State.noted_frame (f := (·.stake op.amount.amount)) (fun _ => rfl) c).trans
        (State.noted_frame (f := (·.debit op.amount.amount)) (fun _ => rfl) c)
    · have hcounts := State.counts_congr (State.proxyOf_keeps (hpoll.accounts.map (·.2.2.1)))
        hpoll.witnessVotes c op.target
      have hcount : (s.debit op.sender op.amount.amount).count c = s.count c :=
        State.count_frame (f := (·.debit op.amount.amount)) (fun _ => rfl) c
      rw [← hcounts, ← hcount, ← hstake]
      exact State.count_modifyAccount (f := (·.stake op.amount.amount)) hb' (fun _ => rfl) c
  exact hcapped.exact hsolvent' hm'

end TransferToCommonTokens

theorem Operation.Effect.chained (h : op.Effect l l') (hl : l.state.Linked) (hs : l.state.Chained) :
    l'.state.Chained := by
  by_cases hp : op.polls = false
  · exact (h.samePoll hp).chained hs
  · cases h with
    | accountCreate hc => exact AccountCreate.chained_commit _ hc hs
    | transferToCommonTokens => exact TransferToCommonTokens.chained_commit _ hs
    | setWitnessProxy hc => exact SetWitnessProxy.chained_commit hs hl hc
    | witnessUpdate => exact hs.congr (fun _ => rfl) .refl rfl .insert
    | witnessVote hc => exact WitnessVote.chained_commit hs hc
    | _ => exact absurd rfl hp

theorem Operation.Effect.exact (h : op.Effect l l') (hl : l.state.Linked) (hs : l.state.Chained)
    (he : l.state.Exact) (hsolvent : l.state.Solvent) (hm : l.state.money ≤ Amount.max)
    (hsolvent' : l'.state.Solvent) (hm' : l'.state.money ≤ Amount.max) : l'.state.Exact := by
  by_cases hp : op.polls = false
  · exact (h.samePoll hp).exact_iff.2 he
  · cases h with
    | accountCreate hc => exact AccountCreate.exact_commit _ hc hs he
    | transferToCommonTokens hc =>
      exact TransferToCommonTokens.exact_commit _ hc hs he hsolvent hm hsolvent' hm'
    | setWitnessProxy hc =>
      exact SetWitnessProxy.exact_commit hs hl he hsolvent hm hsolvent' hm' hc
    | witnessUpdate => exact WitnessUpdate.exact_commit _ hs he
    | witnessVote hc => exact WitnessVote.exact_commit hs he hsolvent hm hsolvent' hm' hc
    | _ => exact absurd rfl hp

theorem Change.chained (h : Change l l') (hl : l.state.Linked) (hs : l.state.Chained) :
    l'.state.Chained := by
  cases h with
  | operation h => exact h.chained hl hs
  | reward => exact (State.samePoll_applyReward ..).chained hs
  | payment h => exact LedgerM.payPowerDown_chained h hs
  | upkeep h => exact h.samePoll.chained hs

theorem Upkeeps.exact_iff (h : Upkeeps l l') : l'.state.Exact ↔ l.state.Exact := by
  induction h with
  | refl => exact Iff.rfl
  | tail _ hc ih => exact hc.samePoll.exact_iff.trans ih

namespace State

/-- No account of a genesis has a proxy, and no witness has a vote. -/
structure Unpolled (s : State) : Prop where
  accounts : s.accounts.All fun _ a => a.proxy = none ∧ a.proxied = .replicate maxProxyDepth 0
  witnesses : s.witnesses.All fun _ w => w.votes = 0
  witnessVotes : s.witnessVotes = ∅

theorem Unpolled.ofGenesis (h : ofGenesis config genesis = .ok s) : s.Unpolled := by
  refine ofGenesis_invariant h (fun _ => ⟨.empty, .empty, rfl⟩) fun s s' hc hs => ?_
  cases hc with
  | discipline => exact { hs with }
  | account => exact { hs with accounts := hs.accounts.insert ⟨rfl, rfl⟩ }
  | witness => exact { hs with witnesses := hs.witnesses.insert rfl }

theorem Unpolled.proxyOf_eq (h : s.Unpolled) (n : AccountName) : s.proxyOf n = none := by
  unfold proxyOf
  cases ha : s.accounts.get? n with
  | none => rfl
  | some a => exact (h.accounts n a ha).1

theorem Unpolled.approves_eq (h : s.Unpolled) (n w : AccountName) : s.approves n w = false := by
  unfold approves
  rw [h.witnessVotes]
  rfl

theorem Unpolled.chained (h : s.Unpolled) : s.Chained where
  acyclic := fun n k hk => by
    rw [climb, h.proxyOf_eq] at hk
    cases hk
  proxies := fun n q hq => by
    rw [h.proxyOf_eq] at hq
    cases hq
  voters := fun n w hw => by
    rw [h.approves_eq] at hw
    cases hw

theorem Unpolled.exact (h : s.Unpolled) : s.Exact := by
  intro c x hx
  have hcount : s.count c = 0 := by
    refine sumOf_eq_zero fun n a _ => ?_
    cases c with
    | through => simp [counts, climb, h.proxyOf_eq]
    | votes => simp [counts, h.approves_eq]
  rw [hcount]
  cases c with
  | through account slot =>
    obtain ⟨a, ha, rfl⟩ := Option.map_eq_some_iff.1 hx
    rw [(h.accounts account a ha).2]
    exact Vector.getElem_replicate _
  | votes witness =>
    obtain ⟨w, hw, rfl⟩ := Option.map_eq_some_iff.1 hx
    exact h.witnesses witness w hw

end State

end ResearchLedger
