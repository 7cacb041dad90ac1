import ResearchLedger.Proofs.Bystander
import ResearchLedger.Proofs.History

/-! Where a recovery comes from: the request that it fulfils and the owner authority that vouches for
it are found in the history of the run. -/
namespace ResearchLedger

open SortedMap

variable {s s' : State} {l l' l₀ : Ledger} {n k : AccountName} {x : Ledger × Operation}
  {history before after : List (Ledger × Operation)} {config : Config} {genesis : Genesis}
  {steps : List Step} {now : Seconds}

namespace Operation

/-- Whether an operation asks for the recovery of an account. -/
def asksFor (n : AccountName) : Operation → Bool
  | requestRecovery op => op.account = n
  | _ => false

/-- Whether an operation recovers an account. -/
def recovers (n : AccountName) : Operation → Bool
  | recoverAccount op => op.account = n
  | _ => false

/-- Whether an operation replaces the owner authority of an account. -/
def replacesOwner (n : AccountName) : Operation → Bool
  | accountUpdate op => op.account = n && op.owner.isSome
  | recoverAccount op => op.account = n
  | _ => false

/-- Whether an operation has nothing to do with owners and their recovery. -/
def keepsOwners : Operation → Bool
  | accountCreate _ | accountUpdate _ | requestRecovery _ | recoverAccount _ => false
  | _ => true

theorem Effect.owners_eq {op : Operation} (h : op.Effect l l') (hop : op.keepsOwners = true) :
    l'.state.recoveryRequests = l.state.recoveryRequests ∧
    l'.state.authorities = l.state.authorities ∧ l'.state.ownerHistory = l.state.ownerHistory := by
  cases h.footprint <;> first | exact ⟨rfl, rfl, rfl⟩ | cases hop

end Operation

/-- Who may ask for the recovery of an account: its recovery partner, or the top witness if it has
none. -/
def State.MayAsk (s : State) (n partner : AccountName) : Prop :=
  ∃ a, s.accounts.get? n = some a ∧ (a.recoveryPartner = some partner ∨
    a.recoveryPartner = none ∧ ∃ w, s.topWitness = .ok w ∧ w.owner = partner)

/-- A request comes from the last operation of a history that asked for the recovery of an account,
by one who was entitled to, and there has been no recovery since. -/
def Requested (config : Config) (history : List (Ledger × Operation)) (n : AccountName)
    (r : RecoveryRequest) : Prop :=
  ∃ earlier l op later, history = earlier ++ (l, .requestRecovery op) :: later ∧
    op.account = n ∧ op.newOwner = r.newOwner ∧
    r.expires = l.head.time.after config.recoveryRequestLifetime ∧ l.state.MayAsk n op.partner ∧
    ∀ x ∈ later, x.2.asksFor n = false ∧ x.2.recovers n = false

/-- An authority was that of the owner until an operation of the history replaced it. -/
def Replaced (history : List (Ledger × Operation)) (n : AccountName) (h : ReplacedOwner) : Prop :=
  ∃ x ∈ history, x.2.replacesOwner n = true ∧ x.1.head.time = h.lastValid ∧
    (x.1.state.authorities.get? n).map (·.owner) = some h.authority

/-- All that a ledger keeps for recoveries comes from its history. -/
structure Recorded (config : Config) (history : List (Ledger × Operation)) (l : Ledger) : Prop where
  config_eq : l.state.config = config
  requests : l.state.recoveryRequests.All fun n r => Requested config history n r ∧
    r.newOwner.isOpen = false ∧ r.newOwner.isImpossible = false
  replaced : l.state.ownerHistory.All fun n hs => l.state.authorities.contains n = true ∧
    ∀ h ∈ hs, Replaced history n h

theorem Requested.snoc {r : RecoveryRequest} (h : Requested config history n r)
    (ha : x.2.asksFor n = false) (hr : x.2.recovers n = false) :
    Requested config (history ++ [x]) n r := by
  obtain ⟨earlier, l, op, later, rfl, hn, howner, hexpires, hmay, hlater⟩ := h
  refine ⟨earlier, l, op, later ++ [x], ?_, hn, howner, hexpires, hmay, fun y hy => ?_⟩
  · rw [List.append_assoc, List.cons_append]
  · rcases List.mem_append.1 hy with hy | hy
    · exact hlater y hy
    · obtain rfl := List.mem_singleton.1 hy
      exact ⟨ha, hr⟩

theorem Replaced.snoc {h : ReplacedOwner} (hh : Replaced history n h) :
    Replaced (history ++ [x]) n h := by
  obtain ⟨y, hy, hrest⟩ := hh
  exact ⟨y, List.mem_append_left _ hy, hrest⟩

namespace RequestRecovery

variable {op : RequestRecovery} {plan : Plan}

theorem checkPartner_ok {a : Account} {u : Unit} (ha : s.accounts.get? op.account = some a)
    (h : op.checkPartner s a = .ok u) : s.MayAsk op.account op.partner := by
  refine ⟨a, ha, ?_⟩
  unfold checkPartner at h
  cases hp : a.recoveryPartner with
  | some partner =>
    rw [hp] at h
    exact .inl (congrArg some (not_not.1 (guard_eq_ok.1 h).1))
  | none =>
    rw [hp] at h
    obtain ⟨partner, hw, h⟩ := bind_eq_ok.1 h
    refine .inr ⟨rfl, ?_⟩
    cases htop : s.topWitness with
    | error e => rw [htop] at hw; cases hw
    | ok w =>
      rw [htop] at hw
      cases hw
      exact ⟨w, rfl, not_not.1 (guard_eq_ok.1 h).1⟩

/-- A request that is admitted is made by one who may ask. It cancels with an open authority, and else
is stored with an authority that somebody can meet. -/
theorem plan_ok (h : op.plan now s = .ok plan) : s.MayAsk op.account op.partner ∧
    (plan = .cancel op.account ∨
      op.newOwner.isOpen = false ∧ op.newOwner.isImpossible = false ∧ plan =
        .store ⟨op.account, op.newOwner, now.after s.config.recoveryRequestLifetime⟩) := by
  unfold RequestRecovery.plan at h
  obtain ⟨a, ha, h⟩ := bind_eq_ok.1 h
  obtain ⟨_, -, h⟩ := bind_eq_ok.1 h
  obtain ⟨_, hpartner, h⟩ := bind_eq_ok.1 h
  obtain ⟨_, -, h⟩ := bind_eq_ok.1 h
  refine ⟨checkPartner_ok (State.account_eq_ok.1 ha) hpartner, ?_⟩
  dsimp only at h
  split at h
  · split at h
    · cases h
      exact .inl rfl
    · rename_i hopen
      obtain ⟨himpossible, h⟩ := guard_bind_eq_ok.1 h
      cases h
      exact .inr ⟨by simpa using hopen, by simpa using himpossible, rfl⟩
  · obtain ⟨himpossible, h⟩ := guard_bind_eq_ok.1 h
    obtain ⟨hopen, h⟩ := guard_bind_eq_ok.1 h
    cases h
    exact .inr ⟨by simpa using hopen, by simpa using himpossible, rfl⟩

end RequestRecovery

namespace RecoverAccount

variable {op : RecoverAccount} {u : Unit}

/-- A recovery that is admitted fulfils an open request, and a replaced owner authority that is still
remembered vouches for it. -/
theorem check_ok (h : op.check now s = .ok u) :
    (∃ r, s.recoveryRequests.get? op.account = some r ∧ now < r.expires ∧ r.newOwner = op.newOwner) ∧
    ∃ hs, s.ownerHistory.get? op.account = some hs ∧ ∃ e ∈ hs, e.authority = op.recentOwner ∧
      now - s.config.ownerRecoveryPeriod ≤ e.lastValid := by
  unfold check at h
  obtain ⟨a, -, h⟩ := bind_eq_ok.1 h
  obtain ⟨-, h⟩ := guard_bind_eq_ok.1 h
  obtain ⟨r, hr, h⟩ := bind_eq_ok.1 h
  obtain ⟨howner, h⟩ := guard_bind_eq_ok.1 h
  obtain ⟨hrecent, -⟩ := guard_eq_ok.1 h
  obtain ⟨hr, hexpires⟩ := Option.filter_eq_some_iff.1 (State.found_eq_ok.1 hr)
  refine ⟨⟨r, hr, by simpa using hexpires, not_not.1 howner⟩, ?_⟩
  simp only [isRecent, getD_eq, Bool.not_eq_true', Bool.not_eq_false, List.any_eq_true,
    Bool.and_eq_true, decide_eq_true_eq, beq_iff_eq] at hrecent
  obtain ⟨e, he, htime, hauthority⟩ := hrecent
  cases hs : s.ownerHistory.get? op.account with
  | none => rw [hs] at he; cases he
  | some entries =>
    rw [hs] at he
    exact ⟨entries, rfl, e, he, hauthority, htime⟩

theorem recoveryRequests_commit (now : Seconds) (s : State) :
    (op.commit now s).recoveryRequests = s.recoveryRequests.erase op.account := by
  unfold commit State.replaceOwner
  dsimp only
  split <;> rfl

theorem ownerHistory_commit (now : Seconds) (s : State) : (op.commit now s).ownerHistory =
    (s.replaceOwner now op.account op.newOwner).ownerHistory := by
  unfold commit State.replaceOwner
  dsimp only
  split <;> rfl

end RecoverAccount

/-- A change of partner that is admitted: both accounts exist. -/
theorem ChangeRecoveryPartner.plan_ok {op : ChangeRecoveryPartner} {plan : ChangeRecoveryPartner.Plan}
    (h : op.plan now s = .ok plan) : s.accounts.contains op.account = true ∧
      s.accounts.contains op.partner = true ∧ (plan = .cancel op.account ∨
        plan = .store ⟨op.account, op.partner, now.after s.config.ownerRecoveryPeriod⟩) := by
  unfold ChangeRecoveryPartner.plan at h
  obtain ⟨a, ha, h⟩ := bind_eq_ok.1 h
  obtain ⟨_, hpartner, h⟩ := bind_eq_ok.1 h
  refine ⟨contains_of_get? (State.account_eq_ok.1 ha), State.checkAccount_eq_ok.1 hpartner, ?_⟩
  split at h <;> cases h
  · exact .inl rfl
  · exact .inr rfl

theorem AccountUpdate.ownerHistory_commit (op : AccountUpdate) (now : Seconds) (s : State) :
    (op.commit now s).ownerHistory = match op.owner with
      | some owner => (s.replaceOwner now op.account owner).ownerHistory
      | none => s.ownerHistory := by
  unfold commit
  cases op.owner <;> rfl

theorem State.ownerHistory_replaceOwner (s : State) (now : Seconds) (owner : Authority) :
    (s.replaceOwner now n owner).ownerHistory = match s.authorities.get? n with
      | some a => s.ownerHistory.insert n (s.ownerHistory.getD n [] ++ [⟨n, a.owner, now⟩])
      | none => s.ownerHistory := by
  unfold replaceOwner
  cases s.authorities.get? n <;> rfl

namespace Recorded

/-- Stores that lose entries keep the rest of the record. -/
theorem shrink (h : Recorded config history l) (hconfig : l'.state.config = l.state.config)
    (hrequests : ∀ n r, l'.state.recoveryRequests.get? n = some r →
      l.state.recoveryRequests.get? n = some r)
    (hauthorities : l'.state.authorities = l.state.authorities)
    (hhistory : ∀ n hs, l'.state.ownerHistory.get? n = some hs →
      ∃ hs', l.state.ownerHistory.get? n = some hs' ∧ ∀ e ∈ hs, e ∈ hs') :
    Recorded config history l' where
  config_eq := hconfig.trans h.config_eq
  requests := fun n r hr => h.requests n r (hrequests n r hr)
  replaced := fun n hs hn => by
    obtain ⟨hs', hn', hsub⟩ := hhistory n hs hn
    obtain ⟨hcontains, hreplaced⟩ := h.replaced n hs' hn'
    exact ⟨hauthorities ▸ hcontains, fun e he => hreplaced e (hsub e he)⟩

/-- The record is about these stores only. -/
theorem congr (h : Recorded config history l) (hconfig : l'.state.config = l.state.config)
    (hrequests : l'.state.recoveryRequests = l.state.recoveryRequests)
    (hauthorities : l'.state.authorities = l.state.authorities)
    (hhistory : l'.state.ownerHistory = l.state.ownerHistory) : Recorded config history l' :=
  h.shrink hconfig (fun _ _ hr => hrequests ▸ hr) hauthorities
    fun _ hs hn => ⟨hs, hhistory ▸ hn, fun _ he => he⟩

/-- What no operation does only takes from the record. -/
theorem drift (h : Recorded config history l) (hd : Drift l l') : Recorded config history l' := by
  cases hd with
  | @reward _ plan =>
    obtain ⟨_, _, _, he⟩ := State.applyReward_footprint l.state l.head.time plan
    exact h.congr (by rw [he]) (by rw [he]) (by rw [he]) (by rw [he])
  | payment hp =>
    obtain ⟨_, _, _, rfl⟩ := LedgerM.payPowerDown_footprint hp
    exact h.congr rfl rfl rfl rfl
  | upkeep hu =>
    cases hu with
    | grant _ hg =>
      obtain ⟨_, _, _, rfl⟩ := State.processGrant_footprint hg
      exact h.congr rfl rfl rfl rfl
    | requests =>
      refine h.shrink rfl (fun n r hr => ?_) rfl fun n hs hn => ⟨hs, hn, fun _ he => he⟩
      rw [State.dropRecoveryRequests, get?_filter] at hr
      exact (Option.filter_eq_some_iff.1 hr).1
    | partners =>
      obtain ⟨_, _, he⟩ := State.changePartners_footprint l.state l.head.time
      exact h.congr (by rw [he]) (by rw [he]) (by rw [he]) (by rw [he])
    | history =>
      refine h.shrink rfl (fun n r hr => hr) rfl fun n hs hn => ?_
      rw [State.pruneOwnerHistory, get?_filter, get?_mapValues] at hn
      obtain ⟨hs', hn', rfl⟩ := Option.map_eq_some_iff.1 (Option.filter_eq_some_iff.1 hn).1
      exact ⟨hs', hn', fun e he => List.mem_of_mem_filter he⟩
    | returns =>
      obtain ⟨_, _, he⟩ := State.returnDelegations_footprint l.state l.head.time
      exact h.congr (by rw [he]) (by rw [he]) (by rw [he]) (by rw [he])
    | deactivation content =>
      obtain ⟨_, _, _, _, he⟩ := Ledger.deactivate_footprint l content
      exact h.congr (by rw [he]) (by rw [he]) (by rw [he]) (by rw [he])
    | proposals => exact h.congr rfl rfl rfl rfl
    | clock => exact h.congr rfl rfl rfl rfl

/-- An operation that neither asks nor recovers leaves the requests as they are recorded. -/
theorem requests_snoc (h : Recorded config history l) (ha : ∀ n, x.2.asksFor n = false)
    (hr : ∀ n, x.2.recovers n = false) : l.state.recoveryRequests.All fun n r =>
      Requested config (history ++ [x]) n r ∧
        r.newOwner.isOpen = false ∧ r.newOwner.isImpossible = false :=
  h.requests.mono fun n _ hreq => ⟨hreq.1.snoc (ha n) (hr n), hreq.2⟩

theorem replaced_snoc (h : Recorded config history l) : l.state.ownerHistory.All fun n hs =>
    l.state.authorities.contains n = true ∧ ∀ e ∈ hs, Replaced (history ++ [x]) n e :=
  h.replaced.mono fun _ _ hs => ⟨hs.1, fun e he => (hs.2 e he).snoc⟩

/-- A replaced owner authority is recorded. -/
theorem replaceOwner (h : Recorded config history l) {op : Operation} {owner : Authority}
    (hop : op.replacesOwner n = true) :
    (l.state.replaceOwner l.head.time n owner).ownerHistory.All fun k hs =>
      l.state.authorities.contains k = true ∧ ∀ e ∈ hs, Replaced (history ++ [(l, op)]) k e := by
  rw [State.ownerHistory_replaceOwner]
  cases ha : l.state.authorities.get? n with
  | none => exact h.replaced_snoc
  | some a =>
    refine h.replaced_snoc.insert ⟨contains_of_get? ha, fun e he => ?_⟩
    rcases List.mem_append.1 he with he | he
    · have hreplaced : ∀ e ∈ l.state.ownerHistory.getD n [], Replaced history n e :=
        (h.replaced.getD_of ⟨contains_of_get? ha, by simp⟩).2
      exact (hreplaced e he).snoc
    · obtain rfl := List.mem_singleton.1 he
      exact ⟨(l, op), List.mem_append_right _ List.mem_cons_self, hop, rfl, by rw [ha]; rfl⟩

theorem operation (h : Recorded config history l) {op : Operation} (ho : op.Effect l l') :
    Recorded config (history ++ [(l, op)]) l' := by
  have hconfig := (Change.operation ho).config_eq.trans h.config_eq
  by_cases hop : op.keepsOwners = true
  · obtain ⟨hrequests, hauthorities, hhistory⟩ := ho.owners_eq hop
    refine ⟨hconfig, ?_, ?_⟩
    · rw [hrequests]
      exact h.requests_snoc (x := (l, op)) (by cases op <;> first | exact fun _ => rfl | cases hop)
        (by cases op <;> first | exact fun _ => rfl | cases hop)
    · rw [hauthorities, hhistory]
      exact h.replaced_snoc
  cases ho with
  | @requestRecovery op plan hp =>
    refine ⟨hconfig, ?_, ?_⟩
    · obtain ⟨hmay, rfl | ⟨hopen, himpossible, rfl⟩⟩ := RequestRecovery.plan_ok hp
      · intro n r hr
        change (l.state.recoveryRequests.erase op.account).get? n = some r at hr
        rw [get?_erase] at hr
        split at hr
        · cases hr
        · obtain ⟨hreq, hrest⟩ := h.requests n r hr
          exact ⟨hreq.snoc (decide_eq_false ‹_›) rfl, hrest⟩
      · intro n r hr
        change (l.state.recoveryRequests.insert op.account _).get? n = some r at hr
        rw [get?_insert] at hr
        split at hr
        · subst n
          cases hr
          rw [h.config_eq]
          exact ⟨⟨history, l, op, [], rfl, rfl, rfl, rfl, hmay, by simp⟩, hopen, himpossible⟩
        · obtain ⟨hreq, hrest⟩ := h.requests n r hr
          exact ⟨hreq.snoc (decide_eq_false ‹_›) rfl, hrest⟩
    · cases plan <;> exact h.replaced_snoc
  | @recoverAccount op hc =>
    refine ⟨hconfig, ?_, ?_⟩
    · intro n r hr
      dsimp only at hr
      rw [RecoverAccount.recoveryRequests_commit, get?_erase] at hr
      split at hr
      · cases hr
      · obtain ⟨hreq, hrest⟩ := h.requests n r hr
        exact ⟨hreq.snoc rfl (decide_eq_false ‹_›), hrest⟩
    · dsimp only
      rw [RecoverAccount.ownerHistory_commit, RecoverAccount.authorities_commit]
      refine (h.replaceOwner (by simp [Operation.replacesOwner])).mono fun k hs hk => ⟨?_, hk.2⟩
      rw [contains_modify]
      exact hk.1
  | @accountUpdate op hc =>
    have hwithin : ∀ k, (op.commit l.head.time l.state).authorities.contains k =
        l.state.authorities.contains k := by
      intro k
      unfold AccountUpdate.commit
      refine contains_modify.trans ?_
      cases op.owner with
      | none => rfl
      | some owner =>
        dsimp only
        rw [State.authorities_replaceOwner, contains_modify]
    refine ⟨hconfig, ?_, ?_⟩
    · have hkept : (op.commit l.head.time l.state).recoveryRequests = l.state.recoveryRequests := by
        unfold AccountUpdate.commit State.replaceOwner
        cases op.owner with
        | none => rfl
        | some owner => cases l.state.authorities.get? op.account <;> rfl
      dsimp only
      rw [hkept]
      exact h.requests_snoc (fun _ => rfl) fun _ => rfl
    · dsimp only
      rw [AccountUpdate.ownerHistory_commit]
      simp only [hwithin]
      cases howner : op.owner with
      | none => exact h.replaced_snoc
      | some owner => exact h.replaceOwner (by simp [Operation.replacesOwner, howner])
  | @accountCreate op hc =>
    refine ⟨hconfig, ?_, ?_⟩
    · have hkept : (op.commit l.head.time l.state).recoveryRequests = l.state.recoveryRequests := by
        unfold AccountCreate.commit
        dsimp only
        split <;> rfl
      dsimp only
      rw [hkept]
      exact h.requests_snoc (fun _ => rfl) fun _ => rfl
    · have hkept : (op.commit l.head.time l.state).ownerHistory = l.state.ownerHistory := by
        unfold AccountCreate.commit
        dsimp only
        split <;> rfl
      dsimp only
      rw [hkept, AccountCreate.authorities_commit]
      exact h.replaced_snoc.mono fun k hs hk => ⟨contains_insert.2 (.inr hk.1), hk.2⟩
  | _ => exact absurd hop (by simp [Operation.keepsOwners])

/-- On any way from a ledger without a record, all that is kept is recorded. -/
theorem passes (h : Passes l₀ history l) (hstart : Recorded config [] l₀) :
    Recorded config history l := by
  induction h with
  | refl => exact hstart
  | drift _ hd ih => exact ih.drift hd
  | operation _ ho ih => exact ih.operation (Operation.effect_of_run (LedgerM.apply_ok ho))

theorem ofGenesis (h : Ledger.ofGenesis config genesis = .ok l) : Recorded config [] l := by
  obtain ⟨hs, -⟩ := Ledger.ofGenesis_ok h
  obtain ⟨hrequests, hhistory⟩ : l.state.recoveryRequests = ∅ ∧ l.state.ownerHistory = ∅ :=
    State.ofGenesis_invariant (P := fun s => s.recoveryRequests = ∅ ∧ s.ownerHistory = ∅) hs
      (fun _ => ⟨rfl, rfl⟩) fun _ _ hc hp => by cases hc <;> exact hp
  exact ⟨State.config_ofGenesis hs, hrequests ▸ .empty, hhistory ▸ .empty⟩

end Recorded

/-- Whenever an account is recovered, the last operation that asked for it named the new owner, was
made not too long ago by its recovery partner of that time, and has not been used before; the authority
that vouches for the recovery was that of the owner and was replaced not too long ago; the new owner is
one that somebody has to and can sign for. After it the account has the new owner, its history ends
with the old one, and no request is left. -/
theorem Ledger.recovery_authorised (h : ofGenesis config genesis = .ok l₀)
    (hsteps : ∀ step ∈ steps, step.Storable) {op : RecoverAccount}
    (hrun : l₀.carriedOut steps = before ++ (l, .recoverAccount op) :: after) :
    (∃ earlier lr request later, before = earlier ++ (lr, .requestRecovery request) :: later ∧
      request.account = op.account ∧ request.newOwner = op.newOwner ∧
      l.head.time < lr.head.time.after config.recoveryRequestLifetime ∧
      lr.state.MayAsk op.account request.partner ∧
      ∀ x ∈ later, x.2.asksFor op.account = false ∧ x.2.recovers op.account = false) ∧
    (∃ x ∈ before, x.2.replacesOwner op.account = true ∧
      (x.1.state.authorities.get? op.account).map (·.owner) = some op.recentOwner ∧
      l.head.time - config.ownerRecoveryPeriod ≤ x.1.head.time) ∧
    op.newOwner.isOpen = false ∧ op.newOwner.isImpossible = false ∧
    ∃ events l' present replaced, (Operation.recoverAccount op).apply l = (.ok events, l') ∧
      l.state.authorities.get? op.account = some present ∧
      l.state.ownerHistory.get? op.account = some replaced ∧
      l'.state.authorities.get? op.account =
        some { present with owner := op.newOwner, lastOwnerUpdate := l.head.time } ∧
      l'.state.ownerHistory.get? op.account =
        some (replaced ++ [⟨op.account, present.owner, l.head.time⟩]) ∧
      l'.state.recoveryRequests.get? op.account = none := by
  obtain ⟨hbefore, events, l', ho, -⟩ := (passes_after hsteps).of_append hrun
  have hrecord := Recorded.passes hbefore (.ofGenesis h)
  have heffect := Operation.effect_of_run (LedgerM.apply_ok ho)
  cases heffect with | recoverAccount hc =>
  obtain ⟨⟨r, hr, hexpires, howner⟩, hs, hhistory, e, he, hauthority, htime⟩ :=
    RecoverAccount.check_ok hc
  obtain ⟨⟨earlier, lr, request, later, hsplit, haccount, hnew, hlifetime, hmay, hlater⟩,
    hopen, himpossible⟩ := hrecord.requests _ r hr
  obtain ⟨hcontains, hreplaced⟩ := hrecord.replaced _ hs hhistory
  obtain ⟨present, hpresent⟩ := contains_iff.1 hcontains
  refine ⟨⟨earlier, lr, request, later, hsplit, haccount, hnew.trans howner, hlifetime ▸ hexpires, hmay,
    hlater⟩, ?_, howner ▸ hopen, howner ▸ himpossible, events, _, present, hs, ho, hpresent,
    hhistory, ?_, ?_, ?_⟩
  · obtain ⟨x, hx, hreplaces, hlast, howned⟩ := hreplaced e he
    refine ⟨x, hx, hreplaces, hauthority ▸ howned, ?_⟩
    rw [hlast, ← hrecord.config_eq]
    exact htime
  · dsimp only
    rw [RecoverAccount.authorities_commit, get?_modify_self, hpresent, Option.map_some]
  · dsimp only
    rw [RecoverAccount.ownerHistory_commit, State.ownerHistory_replaceOwner, hpresent]
    dsimp only
    rw [get?_insert_self, getD_eq, hhistory, Option.getD_some]
  · dsimp only
    rw [RecoverAccount.recoveryRequests_commit, get?_erase_self]

namespace Sample

/-- The account of alice falls to bob, and carol, the top witness, asks for its recovery. -/
def stolen : List Step :=
  [.endBlock 4000,
    .operation (.accountUpdate ⟨alice, some (.ofAccount bob), none, none, .empty, ""⟩),
    .endBlock 4000,
    .operation (.requestRecovery ⟨carol, alice, .ofAccount carol⟩),
    .endBlock 600]

/-- Alice confirms with the authority that she had before. -/
def regain : RecoverAccount := ⟨alice, .ofAccount carol, .ofKey .empty⟩

/-- The recovery is carried out, on the request of carol, who was entitled to ask. -/
theorem stolen_regained :
    (founded 1 300 20).carriedOut (stolen ++ [.operation (.recoverAccount regain)]) =
      (founded 1 300 20).carriedOut stolen ++
        [((founded 1 300 20).after stolen, .recoverAccount regain)] ∧
    ∃ earlier lr request later, (founded 1 300 20).carriedOut stolen =
        earlier ++ (lr, .requestRecovery request) :: later ∧
      request.newOwner = .ofAccount carol ∧ lr.state.MayAsk alice request.partner := by
  have hrun : (founded 1 300 20).carriedOut (stolen ++ [.operation (.recoverAccount regain)]) =
      (founded 1 300 20).carriedOut stolen ++
        [((founded 1 300 20).after stolen, .recoverAccount regain)] := by
    rw [Ledger.carriedOut_append, Ledger.carriedOut, Ledger.carriedOut, List.append_nil,
      Step.carriedOut_operation (by decide +kernel)]
  have hsteps : ∀ step ∈ stolen ++ [.operation (.recoverAccount regain)], step.Storable := by decide
  obtain ⟨⟨earlier, lr, request, later, hsplit, -, hnew, -, hmay, -⟩, -⟩ :=
    @Ledger.recovery_authorised ((founded 1 300 20).after stolen) (founded 1 300 20)
      ((founded 1 300 20).carriedOut stolen) [] {} (founders 1 300 20) _ rfl hsteps regain hrun
  exact ⟨hrun, earlier, lr, request, later, hsplit, hnew, hmay⟩

end Sample

end ResearchLedger
