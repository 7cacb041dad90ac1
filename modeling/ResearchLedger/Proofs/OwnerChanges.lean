import ResearchLedger.Proofs.PlacedRuns
import ResearchLedger.Proofs.Requests
import ResearchLedger.Proofs.Safeguards

/-! How often an owner changes. An update and a recovery replace the same authority, but each looks at a
stamp of its own: an update at the one that both write, a recovery at the one that only recoveries write. -/
namespace ResearchLedger

open SortedMap

variable {s : State} {l l' : Ledger} {n : AccountName} {op : Operation} {now limit t : Seconds}
  {history : List (Ledger × Operation)} {config : Config} {genesis : Genesis} {steps : List Step}
  {x y : Ledger × Operation} {xs : List (Ledger × Operation)} {p : Operation → Bool}
  {stamp : State → Option Seconds}

/-- The owner of an account, and when it was put in place. -/
def State.ownership (s : State) (n : AccountName) : Option (Authority × Seconds) :=
  (s.authorities.get? n).map fun a => (a.owner, a.lastOwnerUpdate)

/-- When the owner of an account was put in place. -/
def State.ownerStamp (s : State) (n : AccountName) : Option Seconds := (s.ownership n).map (·.2)

/-- When an account was recovered last. -/
def State.recoveryStamp (s : State) (n : AccountName) : Option Seconds :=
  (s.accounts.get? n).map (·.lastRecovery)

/-- The operations of a kind in a history are no later than their stamp. -/
def Stamped (p : Operation → Bool) (stamp : State → Option Seconds)
    (history : List (Ledger × Operation)) (l : Ledger) : Prop :=
  ∀ x ∈ history, p x.2 = true → ∃ t, stamp l.state = some t ∧ x.1.head.time ≤ t

/-- A later owner change keeps its distance from an earlier one, unless it is a recovery that follows an
update. -/
structure Spaced (limit : Seconds) (x y : Ledger × Operation) : Prop where
  inOrder : x.1.head.time ≤ y.1.head.time
  update : ∀ u, y.2 = .accountUpdate u → limit < y.1.head.time - x.1.head.time
  recoveries : ∀ r r', x.2 = .recoverAccount r → y.2 = .recoverAccount r' →
    limit < y.1.head.time - x.1.head.time

/-- The owner changes of an account in a run. -/
def Ledger.ownerChanges (l : Ledger) (n : AccountName) (steps : List Step) : List (Ledger × Operation) :=
  (l.carriedOut steps).filter (·.2.replacesOwner n)

/-- The owner changes of an account in a window of time. -/
def Ledger.ownerChangesIn (l : Ledger) (n : AccountName) (steps : List Step) (t length : Seconds) :
    List (Ledger × Operation) :=
  (l.ownerChanges n steps).filter fun x => t ≤ x.1.head.time ∧ x.1.head.time ≤ t + length

theorem State.ownerStamp_congr {s' : State} (h : s'.ownership n = s.ownership n) :
    s'.ownerStamp n = s.ownerStamp n := congrArg (Option.map Prod.snd) h

theorem State.exists_authority (h : s.ownerStamp n = some t) :
    ∃ a, s.authorities.get? n = some a ∧ a.lastOwnerUpdate = t := by
  unfold ownerStamp ownership at h
  rw [Option.map_map] at h
  exact Option.map_eq_some_iff.1 h

namespace AccountUpdate

variable {op : AccountUpdate} {owner : Authority} {u : Unit}

/-- A new owner is refused as long as the last one is recent. -/
theorem check_spaced (h : op.check now s = .ok u) (ho : op.owner = some owner)
    (ht : s.ownerStamp op.account = some t) : s.config.ownerUpdateLimit < now - t := by
  obtain ⟨a, ha, rfl⟩ := State.exists_authority ht
  unfold check at h
  obtain ⟨b, hb, h⟩ := bind_eq_ok.1 h
  obtain rfl : b = a := Option.some.inj ((State.found_eq_ok.1 hb).symm.trans ha)
  rw [ho] at h
  exact Nat.not_le.1 (guard_bind_eq_ok.1 h).1

theorem ownership_commit (op : AccountUpdate) (now : Seconds) (s : State) :
    (op.commit now s).ownership op.account =
      (s.ownership op.account).map (op.owner.map (·, now)).getD := by
  unfold commit State.modifyAccount State.ownership
  dsimp only
  rw [get?_modify_self, Option.map_map, Option.map_map]
  cases op.owner with
  | none => rfl
  | some owner =>
    dsimp only
    rw [State.authorities_replaceOwner, get?_modify_self, Option.map_map]
    rfl

end AccountUpdate

namespace RecoverAccount

variable {op : RecoverAccount} {u : Unit}

/-- A recovery is refused as long as the last one is recent. -/
theorem check_spaced (h : op.check now s = .ok u) (ht : s.recoveryStamp op.account = some t) :
    s.config.ownerUpdateLimit < now - t := by
  obtain ⟨a, ha, rfl⟩ := Option.map_eq_some_iff.1 ht
  unfold check at h
  obtain ⟨b, hb, h⟩ := bind_eq_ok.1 h
  obtain rfl : b = a := Option.some.inj ((State.account_eq_ok.1 hb).symm.trans ha)
  exact Nat.not_le.1 (guard_bind_eq_ok.1 h).1

theorem ownership_commit (op : RecoverAccount) (now : Seconds) (s : State) (n : AccountName) :
    (op.commit now s).ownership n =
      if op.account = n then (s.ownership n).map fun _ => (op.newOwner, now) else s.ownership n := by
  unfold State.ownership
  rw [authorities_commit, get?_modify, Option.map_map]
  split
  · rw [Option.map_map]
    rfl
  · rfl

end RecoverAccount

namespace Operation.Effect

/-- What replaces the owner of an account does so at once, and stamps it. -/
theorem stamps_owner (h : op.Effect l l') (hs : l.state.Placed l.state.directory)
    (hop : op.replacesOwner n = true) : l'.state.ownerStamp n = some l.head.time := by
  unfold State.ownerStamp
  cases h with
  | @accountUpdate op hc =>
    obtain ⟨hn, howner⟩ := Bool.and_eq_true_iff.1 hop
    obtain rfl := of_decide_eq_true hn
    obtain ⟨owner, ho⟩ := Option.isSome_iff_exists.1 howner
    obtain ⟨b, hb⟩ := contains_iff.1 (AccountUpdate.check_known hc).1
    dsimp only
    rw [AccountUpdate.ownership_commit, ho, State.ownership, hb]
    rfl
  | @recoverAccount op hc =>
    obtain rfl := of_decide_eq_true hop
    obtain ⟨-, hs', hhistory, -⟩ := RecoverAccount.check_ok hc
    have hn : l.state.accounts.contains op.account = true := (hs.ownerHistory _ hs' hhistory).1
    obtain ⟨b, hb⟩ := contains_iff.1 ((hs.paired _).trans hn)
    dsimp only
    rw [RecoverAccount.ownership_commit, if_pos rfl, State.ownership, hb]
    rfl
  | _ => cases hop

/-- Nothing else touches the owner of an account or its stamp. -/
theorem ownership_eq (h : op.Effect l l') (hn : l.state.accounts.contains n = true)
    (hop : op.replacesOwner n = false) : l'.state.ownership n = l.state.ownership n := by
  cases op with
  | accountCreate op =>
    cases h with | accountCreate hc =>
    unfold State.ownership
    dsimp only
    rw [AccountCreate.authorities_commit, get?_insert_of_ne (AccountCreate.name_ne hc hn)]
  | accountUpdate op =>
    cases h
    dsimp only
    by_cases hne : op.account = n
    · subst hne
      have howner : op.owner = none := by simpa [replacesOwner] using hop
      rw [AccountUpdate.ownership_commit, howner]
      exact Option.map_id' ..
    · rw [State.ownership, State.ownership, AccountUpdate.authorities_commit _ _ hne]
  | recoverAccount op =>
    cases h
    dsimp only
    rw [RecoverAccount.ownership_commit, if_neg (of_decide_eq_false hop)]
  | _ => cases h.footprint; rfl

theorem stamps_recovery (h : op.Effect l l') (hop : op.recovers n = true) :
    l'.state.recoveryStamp n = some l.head.time := by
  cases h with
  | @recoverAccount op hc =>
    obtain rfl := of_decide_eq_true hop
    obtain ⟨a, ha, -⟩ := bind_eq_ok.1 hc
    unfold State.recoveryStamp
    dsimp only
    rw [RecoverAccount.accounts_commit, get?_modify_self, State.account_eq_ok.1 ha]
    rfl
  | _ => cases hop

theorem recoveryStamp_eq (h : op.Effect l l') (hn : l.state.accounts.contains n = true)
    (hop : op.recovers n = false) : l'.state.recoveryStamp n = l.state.recoveryStamp n := by
  cases op with
  | accountCreate op =>
    cases h with | accountCreate hc =>
    exact AccountCreate.map_commit (fun _ _ => rfl) hc hn _
  | recoverAccount op =>
    cases h
    unfold State.recoveryStamp
    dsimp only
    rw [RecoverAccount.accounts_commit, get?_modify_of_ne (of_decide_eq_false hop)]
  | _ => exact ((h.keepsRecovery (fun _ he => by cases he) fun _ he => by cases he).map Prod.snd).map_eq n

end Operation.Effect

namespace Drift

theorem ownership_eq (h : Drift l l') : l'.state.ownership n = l.state.ownership n := by
  cases h.footprint
  rfl

theorem recoveryStamp_eq (h : Drift l l') : l'.state.recoveryStamp n = l.state.recoveryStamp n := by
  suffices Keeps Account.lastRecovery l.state.accounts l'.state.accounts from this.map_eq n
  cases h with
  | @reward _ plan => exact State.applyReward_keeps (fun _ _ => rfl) l.state l.head.time plan
  | payment h =>
    exact LedgerM.payPowerDown_keeps (fun _ _ => rfl) (fun _ _ => rfl) (fun _ _ => rfl)
      (fun _ _ _ => rfl) h
  | upkeep h => exact h.keeps (fun _ _ => rfl) (fun _ _ => rfl) fun _ _ => rfl

end Drift

namespace Stamped

theorem congr (h : Stamped p stamp history l) (hstamp : stamp l'.state = stamp l.state) :
    Stamped p stamp history l' := by
  intro x hx hpx
  rw [hstamp]
  exact h x hx hpx

/-- As time does not go back, a new stamp is not earlier than the operations before it. -/
theorem snoc (h : Stamped p stamp history l) (hbefore : ∀ x ∈ history, x.1.head.time ≤ l.head.time)
    (hsets : p op = true → stamp l'.state = some l.head.time)
    (hkeeps : ∀ t, p op = false → stamp l.state = some t → stamp l'.state = some t) :
    Stamped p stamp (history ++ [(l, op)]) l' := by
  intro x hx hpx
  rcases List.mem_append.1 hx with hx | hx
  · cases hop : p op with
    | true => exact ⟨_, hsets hop, hbefore x hx⟩
    | false =>
      obtain ⟨t, ht, hle⟩ := h x hx hpx
      exact ⟨t, hkeeps t hop ht, hle⟩
  · obtain rfl := List.mem_singleton.1 hx
    exact ⟨_, hsets hpx, le_rfl⟩

theorem owner_snoc (h : Stamped (·.replacesOwner n) (·.ownerStamp n) history l) (ho : op.Effect l l')
    (hs : l.state.Placed l.state.directory) (hbefore : ∀ x ∈ history, x.1.head.time ≤ l.head.time) :
    Stamped (·.replacesOwner n) (·.ownerStamp n) (history ++ [(l, op)]) l' := by
  refine h.snoc hbefore (ho.stamps_owner hs) fun t hop ht => ?_
  -- An account with a stamp exists, so that no creation of an account resets it.
  obtain ⟨a, ha, -⟩ := State.exists_authority ht
  have hn : l.state.accounts.contains n = true := (hs.paired n).symm.trans (contains_of_get? ha)
  exact (State.ownerStamp_congr (ho.ownership_eq hn hop)).trans ht

theorem recovery_snoc (h : Stamped (·.recovers n) (·.recoveryStamp n) history l) (ho : op.Effect l l')
    (hbefore : ∀ x ∈ history, x.1.head.time ≤ l.head.time) :
    Stamped (·.recovers n) (·.recoveryStamp n) (history ++ [(l, op)]) l' := by
  refine h.snoc hbefore ho.stamps_recovery fun t hop ht => ?_
  obtain ⟨a, ha, -⟩ := Option.map_eq_some_iff.1 ht
  exact (ho.recoveryStamp_eq (contains_of_get? ha) hop).trans ht

end Stamped

namespace Spaced

/-- An owner change is accepted only if its stamp allows it. -/
theorem of_stamped (howner : Stamped (·.replacesOwner n) (·.ownerStamp n) history l)
    (hrecovery : Stamped (·.recovers n) (·.recoveryStamp n) history l) (ho : op.Effect l l')
    (hop : op.replacesOwner n = true) (hx : x ∈ history) (hreplaces : x.2.replacesOwner n = true)
    (hle : x.1.head.time ≤ l.head.time) : Spaced l.state.config.ownerUpdateLimit x (l, op) where
  inOrder := hle
  update := by
    rintro u rfl
    cases ho with | accountUpdate hc =>
    obtain ⟨hn, hsome⟩ := Bool.and_eq_true_iff.1 hop
    obtain rfl := of_decide_eq_true hn
    obtain ⟨owner, ho⟩ := Option.isSome_iff_exists.1 hsome
    obtain ⟨t, ht, hstamp⟩ := howner x hx hreplaces
    exact (AccountUpdate.check_spaced hc ho ht).trans_le (Nat.sub_le_sub_left hstamp _)
  recoveries := by
    rintro r r' hr rfl
    cases ho with | recoverAccount hc =>
    obtain rfl := of_decide_eq_true hop
    rw [hr] at hreplaces
    obtain ⟨t, ht, hstamp⟩ := hrecovery x hx (hr ▸ hreplaces)
    exact (RecoverAccount.check_spaced hc ht).trans_le (Nat.sub_le_sub_left hstamp _)

/-- Two changes that are no further apart are an update and a recovery. -/
theorem kinds (h : Spaced limit x y) (hx : x.2.replacesOwner n = true)
    (hy : y.2.replacesOwner n = true) (hle : y.1.head.time - x.1.head.time ≤ limit) :
    (∃ u, x.2 = .accountUpdate u) ∧ ∃ r, y.2 = .recoverAccount r := by
  obtain ⟨lx, x⟩ := x
  obtain ⟨ly, y⟩ := y
  cases y with
  | accountUpdate u => exact absurd (h.update u rfl) (Nat.not_lt.2 hle)
  | recoverAccount r' =>
    cases x with
    | accountUpdate u => exact ⟨⟨u, rfl⟩, r', rfl⟩
    | recoverAccount r => exact absurd (h.recoveries r r' rfl rfl) (Nat.not_lt.2 hle)
    | _ => cases hx
  | _ => cases hy

/-- In a window of time there is one change at most, or an update and then a recovery. -/
theorem window (h : xs.Pairwise (Spaced limit)) (hxs : ∀ x ∈ xs, x.2.replacesOwner n = true)
    (hin : ∀ x ∈ xs, t ≤ x.1.head.time ∧ x.1.head.time ≤ t + limit) :
    xs.length ≤ 1 ∨ ∃ x y u r, xs = [x, y] ∧ x.2 = .accountUpdate u ∧ y.2 = .recoverAccount r := by
  have hpair : xs.Pairwise fun x y => (∃ u, x.2 = .accountUpdate u) ∧ ∃ r, y.2 = .recoverAccount r := by
    refine h.imp_of_mem fun hx hy hspaced => hspaced.kinds (hxs _ hx) (hxs _ hy) ?_
    exact (tsub_le_tsub (hin _ hy).2 (hin _ hx).1).trans_eq (Nat.add_sub_cancel_left ..)
  match xs, hpair with
  | [], _ => exact .inl (Nat.zero_le _)
  | [x], _ => exact .inl le_rfl
  | [x, y], hpair =>
    obtain ⟨⟨u, hu⟩, r, hr⟩ := List.pairwise_pair.1 hpair
    exact .inr ⟨x, y, u, r, rfl, hu, hr⟩
  | x :: y :: z :: zs, hpair =>
    -- The second of three would be a recovery after the first, and an update before the third.
    obtain ⟨hx, hrest⟩ := List.pairwise_cons.1 hpair
    obtain ⟨-, r, hr⟩ := hx y List.mem_cons_self
    obtain ⟨⟨u, hu⟩, -⟩ := (List.pairwise_cons.1 hrest).1 z List.mem_cons_self
    rw [hu] at hr
    cases hr

end Spaced

namespace Ledger

theorem Reachable.spaced_along (h : l.Reachable config genesis) (hp : Passes l history l')
    (hsorted : history.Pairwise fun x y => x.1.head.time ≤ y.1.head.time) :
    Stamped (·.replacesOwner n) (·.ownerStamp n) history l' ∧
      Stamped (·.recovers n) (·.recoveryStamp n) history l' ∧
      (history.filter (·.2.replacesOwner n)).Pairwise (Spaced config.ownerUpdateLimit) := by
  induction hp with
  | refl => exact ⟨fun _ hx => absurd hx List.not_mem_nil, fun _ hx => absurd hx List.not_mem_nil, .nil⟩
  | drift _ hd ih =>
    obtain ⟨howner, hrecovery, hspaced⟩ := ih hsorted
    exact ⟨howner.congr (State.ownerStamp_congr hd.ownership_eq),
      hrecovery.congr hd.recoveryStamp_eq, hspaced⟩
  | @operation history op _ l₁ _ hp ho ih =>
    obtain ⟨hsorted, -, hlast⟩ := List.pairwise_append.1 hsorted
    obtain ⟨howner, hrecovery, hspaced⟩ := ih hsorted
    have heffect := Operation.effect_of_run (LedgerM.apply_ok ho)
    have hbefore : ∀ x ∈ history, x.1.head.time ≤ l₁.head.time :=
      fun x hx => hlast x hx _ List.mem_cons_self
    refine ⟨howner.owner_snoc heffect (h.placed_along hp) hbefore,
      hrecovery.recovery_snoc heffect hbefore, ?_⟩
    rw [List.filter_append]
    refine List.pairwise_append.2 ⟨hspaced, (List.pairwise_singleton ..).filter _, fun x hx y hy => ?_⟩
    obtain ⟨hx, hreplaces⟩ := List.mem_filter.1 hx
    obtain ⟨hy, hop⟩ := List.mem_filter.1 hy
    obtain rfl := List.mem_singleton.1 hy
    rw [← h.config_eq, ← hp.config_eq]
    exact .of_stamped howner hrecovery heffect hop hx hreplaces (hbefore x hx)

/-- The owner of an account and its stamp stay until an operation replaces them. -/
theorem Reachable.ownership_along (h : l.Reachable config genesis) (hp : Passes l history l')
    (hnone : ∀ x ∈ history, x.2.replacesOwner n = false) (hn : l.state.accounts.contains n = true) :
    l'.state.ownership n = l.state.ownership n := by
  have hexists (s : State) : (s.ownership n).isSome = s.authorities.contains n := by
    rw [State.ownership, Option.isSome_map, contains]
  induction hp with
  | refl => rfl
  | drift _ hd ih => rw [hd.ownership_eq, ih hnone]
  | @operation history op _ l₁ _ hp ho ih =>
    obtain ⟨hnone, hop⟩ := List.forall_mem_append.1 hnone
    have hkept := ih hnone
    have hn₁ : l₁.state.accounts.contains n = true := by
      rw [← (h.placed_along hp).paired, ← hexists, hkept, hexists, h.placed.paired, hn]
    rw [(Operation.effect_of_run (LedgerM.apply_ok ho)).ownership_eq hn₁
      (hop _ List.mem_cons_self), hkept]

/-- Take a run from a reachable ledger that never turns the clock back. Of two changes of the owner of an
account, an update comes more than the limit after whatever change there was before, and a recovery more
than the limit after a recovery. So a window of time as long as the limit has one change at most, or an
update and then a recovery. Without such a change the owner and its stamp stay. -/
theorem Reachable.owner_changes_spaced (h : l.Reachable config genesis)
    (hsteps : ∀ step ∈ steps, step.Storable) (hforward : l.Forward steps) (n : AccountName) :
    (l.ownerChanges n steps).Pairwise (Spaced config.ownerUpdateLimit) ∧
    (∀ t, (l.ownerChangesIn n steps t config.ownerUpdateLimit).length ≤ 1 ∨
      ∃ x y u r, l.ownerChangesIn n steps t config.ownerUpdateLimit = [x, y] ∧
        x.2 = .accountUpdate u ∧ y.2 = .recoverAccount r) ∧
    (l.ownerChanges n steps = [] → l.state.accounts.contains n = true →
      (l.after steps).state.ownership n = l.state.ownership n) := by
  have hpasses := passes_after hsteps (l := l)
  obtain ⟨-, -, hspaced⟩ := h.spaced_along (n := n) hpasses hforward.carriedOut_sorted.1
  refine ⟨hspaced, fun t => ?_, fun hnone hn => ?_⟩
  · have hwindow := hspaced.filter (p := fun x =>
      t ≤ x.1.head.time ∧ x.1.head.time ≤ t + config.ownerUpdateLimit)
    refine Spaced.window hwindow (n := n) (t := t) (fun x hx => ?_) fun x hx => ?_
    · exact (List.mem_filter.1 (List.mem_of_mem_filter hx)).2
    · exact of_decide_eq_true (List.mem_filter.1 hx).2
  · refine h.ownership_along hpasses (fun x hx => ?_) hn
    exact Bool.eq_false_of_not_eq_true (List.filter_eq_nil_iff.1 hnone x hx)

end Ledger

namespace Sample

/-- The account of alice falls to bob, is recovered ten minutes later, and changes its owner again as soon
as it may. -/
def hasty : List Step :=
  [.endBlock 4000,
    .operation (.accountUpdate ⟨alice, some (.ofAccount bob), none, none, .empty, ""⟩),
    .operation (.requestRecovery ⟨carol, alice, .ofAccount carol⟩),
    .endBlock 600,
    .operation (.recoverAccount regain),
    .endBlock 3600,
    .operation (.accountUpdate ⟨alice, some (.ofAccount bob), none, none, .empty, ""⟩),
    .endBlock 1,
    .operation (.accountUpdate ⟨alice, some (.ofAccount bob), none, none, .empty, ""⟩)]

/-- Within an hour from the first change there are two, and the third comes more than an hour after the
second. -/
theorem hasty_owner_changes :
    ((founded 1 300 20).ownerChanges alice hasty).map (·.1.head.time) = [4000, 4600, 8201] ∧
    ((founded 1 300 20).ownerChangesIn alice hasty 4000 3600).length = 2 ∧
    ∃ x y u r, (founded 1 300 20).ownerChangesIn alice hasty 4000 3600 = [x, y] ∧
      x.2 = .accountUpdate u ∧ y.2 = .recoverAccount r := by
  have hreach : (founded 1 300 20).Reachable {} (founders 1 300 20) :=
    ⟨founded 1 300 20, [], rfl, by decide, rfl⟩
  have htwo : ((founded 1 300 20).ownerChangesIn alice hasty 4000 3600).length = 2 := by
    decide +kernel
  have hsteps : ∀ step ∈ hasty, step.Storable := by decide
  have hforward : (founded 1 300 20).Forward hasty := by decide +kernel
  obtain ⟨-, hwindow, -⟩ := Ledger.Reachable.owner_changes_spaced hreach hsteps hforward alice
  exact ⟨by decide +kernel, htwo, (hwindow 4000).resolve_left (by rw [htwo]; decide)⟩

end Sample

end ResearchLedger
