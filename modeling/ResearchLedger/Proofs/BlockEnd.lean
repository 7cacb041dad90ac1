import ResearchLedger.Proofs.BlockPayments

/-! The end of a block: it never fails, and it leaves nothing overdue. -/
namespace ResearchLedger

open SortedMap

variable {s : State} {l l' : Ledger} {config : Config} {genesis : Genesis} {now : Seconds}
  {block : Nat} {n : AccountName}

/-- Nothing is overdue that is seen to before the contents and the proposals. -/
structure State.Cleared (s : State) (now : Seconds) (block : Nat) : Prop where
  requests : s.recoveryRequests.All fun _ r => now < r.expires
  partners : s.partnerChanges.All fun _ c => now < c.effective
  history : s.ownerHistory.All fun _ hs =>
    hs ≠ [] ∧ ∀ h ∈ hs, now ≤ h.lastValid.after s.config.ownerRecoveryPeriod
  returns : s.expiringDelegations.All fun _ e => now < e.expiration
  grants : s.grants.All fun _ g => block < g.endBlock

/-- Nothing is overdue at the head of the chain. -/
structure Ledger.Settled (l : Ledger) : Prop extends
    State.Cleared l.state l.head.time l.head.block where
  contents : l.state.contents.All fun _ c => c.isActive = true → l.head.time < c.activityEnd
  proposals : l.state.proposals.All fun _ p => p.status = .active → l.head.time < p.expiration

namespace State

theorem requests_dropRecoveryRequests (s : State) (now : Seconds) :
    (s.dropRecoveryRequests now).recoveryRequests.All fun _ r => now < r.expires := by
  intro n r h
  unfold dropRecoveryRequests at h
  dsimp only at h
  rw [get?_filter] at h
  exact of_decide_eq_true (Option.filter_eq_some_iff.1 h).2

theorem partners_changePartners (hs : s.partnerChanges.All fun n c => c.account = n) (now : Seconds) :
    (s.changePartners now).partnerChanges.All fun _ c => now < c.effective := by
  intro n c h
  rw [get?_partnerChanges_changePartners hs] at h
  simpa [PartnerChange.isDue] using (Option.filter_eq_some_iff.1 h).2

theorem history_pruneOwnerHistory (s : State) (now : Seconds) :
    (s.pruneOwnerHistory now).ownerHistory.All fun _ hs =>
      hs ≠ [] ∧ ∀ h ∈ hs, now ≤ h.lastValid.after s.config.ownerRecoveryPeriod := by
  intro n hs h
  unfold pruneOwnerHistory at h
  dsimp only at h
  rw [get?_filter, get?_mapValues] at h
  obtain ⟨h, hne⟩ := Option.filter_eq_some_iff.1 h
  obtain ⟨all, -, rfl⟩ := Option.map_eq_some_iff.1 h
  refine ⟨by simpa using hne, fun x hx => ?_⟩
  exact of_decide_eq_true (List.mem_filter.1 hx).2

theorem expiring_returnDelegations
    (hs : s.expiringDelegations.All fun k e => e.expiration = k.1) (now : Seconds) :
    (s.returnDelegations now).1.expiringDelegations.All fun _ e => now < e.expiration := by
  intro k e h
  rw [get?_expiring_returnDelegations] at h
  split at h
  · cases h
  · rw [hs k e h]
    exact not_le.1 ‹_›

theorem proposals_expireProposals (s : State) (now : Seconds) :
    (s.expireProposals now).1.proposals.All fun _ p => p.status = .active → now < p.expiration := by
  intro id p h hactive
  unfold expireProposals at h
  dsimp only at h
  rw [get?_mapValues] at h
  obtain ⟨p, -, rfl⟩ := Option.map_eq_some_iff.1 h
  by_cases hdue : p.isOverdue now = true
  · rw [if_pos hdue] at hactive
    cases hactive
  · rw [if_neg hdue] at hactive ⊢
    unfold Proposal.isOverdue at hdue
    simpa [hactive] using hdue

end State

namespace Ledger

theorem beforePayments_cleared (hs : l.state.Scheduled)
    (hg : l.state.grants.All fun _ g => block < g.endBlock) :
    l.beforePayments.state.Cleared l.head.time block := by
  have hrequests := l.state.requests_dropRecoveryRequests l.head.time
  have hpartners := State.partners_changePartners (s := l.state.dropRecoveryRequests l.head.time)
    hs.partners l.head.time
  obtain ⟨accounts, partners, hp⟩ :=
    State.changePartners_footprint (l.state.dropRecoveryRequests l.head.time) l.head.time
  unfold beforePayments
  rw [hp] at hpartners ⊢
  -- The passes that follow leave alone what the ones before have cleared.
  generalize hpruned : State.pruneOwnerHistory _ l.head.time = s
  have hreturns := State.expiring_returnDelegations (s := s) (by subst s; exact hs.expiring) l.head.time
  obtain ⟨_, _, hr⟩ := State.returnDelegations_footprint s l.head.time
  rw [hr] at hreturns ⊢
  subst hpruned
  exact ⟨hrequests, hpartners, State.history_pruneOwnerHistory _ _, hreturns, hg⟩

/-- Payments of power-downs leave alone what is cleared. -/
theorem cleared_payPowerDowns {names : List AccountName}
    (h : LedgerM.Collects LedgerM.payPowerDown names l l') (hc : l.state.Cleared now block) :
    l'.state.Cleared now block ∧ l'.head = l.head := by
  refine (h.invariant (P := fun x => x.state.Cleared now block ∧ x.head = l.head)
    (fun n events l₁ l₂ hp hl => ?_) ⟨hc, rfl⟩).1
  obtain ⟨_, _, _, rfl⟩ := LedgerM.payPowerDown_footprint hp
  exact ⟨{ hl.1 with }, hl.2⟩

/-- Deactivations change nothing but contents and weights. -/
theorem foldl_deactivate_footprint (ids : List ContentId) (l : Ledger) :
    ∃ contents disciplines voteTotals activeWeight, ids.foldl deactivate l =
      { state := { l.state with contents, disciplines, voteTotals }
        head := { l.head with activeWeight } } := by
  induction ids generalizing l with
  | nil => exact ⟨_, _, _, _, rfl⟩
  | cons id ids ih =>
    obtain ⟨_, _, _, _, h₁⟩ := deactivate_footprint l id
    obtain ⟨_, _, _, _, h⟩ := ih (l.deactivate id)
    rw [List.foldl_cons, h, h₁]
    exact ⟨_, _, _, _, rfl⟩

theorem get?_contents_foldl_deactivate (ids : List ContentId) (l : Ledger) (k : ContentId) :
    (ids.foldl deactivate l).state.contents.get? k =
      if k ∈ ids then (l.state.contents.get? k).map fun c => { c with activity := .inactive }
      else l.state.contents.get? k := by
  induction ids generalizing l with
  | nil => simp
  | cons id ids ih =>
    rw [List.foldl_cons, ih, contents_deactivate, get?_modify]
    by_cases hk : k ∈ ids
    · by_cases hid : id = k <;> simp [hk, hid, Option.map_map, Function.comp_def]
    · by_cases hid : id = k
      · subst hid
        simp [hk]
      · simp [hk, hid, Ne.symm hid]

theorem contents_expireContents (hs : l.state.Linked) :
    l.expireContents.1.state.contents.All fun _ c =>
      c.isActive = true → l.head.time < c.activityEnd := by
  intro k c hc hactive
  unfold expireContents at hc
  dsimp only at hc
  rw [get?_contents_foldl_deactivate] at hc
  have hids : l.state.contents.All fun id c => c.id = id := hs.contents.mono fun _ _ h => h.1
  split at hc
  · obtain ⟨c, -, rfl⟩ := Option.map_eq_some_iff.1 hc
    cases hactive
  · have hover : ¬ (c.isOverdue l.head.time = true) := fun hover =>
      ‹k ∉ l.state.overdueContents l.head.time› (hids.mem_picked.2 ⟨c, hc, hover⟩)
    unfold Content.isOverdue at hover
    simpa [hactive] using hover

theorem afterPayments_settled (hs : l.state.Linked)
    (hc : l.state.Cleared l.head.time l.head.block) : (l.afterPayments l.head.time).Settled ∧
      (l.afterPayments l.head.time).head.time = l.head.time ∧
      (l.afterPayments l.head.time).head.block = l.head.block ∧
      (l.afterPayments l.head.time).state.accounts = l.state.accounts := by
  have hcontents := contents_expireContents hs
  have hproposals := l.expireContents.1.state.proposals_expireProposals l.head.time
  obtain ⟨_, _, _, _, he⟩ := foldl_deactivate_footprint (l.state.overdueContents l.head.time) l
  have he : l.expireContents.1 = _ := he
  unfold afterPayments
  rw [he] at hcontents hproposals ⊢
  exact ⟨⟨{ hc with }, hcontents, hproposals⟩, rfl, rfl, rfl⟩

/-- Time alone touches no power-down. -/
theorem powerDown_upkeeps (h : Upkeeps l l') :
    Keeps Account.powerDown l.state.accounts l'.state.accounts := by
  induction h with
  | refl => exact .refl
  | tail _ hu ih => exact ih.trans (hu.keeps (fun _ _ => rfl) (fun _ _ => rfl) fun _ _ => rfl)

end Ledger

namespace LedgerM

variable {events : List Event}

theorem maintain_of_payPowerDowns (h : payPowerDowns l.beforePayments = (.ok events, l')) :
    ∃ events, maintain l = (.ok events, l'.afterPayments l.head.time) := by
  exact ⟨_,
    bind_eq_ok.2 ⟨l, l, rfl,
    bind_eq_ok.2 ⟨(), _, rfl,
    bind_eq_ok.2 ⟨(), _, rfl,
    bind_eq_ok.2 ⟨(), _, rfl,
    bind_eq_ok.2 ⟨_, _, run_stateStep,
    bind_eq_ok.2 ⟨_, _, h,
    bind_eq_ok.2 ⟨_, _, run_step,
    bind_eq_ok.2 ⟨_, _, run_stateStep, rfl⟩⟩⟩⟩⟩⟩⟩⟩⟩

/-- A maintenance is never refused: it clears what is due and pays each power-down that is. -/
theorem processBlock_total (hl : l.Ready)
    (hg : l.state.grants.All fun _ g => l.head.block < g.endBlock) : ∃ events l',
      processBlock l = (.ok events, l') ∧ l'.Settled ∧ l'.head.time = l.head.time ∧
      l'.head.block = l.head.block ∧ l.DuePaid l.head.time l' := by
  have hbefore := upkeeps_beforePayments l
  obtain ⟨paid, l₁, hp, hready, hc, hpaid⟩ := payPowerDowns_total (hbefore.ready hl)
  obtain ⟨hcleared, hhead⟩ := Ledger.cleared_payPowerDowns hc
    (Ledger.beforePayments_cleared hl.scheduled hg)
  have hhead : l₁.head = l.head := hhead
  obtain ⟨events, hm⟩ := maintain_of_payPowerDowns hp
  rw [← hhead] at hcleared hm
  obtain ⟨hsettled, htime, hblock, haccounts⟩ :=
    Ledger.afterPayments_settled hready.sound.linked hcleared
  refine ⟨events, _, ?_, hsettled, htime.trans (by rw [hhead]), hblock.trans (by rw [hhead]),
    fun n a ha => ?_⟩
  · unfold processBlock
    rw [run_atomically, hm]
  · obtain ⟨b, hb, hdown⟩ := (Ledger.powerDown_upkeeps hbefore).exists_after ha
    obtain ⟨c, hc, hfilled⟩ := hpaid n b hb
    rw [haccounts]
    rw [hdown] at hfilled
    exact ⟨c, hc, hfilled⟩

theorem endBlock_total (hl : l.Ready) (seconds : Seconds) : ∃ events l',
    endBlock seconds l = (.ok events, l') ∧ l'.Settled ∧
    l'.head.time = l.head.time.after seconds ∧ l'.head.block = min (l.head.block + 1) maxWord ∧
    l.DuePaid l'.head.time l' := by
  have hclock : Upkeep l { l with head := l.head.advance seconds } := .clock _ _
  have hadvanced := (Change.upkeep hclock).ready hl
  obtain ⟨granted, l₁, hp, hu, hhead, hg⟩ := processGrants_total hadvanced
  obtain ⟨due, l', hb, hsettled, htime, hblock, hpaid⟩ := processBlock_total (hu.ready hadvanced) hg
  rw [hhead] at htime hblock
  refine ⟨granted ++ due, l', ?_, hsettled, htime, hblock, fun n a ha => ?_⟩
  · rw [run_endBlock, hp]
    dsimp only
    rw [hb]
  · obtain ⟨b, hget, hdown⟩ := (Ledger.powerDown_upkeeps (.head hclock hu)).exists_after ha
    obtain ⟨c, hc, hfilled⟩ := hpaid n b hget
    rw [hhead, hdown] at hfilled
    rw [htime]
    exact ⟨c, hc, hfilled⟩

end LedgerM

theorem Ledger.map_turns {α : Type} (step : α → LedgerM (List Event)) (l : Ledger) (as : List α) :
    (l.turns step as).map (·.2) = as := by
  induction as generalizing l with
  | nil => rfl
  | cons a as ih => rw [turns, List.map_cons, ih]

/-- The power-downs that a block pays are those that are due when it ends, each of them once. -/
theorem Step.payments_endBlock (hl : l.Ready) (seconds : Seconds) :
    (((endBlock seconds).payments l).map (·.2)).Nodup ∧
      ∀ n, n ∈ ((endBlock seconds).payments l).map (·.2) ↔ ∃ a, l.state.accounts.get? n = some a ∧
        a.powerDown.isDue (l.head.time.after seconds) = true := by
  obtain ⟨events, l', h, -⟩ := LedgerM.endBlock_total hl seconds
  have hgranted : (endBlock seconds).granted l = true := by
    rw [granted, perform, run_return, h]
    rfl
  have hpayments : ((endBlock seconds).payments l).map (·.2) =
      LedgerM.duePowerDowns (l.afterGrants seconds).beforePayments := by
    rw [payments, if_pos hgranted]
    exact Ledger.map_turns ..
  have hu : Upkeeps l (l.afterGrants seconds).beforePayments :=
    (LedgerM.endBlock_ok h).1.trans (LedgerM.upkeeps_beforePayments _)
  have hlinked := (hu.ready hl).sound.linked
  have htime : (l.afterGrants seconds).beforePayments.head.time = l.head.time.after seconds := by
    have hclock : Upkeep l { l with head := l.head.advance seconds } := .clock _ _
    obtain ⟨_, l₁, hp, -, hhead, -⟩ := LedgerM.processGrants_total ((Change.upkeep hclock).ready hl)
    change (l.afterGrants seconds).head.time = _
    rw [Ledger.afterGrants, hp]
    exact congrArg Head.time hhead
  rw [hpayments]
  refine ⟨hlinked.accounts.nodup_picked, fun n => ?_⟩
  rw [LedgerM.mem_duePowerDowns hlinked, htime]
  constructor
  · rintro ⟨b, hb, hdue⟩
    obtain ⟨a, ha, hdown⟩ := (Ledger.powerDown_upkeeps hu).exists_of_get? hb
    exact ⟨a, ha, hdown ▸ hdue⟩
  · rintro ⟨a, ha, hdue⟩
    obtain ⟨b, hb, hdown⟩ := (Ledger.powerDown_upkeeps hu).exists_after ha
    exact ⟨b, hb, hdown.symm ▸ hdue⟩

/-- From every reachable ledger a block ends after any number of seconds, and leaves nothing overdue:
no request for a recovery, wish for a partner, replaced authority, loan on its way back, active
content, open proposal or grant. It pays each power-down that is due then once, and what it pays is
something; it touches no other power-down. -/
theorem Ledger.Reachable.endBlock_settles (h : l.Reachable config genesis) (hg : genesis.Storable)
    (seconds : Seconds) : ∃ events l', LedgerM.endBlock seconds l = (.ok events, l') ∧
      l'.head.time = l.head.time.after seconds ∧ l'.head.block = min (l.head.block + 1) maxWord ∧
      l'.Settled ∧ (((Step.endBlock seconds).payments l).map (·.2)).Nodup ∧
      ∀ n a, l.state.accounts.get? n = some a →
        (n ∈ ((Step.endBlock seconds).payments l).map (·.2) ↔
          a.powerDown.isDue l'.head.time = true) ∧
        ∃ b, l'.state.accounts.get? n = some b ∧
          if a.powerDown.isDue l'.head.time = true then a.powerDown.Filled b.powerDown
          else b.powerDown = a.powerDown := by
  have hl := h.ready hg
  obtain ⟨events, l', hend, hsettled, htime, hblock, hpaid⟩ := LedgerM.endBlock_total hl seconds
  obtain ⟨hnodup, hmem⟩ := Step.payments_endBlock hl seconds
  refine ⟨events, l', hend, htime, hblock, hsettled, hnodup, fun n a ha => ⟨?_, hpaid n a ha⟩⟩
  rw [hmem, htime]
  constructor
  · rintro ⟨a', ha', hdue⟩
    obtain rfl := Option.some.inj (ha.symm.trans ha')
    exact hdue
  · exact fun hdue => ⟨a, ha, hdue⟩

namespace Sample

/-- A week after alice has called back a loan and begun to power down, a block ends: she is paid. -/
theorem lent_settles : ((lent.state.accounts.get? alice).map (·.powerDown.isDue 604800)) = some true ∧
    ∃ events l', LedgerM.endBlock 604800 lent = (.ok events, l') ∧ l'.head.time = 604800 ∧
      l'.Settled ∧ alice ∈ ((Step.endBlock 604800).payments lent).map (·.2) := by
  have hreachable : lent.Reachable {} (founders 200000 300 20) :=
    ⟨founded 200000 300 20, lending, rfl, by decide, rfl⟩
  have hdue : ((lent.state.accounts.get? alice).map (·.powerDown.isDue 604800)) = some true := by
    decide +kernel
  refine ⟨hdue, ?_⟩
  obtain ⟨events, l', hend, htime, -, hsettled, -, haccounts⟩ :=
    Ledger.Reachable.endBlock_settles hreachable (by decide) 604800
  have htime : l'.head.time = 604800 := htime.trans (by decide +kernel)
  obtain ⟨a, ha, hdue⟩ := Option.map_eq_some_iff.1 hdue
  refine ⟨events, l', hend, htime, hsettled, (haccounts alice a ha).1.2 ?_⟩
  rw [htime]
  exact hdue

end Sample

end ResearchLedger
