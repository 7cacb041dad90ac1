import ResearchLedger.Proofs.Requests
import ResearchLedger.Proofs.Schedule
import ResearchLedger.Proofs.StoredRewards

/-! What happens by itself keeps what a state stores within its ranges: rewards, payments, and what
the time brings. -/
namespace ResearchLedger

open SortedMap

variable {s : State} {l l' : Ledger} {now : Seconds} {amount deposit : Amount}

namespace State.Stored

theorem applyReward {A : AccountName → Prop} {p : RewardPlan} (h : s.Stored)
    (hp : p.Gives A (· ≤ maxWord)) (ht : now ≤ maxWord) : (s.applyReward now p).Stored :=
  applyReward_preserves (fun _ _ _ hs => hs.credit) (fun _ _ _ hs => hs.creditGroup)
    (fun _ _ _ _ hget hs => hs.creditExpertise (hp _ _ hget).2 ht) h

theorem afterShares {block : Nat} {id : GrantId} {g : Grant} (h : s.Stored)
    (hg : s.grants.get? id = some g) (shares : SortedMap GroupId Amount) :
    (s.afterShares block id g shares).Stored := by
  have hmax := (h.grants id g hg).2.amount.2
  have hs := payShares_preserves (fun _ _ _ hs => hs.creditGroup) id shares.entries g.amount h
  have hle := payShares_le id shares.entries s g.amount
  unfold State.afterShares finishGrant
  dsimp only
  generalize State.payShares id s g.amount shares.entries = paid at hs hle ⊢
  split
  · have hgone : Stored { paid.1 with grants := paid.1.grants.erase id } :=
      { hs with grants := hs.grants.erase }
    split
    · exact hgone.credit
    · exact hgone
  · -- A grant that goes on has something left, and never more than it had.
    have hover : ¬ (g.isOver block paid.2.1 = true) := ‹_›
    unfold Grant.isOver at hover
    rw [decide_eq_true_eq, not_or, not_le, not_le] at hover
    have hfits : Amount.Fits paid.2.1 := .of_nonneg hover.2.le (hle.trans hmax)
    exact { hs with grants := hs.grants.modify fun _ hg => ⟨hg.1, { hg.2 with amount := hfits }⟩ }

theorem changePartner {n : AccountName} (h : s.Stored) : (s.changePartner n).Stored := by
  unfold State.changePartner
  split
  · exact h
  · have hgone : Stored { s with partnerChanges := s.partnerChanges.erase n } :=
      { h with partnerChanges := h.partnerChanges.erase }
    exact hgone.modifyAccount fun _ _ ha => { ha with }

theorem returnDelegation {key : Seconds × Nat} {e : ExpiringDelegation} (h : s.Stored) :
    (s.returnDelegation key e).Stored := by
  have hgone : Stored { s with expiringDelegations := s.expiringDelegations.erase key } :=
    { h with expiringDelegations := h.expiringDelegations.erase }
  exact hgone.modifyAccount fun _ _ ha => { ha with }

theorem pruneOwnerHistory (h : s.Stored) : (s.pruneOwnerHistory now).Stored :=
  have kept := h.ownerHistory.mapValues
    (f := fun _ history => history.filter (·.isKept s.config.ownerRecoveryPeriod now))
    fun _ _ hr r hmem => hr r (List.mem_of_mem_filter hmem)
  { h with ownerHistory := kept.filter }

theorem expireProposals (h : s.Stored) : (s.expireProposals now).1.Stored :=
  { h with
    proposals := h.proposals.mapValues fun _ p hp => by
      split
      · exact ⟨hp.1, { hp.2 with }⟩
      · exact hp }

theorem withdrawTotals {content : ContentId} {d : DisciplineId} {t : VoteTotals}
    (ht : l.state.voteTotals.get? (content, d) = some t) (h : l.state.Stored) :
    (l.withdrawTotals content d t).state.Stored := by
  obtain ⟨hcontent, hd, hin⟩ := h.voteTotals _ _ ht
  have hnone : 0 ≤ maxWord := Nat.zero_le _
  exact { h with
    disciplines := h.disciplines.modify fun e he => ⟨he.1, { he.2 with
      activeWeight := (Nat.sub_le ..).trans he.2.activeWeight
      activeResearchWeight := (Nat.sub_le ..).trans he.2.activeResearchWeight }⟩
    voteTotals := h.voteTotals.insert ⟨hcontent, hd, { hin with
      activeWeight := hnone, activeResearchWeight := hnone, activeCuratorsWeight := hnone }⟩ }

theorem deactivate (h : l.state.Stored) (content : ContentId) :
    (l.deactivate content).state.Stored := by
  refine Ledger.deactivate_preserves (P := fun l => l.state.Stored)
    (fun _ _ _ => withdrawTotals) ?_
  exact { h with contents := h.contents.modify fun _ hc => ⟨hc.1, { hc.2 with }⟩ }

end State.Stored

theorem Upkeep.stored (h : Upkeep l l') (hs : l.state.Stored) : l'.state.Stored := by
  cases h with
  | grant hg h =>
    obtain rfl | ⟨shares, -, rfl⟩ := State.processGrant_ok h
    · exact hs
    · exact hs.afterShares hg shares
  | requests => exact { hs with recoveryRequests := hs.recoveryRequests.filter }
  | partners => exact List.foldlRecOn _ _ hs fun _ h _ _ => h.changePartner
  | history => exact hs.pruneOwnerHistory
  | returns => exact List.foldlRecOn _ _ hs fun _ h _ _ => h.returnDelegation
  | deactivation content => exact hs.deactivate content
  | proposals => exact hs.expireProposals
  | clock => exact hs

namespace LedgerM

theorem RoutePaid.stored {r : WithdrawRoute} (h : RoutePaid amount r l deposit l')
    (ht : l.head.time ≤ maxWord) (hs : l.state.Stored) : l'.state.Stored := by
  cases h with
  | skip => exact hs
  | stake => exact (hs.stake.creditExpertise (by decide) ht).applyProxyEffects _
  | balance => exact hs.credit

theorem payPowerDown_stored {n : AccountName} {events : List Event}
    (h : payPowerDown n l = (.ok events, l')) (hl : l.state.Solvent) (ht : l.head.time ≤ maxWord)
    (hs : l.state.Stored) : l'.state.Stored := by
  obtain ⟨a, l₁, routed, effects, ha, -, hr, -, rfl⟩ := payPowerDown_ok h
  have h₀ := (hl.accounts n a ha).nextPayment.1
  obtain ⟨-, hs₁⟩ : l₁.head.time ≤ maxWord ∧ l₁.state.Stored := by
    refine hr.preserves (P := fun l => l.head.time ≤ maxWord ∧ l.state.Stored)
      (fun r deposit l l' h hl => ⟨?_, h.stored hl.1 hl.2⟩) ⟨ht, hs⟩
    obtain ⟨_, _, _, rfl⟩ := h.footprint
    exact hl.1
  have paid := ((hs₁.applyProxyEffects effects).debitExpertise (n := n) (d := commonDiscipline)
    h₀).credit (n := n) (x := a.nextPayment - routed)
  exact paid.modifyAccount fun _ _ hb => hb.afterPayment h₀

end LedgerM

theorem Drift.stored (h : Drift l l') (hl : l.state.Solvent) (ht : l.head.time ≤ maxWord)
    (hs : l.state.Stored) : l'.state.Stored := by
  cases h with
  | reward h =>
    have anyone : l.state.Authored fun _ => True := ⟨fun _ _ _ _ _ => trivial, fun _ _ _ => trivial⟩
    exact hs.applyReward (h.gives anyone (hs.disciplines.mono fun _ _ hd => hd.2.id)) ht
  | payment h => exact LedgerM.payPowerDown_stored h hl ht hs
  | upkeep h => exact h.stored hs

end ResearchLedger
