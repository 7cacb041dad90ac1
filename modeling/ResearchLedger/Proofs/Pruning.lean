import ResearchLedger.Proofs.Recoveries

/-! What a maintenance forgets: only requests and replaced authorities that no recovery could use any
more, then or later. -/
namespace ResearchLedger

open SortedMap

variable {s : State} {n : AccountName} {period now later : Seconds}

/-- A replaced authority is kept as long as it can vouch for an account. The sum may reach the last time
there is, and the difference the first; neither makes a difference to any time that can be stored. -/
theorem ReplacedOwner.isKept_iff {h : ReplacedOwner} (hnow : now ≤ maxWord) :
    h.isKept period now = true ↔ now - period ≤ h.lastValid := by
  unfold isKept Seconds.after
  rw [decide_eq_true_iff, Nat.sub_le_iff_le_add]
  exact Nat.le_min.trans (and_iff_left hnow)

/-- What can vouch later on is still kept now. -/
theorem ReplacedOwner.isKept_of_recent {h : ReplacedOwner} (hle : now ≤ later) (hnow : now ≤ maxWord)
    (hrecent : later - period ≤ h.lastValid) : h.isKept period now = true :=
  (isKept_iff hnow).2 ((Nat.sub_le_sub_right hle period).trans hrecent)

namespace State

/-- A request that is open later on is not dropped now. -/
theorem openRequest_dropRecoveryRequests (hle : now ≤ later) :
    ((s.dropRecoveryRequests now).recoveryRequests.get? n).filter (later < ·.expires) =
      (s.recoveryRequests.get? n).filter (later < ·.expires) := by
  unfold dropRecoveryRequests
  rw [get?_filter, Option.filter_filter]
  congr 1
  funext r
  rw [Bool.eq_iff_iff, Bool.and_eq_true, decide_eq_true_iff, decide_eq_true_iff]
  exact and_iff_right_of_imp hle.trans_lt

theorem ownerHistory_pruneOwnerHistory (s : State) (n : AccountName) (now : Seconds) :
    (s.pruneOwnerHistory now).ownerHistory.getD n [] =
      (s.ownerHistory.getD n []).filter (·.isKept s.config.ownerRecoveryPeriod now) := by
  unfold pruneOwnerHistory
  dsimp only
  rw [getD_eq, getD_eq, get?_filter, get?_mapValues]
  cases s.ownerHistory.get? n with
  | none => rfl
  | some history =>
    rw [Option.map_some, Option.getD_some, Option.filter_some]
    split
    · rfl
    · rename_i hempty
      exact (List.isEmpty_iff.1 (by simpa using hempty)).symm

end State

namespace RecoverAccount

variable {op : RecoverAccount}

/-- The authorities that can vouch for a recovery later on are found before and after a pruning. -/
theorem isRecent_pruneOwnerHistory (hle : now ≤ later) (hnow : now ≤ maxWord) :
    op.isRecent later (s.pruneOwnerHistory now) = op.isRecent later s := by
  have hconfig : (s.pruneOwnerHistory now).config = s.config := rfl
  unfold isRecent
  rw [State.ownerHistory_pruneOwnerHistory, List.any_filter, hconfig]
  refine List.any_congr rfl fun h => ?_
  rw [Bool.and_eq_right_iff_imp, Bool.and_eq_true, decide_eq_true_iff]
  exact fun hrecent => h.isKept_of_recent hle hnow hrecent.1

/-- Whether a recovery is accepted, and how it is refused if not, does not depend on whether a maintenance
has dropped the requests and replaced authorities that were out of date at some time before. -/
theorem check_after_pruning (op : RecoverAccount) (s : State) (hle : now ≤ later)
    (hnow : now ≤ maxWord) :
    op.check later ((s.dropRecoveryRequests now).pruneOwnerHistory now) = op.check later s := by
  have hrequests : (((s.dropRecoveryRequests now).pruneOwnerHistory now).recoveryRequests.get?
      op.account).filter (later < ·.expires) =
      (s.recoveryRequests.get? op.account).filter (later < ·.expires) :=
    State.openRequest_dropRecoveryRequests hle
  have hrecent : op.isRecent later ((s.dropRecoveryRequests now).pruneOwnerHistory now) =
      op.isRecent later s := isRecent_pruneOwnerHistory hle hnow
  unfold check
  rw [hrequests, hrecent]
  rfl

end RecoverAccount

namespace Sample

/-- The account of alice has fallen to bob, carol's request for her does not expire, and a replaced
authority is remembered for ever. -/
def mindful : State :=
  { ((founded 1 300 20).after stolen).state with
    config := { ownerRecoveryPeriod := maxWord }
    recoveryRequests := SortedMap.insert ∅ alice ⟨alice, .ofAccount carol, maxWord⟩ }

/-- On the last but one of all times alice can regain her account, also if a block has just ended. -/
theorem mindful_check_after_pruning : regain.check (maxWord - 1) mindful = .ok () ∧
    regain.check (maxWord - 1)
      ((mindful.dropRecoveryRequests (maxWord - 1)).pruneOwnerHistory (maxWord - 1)) = .ok () := by
  have hbefore : regain.check (maxWord - 1) mindful = .ok () := by decide +kernel
  exact ⟨hbefore, (RecoverAccount.check_after_pruning regain mindful le_rfl (by decide)).trans hbefore⟩

end Sample

end ResearchLedger
