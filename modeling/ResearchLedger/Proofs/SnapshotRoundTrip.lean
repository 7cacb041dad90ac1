import ResearchLedger.Proofs.Snapshots
import ResearchLedger.Proofs.StoredRuns

/-! Every ledger that decoded requests lead to comes back from its snapshot. -/
namespace ResearchLedger

open SortedMap

variable {s : State} {l : Ledger} {a : Account} {given taken due : Amount} {config : Config}
  {genesis : Genesis} {steps : List Step}

/-- What the ledger itself does not bound fits the words of the machine: the counters of records, what
each account has borrowed, and the number of bytes of the state. -/
structure State.Storable (s : State) : Prop where
  counters : s.nextIds.InRange
  received : s.accounts.All fun _ a => a.received ≤ Amount.max
  size : (State.layout.write s).length ≤ maxWord

theorem State.Lent.borrowedBy_nonneg (h : s.Lent) (n : AccountName) : 0 ≤ s.borrowedBy n := by
  unfold borrowedBy Loans.sumFor
  refine sumOf_nonneg fun k d hd => ?_
  split
  · exact (h.delegations k d hd).2.1.le
  · exact le_refl _

/-- The amounts that an account has on loan or in a power-down are parts of its stake. -/
theorem Account.Stored.inRange (h : a.Stored) (hs : a.Solvent) (hl : a.Lends given taken due)
    (h₀ : 0 ≤ taken) (hm : a.received ≤ Amount.max) : a.InRange := by
  have hdelegated : a.delegated ≤ Amount.max :=
    (Int.le_of_sub_nonneg hl.free_nonneg).trans hs.commonTokens_le
  exact { h with
    commonTokens := .of_nonneg hs.commonTokens hs.commonTokens_le
    delegated := .of_nonneg hs.delegated hdelegated
    received := .of_nonneg (hl.received ▸ h₀) hm
    powerDown := {
      rate := .of_nonneg hs.rate h.rate
      next := h.next
      total := .of_nonneg (h.withdrawn.trans hl.withdrawn) h.total
      withdrawn := .of_nonneg h.withdrawn (hl.withdrawn.trans h.total) } }

theorem State.Stored.inRange (h : l.state.Stored) (hl : l.Ready) (hm : l.state.Storable) :
    l.state.InRange := by
  have hsolvent := hl.sound.solvent
  have hlinked := hl.sound.linked
  refine { h with
    accounts := fun n a ha => ?_
    withdrawRoutes := fun n rs hrs t r hr => ⟨?_⟩
    researchTokens := fun id holders hget => ?_
    nextIds := hm.counters }
  · exact (h.accounts n a ha).inRange (hsolvent.accounts n a ha) (hl.lent.accounts n a ha)
      (hl.lent.borrowedBy_nonneg n) (hm.received n a ha)
  · have hpart := le_sumOf (f := fun _ (r : WithdrawRoute) => r.percent)
      (fun _ _ _ => Nat.zero_le _) hr
    exact (hpart.trans (hsolvent.routes n rs hrs)).trans (by decide)
  · obtain ⟨r, hr⟩ := contains_iff.1 (hlinked.researchTokens id holders hget).1
    have hwhole : r.ownedTokens + ((l.state.researchTokens.getD id ∅).sumOf fun _ n => n) =
        wholePercent := hl.sound.apportioned.holders id r hr
    rw [getD_eq, hget] at hwhole
    refine ⟨(h.researches id r hr).1, fun n tokens ht => ?_⟩
    have hpart := le_sumOf (f := fun _ (n : Nat) => n) (fun _ _ _ => Nat.zero_le _) ht
    exact (hpart.trans ((Nat.le_add_left ..).trans hwhole.le)).trans (by decide)

namespace Ledger

/-- Import after export gives back the ledger with its head, and what the snapshot says of it, for
every ledger that decoded requests lead to, granted or refused, as long as a machine can hold it. -/
theorem snapshot_round_trip (hc : config.InRange) (hg : genesis.InRange)
    (h : ofGenesis config genesis = .ok l) (hs : ∀ step ∈ steps, step.Decoded)
    (hm : (l.after steps).state.Storable) :
    Snapshot.load (l.after steps).toSnapshot = .ok (l.after steps, (l.after steps).metadata) := by
  have hl : (l.after steps).Stored := (Stored.ofGenesis hc hg h).after hs
  have hstate := (hl.state hm.counters).inRange hl.ready hm
  exact load_toSnapshot hstate hl.time hl.block hm.size hl.ready.sound.balanced.weighed
    hl.ready.sound.apportioned.config

end Ledger

namespace Sample

/-- A content is published and voted for, a block ends, and a reward is distributed. -/
def rewarding : List Step := publish ++ [.endBlock 3, .distributeReward (.primary 1000)]

theorem founders_inRange (a b c : Amount) (ha : a ≤ Amount.max) (hb : b ≤ Amount.max)
    (hc : c ≤ Amount.max) : (founders a b c).InRange where
  amounts := by
    have h₀ : (0 : Amount) ≤ Amount.max := Amount.max_nonneg
    simp only [Genesis.Storable, founders, List.forall_mem_cons]
    exact ⟨⟨h₀, ha⟩, ⟨h₀, hb⟩, ⟨h₀, hc⟩, by simp⟩
  disciplines := fun _ h => absurd h List.not_mem_nil
  time := Nat.zero_le _

def rewarded : Ledger := (founded 1 300 20).after rewarding

theorem founded_ok : Ledger.ofGenesis {} (founders 1 300 20) = .ok (founded 1 300 20) := rfl

theorem founders_small_inRange : (founders 1 300 20).InRange :=
  founders_inRange 1 300 20 (by decide) (by decide) (by decide)

theorem rewarding_decoded : ∀ step ∈ rewarding, step.Decoded := by
  have decoded (op : Operation) (h : Operation.ofJson? op.toJson = some op) :
      (Step.operation op).Decoded := ⟨op.toJson, h⟩
  simp only [rewarding, publish, List.cons_append, List.nil_append, List.forall_mem_cons]
  exact ⟨decoded _ rfl, decoded _ rfl, decoded _ rfl, decoded _ rfl, trivial,
    show (1000 : Amount) ≤ Amount.max by decide, by simp⟩

theorem rewarded_stored : rewarded.Stored :=
  (Ledger.Stored.ofGenesis .default founders_small_inRange founded_ok).after rewarding_decoded

theorem rewarded_storable : rewarded.state.Storable := by
  refine ⟨by constructor <;> decide +kernel, fun n a ha => ?_, by decide +kernel⟩
  exact (rewarded_stored.ready.lent.received_le_stakes ha).trans (by decide +kernel)

theorem rewarded_inRange : rewarded.state.InRange :=
  (rewarded_stored.state rewarded_storable.counters).inRange rewarded_stored.ready rewarded_storable

/-- A ledger with a content that weighs is exported, and imported as it was. -/
theorem rewarded_round_trip : 0 < rewarded.head.activeWeight ∧ rewarded.state.Storable ∧
    Snapshot.load rewarded.toSnapshot = .ok (rewarded, rewarded.metadata) :=
  ⟨by decide +kernel, rewarded_storable,
    Ledger.snapshot_round_trip .default founders_small_inRange founded_ok rewarding_decoded
      rewarded_storable⟩

end Sample

end ResearchLedger
