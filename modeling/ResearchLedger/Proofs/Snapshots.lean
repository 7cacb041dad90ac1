import ResearchLedger.Proofs.BlockPayments
import ResearchLedger.Proofs.JsonText
import ResearchLedger.Proofs.StateLayout
import ResearchLedger.Snapshot

/-! Snapshots: what is written of a ledger is read back, and passes every check of the import. -/
namespace ResearchLedger

namespace Json

variable {n limit : Nat}

theorem Plain.nat (h : n ≤ maxWord) : (nat n).Plain :=
  .int ⟨le_trans (by decide) (Int.natCast_nonneg n), Int.ofNat_le.2 h⟩

theorem nat?_nat (h : n ≤ limit) : (nat n).nat? limit = some n :=
  if_pos ⟨Int.natCast_nonneg n, Int.ofNat_le.2 h⟩

end Json

namespace SnapshotMetadata

variable {m : SnapshotMetadata}

/-- The numbers of the metadata fit a word. -/
structure InRange (m : SnapshotMetadata) : Prop where
  height : m.height ≤ maxWord
  time : m.time ≤ maxWord
  activeWeight : m.activeWeight ≤ maxWord

theorem InRange.plain (h : m.InRange) : m.toJson.Plain := by
  refine .object ?_
  simp only [List.forall_mem_cons]
  exact ⟨.nat h.height, .nat h.time, .nat h.activeWeight, .string _,
    fun _ h => absurd h List.not_mem_nil⟩

theorem InRange.ofJson?_toJson (h : m.InRange) : ofJson? m.toJson = some m := by
  have hroot : Digest.ofJson? m.root.toJson = some m.root := m.root.ofHex?_toHex
  have hfields : m.toJson.fields? ["height", "time", "total_active_disciplines_reward_weight",
      "state_root"] = some [some (.nat m.height), some (.nat m.time), some (.nat m.activeWeight),
        some m.root.toJson] := rfl
  unfold ofJson?
  rw [hfields]
  simp only [Json.required, Option.bind_some, Json.word?, Json.nat?_nat h.height,
    Json.nat?_nat h.time, Json.nat?_nat h.activeWeight, hroot, Option.bind_eq_bind]
  rfl

theorem InRange.parse?_render (h : m.InRange) : parse? m.render = some m := by
  unfold parse? render
  rw [Json.parse?_renderIndented h.plain]
  exact h.ofJson?_toJson

end SnapshotMetadata

/-- A sum that stays below the limit is computed without overflow. -/
theorem State.foldlM_activeWeight {ds : List Discipline} {sum : Nat}
    (h : sum + (ds.map (·.activeWeight)).sum ≤ maxWord) :
    ds.foldlM (fun sum d =>
      if maxWord < sum + d.activeWeight then .error (.overflow .activeDisciplinesWeight)
      else .ok (sum + d.activeWeight)) sum =
    (.ok (sum + (ds.map (·.activeWeight)).sum) : Except LedgerError Nat) := by
  induction ds generalizing sum with
  | nil => rfl
  | cons d ds ih =>
    rw [List.map_cons, List.sum_cons, ← Nat.add_assoc] at h ⊢
    have hd : ¬ maxWord < sum + d.activeWeight := by omega
    rw [List.foldlM_cons, if_neg hd]
    exact ih h

theorem Ledger.Weighed.activeWeight {l : Ledger} (h : l.Weighed) :
    l.state.activeWeight = .ok l.head.activeWeight := by
  have hsum : (l.state.disciplines.values.map (·.activeWeight)).sum = l.head.activeWeight := by
    rw [h.head, SortedMap.values, List.map_map]
    rfl
  have hle : 0 + (l.state.disciplines.values.map (·.activeWeight)).sum ≤ maxWord := by
    rw [Nat.zero_add, hsum]
    exact h.head_le
  have hall := State.foldlM_activeWeight hle
  rwa [Nat.zero_add, hsum] at hall

theorem State.InRange.readState_write {s : State} (h : s.InRange)
    (hl : (State.layout.write s).length ≤ maxWord) :
    Snapshot.readState (State.layout.write s) = some s := by
  have hconfig : (Config.layout.write s.config).length ≤ maxWord :=
    (List.sublist_append_left ..).length_le.trans hl
  have hr := h.reads hconfig (.of_length hl) []
  rw [List.append_nil] at hr
  unfold Snapshot.readState StateT.run
  rw [hr]
  rfl

/-- A ledger whose records and head are within their ranges comes back from its snapshot. -/
theorem Ledger.load_toSnapshot {l : Ledger} (h : l.state.InRange) (ht : l.head.time ≤ maxWord)
    (hb : l.head.block ≤ maxWord) (hl : (State.layout.write l.state).length ≤ maxWord)
    (hw : l.Weighed) (hc : l.state.config.validate = .ok ()) :
    Snapshot.load l.toSnapshot = .ok (l, l.metadata) := by
  have hm : l.metadata.InRange := ⟨hb, ht, hw.head_le⟩
  unfold Snapshot.load toSnapshot
  simp only [hm.parse?_render, h.readState_write hl, hc, hw.activeWeight]
  simp [metadata, pure, Except.pure]

end ResearchLedger
