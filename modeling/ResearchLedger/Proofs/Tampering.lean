import ResearchLedger.Proofs.RecordReadings
import ResearchLedger.Proofs.StateRoots

/-! Replaced bodies of snapshots: import takes nothing for the state but what agrees with it on every
store. The parameters are not part of the root and are only checked for themselves. -/
namespace ResearchLedger

variable {s : State} {l : Ledger} {body : List UInt8} {config : Config} {genesis : Genesis}
  {steps : List Step}

namespace Snapshot

/-- A state that some bytes begin with can be stored, and in no more bytes. -/
theorem readState_ensures (h : readState body = some s) (hb : body.length ≤ maxWord) :
    s.InRange ∧ s.Sized := by
  obtain ⟨⟨s', rest⟩, hread, rfl⟩ := Option.map_eq_some_iff.1 h
  obtain ⟨hrange, hlength⟩ := State.ensures body s' rest hread
  exact ⟨hrange, .of_length ((Nat.le_add_right _ _).trans (hlength.trans hb))⟩

/-- What import makes of a state beside the metadata of a ledger. -/
theorem load_body (hm : l.metadata.InRange) (hread : readState body = some s) :
    load { l.toSnapshot with body := some body } =
      if s.root = l.state.root then
        match s.config.validate with
        | .error fault => .error (.invalidConfig fault)
        | .ok () =>
          match s.activeWeight with
          | .error e => .error (.ledger e)
          | .ok weight =>
            if weight = l.head.activeWeight then .ok (⟨s, ⟨l.head.time, l.head.block, weight⟩⟩, l.metadata)
            else .error (.weightMismatch l.head.activeWeight weight)
      else .error (.rootMismatch l.state.root s.root) := by
  unfold load Ledger.toSnapshot
  simp only [hm.parse?_render, hread]
  by_cases hroot : s.root = l.state.root
  · rw [if_pos hroot]
    cases hv : s.config.validate with
    | error fault => simp [Ledger.metadata, hroot]; rfl
    | ok =>
      cases hw : s.activeWeight with
      | error e => simp [Ledger.metadata, hroot]; rfl
      | ok weight =>
        by_cases hweight : weight = l.head.activeWeight
        · simp [Ledger.metadata, hroot, hweight]; rfl
        · simp [Ledger.metadata, hroot, hweight]; rfl
  · rw [if_neg hroot]
    simp [Ledger.metadata, hroot]; rfl

end Snapshot

theorem State.SameData.activeWeight_eq {t : State} (h : s.SameData t) :
    s.activeWeight = t.activeWeight := by
  rw [← h]
  rfl

namespace Ledger

/-- Import beside the metadata of a ledger, when the digest does not collide: the data have to be those
of the ledger, and the parameters have to be valid. -/
theorem load_replaced (hl : l.state.InRange) (hsized : l.state.Sized) (hm : l.metadata.InRange)
    (hw : l.Weighed) (hb : body.length ≤ maxWord) (hread : Snapshot.readState body = some s)
    (hno : ¬ Sha3.Collision s.preimage l.state.preimage) :
    Snapshot.load { l.toSnapshot with body := some body } =
      if s.SameData l.state then
        match s.config.validate with
        | .error fault => .error (.invalidConfig fault)
        | .ok () => .ok (⟨s, l.head⟩, l.metadata)
      else .error (.rootMismatch l.state.root s.root) := by
  obtain ⟨hs, hssized⟩ := Snapshot.readState_ensures hread hb
  rw [Snapshot.load_body hm hread]
  by_cases hdata : s.SameData l.state
  · have hroot : s.root = l.state.root := congrArg Sha3.hash hdata.preimage_eq
    rw [if_pos hroot, if_pos hdata, hdata.activeWeight_eq, hw.activeWeight]
    cases s.config.validate with
    | error fault => rfl
    | ok => exact if_pos rfl
  · have hroot : s.root ≠ l.state.root := by
      intro hroot
      exact hdata (State.sameData_of_root_eq hs hl hssized hsized hno hroot)
    rw [if_neg hroot, if_neg hdata]

/-- Whatever bytes of a state replace the body of a snapshot, import refuses a state that differs in any
store, unless two inputs of the digest collide, and takes one that differs in its parameters alone
exactly if they are valid. -/
theorem tampering_detected (hc : config.InRange) (hg : genesis.InRange)
    (h : ofGenesis config genesis = .ok l) (hs : ∀ step ∈ steps, step.Decoded)
    (hm : (l.after steps).state.Storable) (hb : body.length ≤ maxWord)
    (hread : Snapshot.readState body = some s) :
    Sha3.Collision s.preimage (l.after steps).state.preimage ∨
    Snapshot.load { (l.after steps).toSnapshot with body := some body } =
      if s.SameData (l.after steps).state then
        match s.config.validate with
        | .error fault => .error (.invalidConfig fault)
        | .ok () => .ok (⟨s, (l.after steps).head⟩, (l.after steps).metadata)
      else .error (.rootMismatch (l.after steps).state.root s.root) := by
  have hl : (l.after steps).Stored := (Stored.ofGenesis hc hg h).after hs
  have hstate := (hl.state hm.counters).inRange hl.ready hm
  have hw := hl.ready.sound.balanced.weighed
  by_cases hno : Sha3.Collision s.preimage (l.after steps).state.preimage
  · exact .inl hno
  · exact .inr (load_replaced hstate (.of_length hm.size) ⟨hl.block, hl.time, hw.head_le⟩ hw hb hread hno)

end Ledger

namespace Sample

/-- A body in which one counter is moved is refused, unless two inputs of the digest collide. -/
theorem recounted_refused : Sha3.Collision recounted.preimage rewarded.state.preimage ∨
    Snapshot.load { rewarded.toSnapshot with body := some (State.layout.write recounted) } =
      .error (.rootMismatch rewarded.state.root recounted.root) := by
  have hsize : (State.layout.write recounted).length ≤ maxWord := by decide +kernel
  have hread := recounted_inRange.readState_write hsize
  have hload := Ledger.tampering_detected .default founders_small_inRange founded_ok rewarding_decoded
    rewarded_storable hsize hread
  exact hload.imp_right fun h => h.trans (if_neg recounted_other)

/-- The rewarded state under another period of regeneration. -/
def slowed : State :=
  { rewarded.state with config := { rewarded.state.config with voteRegeneration := 432001 } }

/-- A body with other parameters is taken, although it holds another state and no inputs of the digest
collide. -/
theorem slowed_taken : rewarded.Reachable {} (founders 1 300 20) ∧ slowed ≠ rewarded.state ∧
    ¬ Sha3.Collision slowed.preimage rewarded.state.preimage ∧
    Snapshot.readState (State.layout.write slowed) = some slowed ∧
    Snapshot.load { rewarded.toSnapshot with body := some (State.layout.write slowed) } =
      .ok (⟨slowed, rewarded.head⟩, rewarded.metadata) := by
  have hconfig : rewarded.state.config = {} := by decide +kernel
  have hslowed : slowed.InRange := { rewarded_inRange with
    config := { rewarded_inRange.config with voteRegeneration := by decide } }
  have hsize : (State.layout.write slowed).length ≤ maxWord := by decide +kernel
  have hread := hslowed.readState_write hsize
  have hno : ¬ Sha3.Collision slowed.preimage rewarded.state.preimage := fun h => h.1 rfl
  have hw := rewarded_stored.ready.sound.balanced.weighed
  have hload := Ledger.load_replaced rewarded_inRange (.of_length rewarded_storable.size)
    ⟨rewarded_stored.block, rewarded_stored.time, hw.head_le⟩ hw hsize hread hno
  have hsame : slowed.SameData rewarded.state := rfl
  have hvalid : slowed.config.validate = .ok () := by
    unfold slowed
    rw [hconfig]
    rfl
  rw [if_pos hsame, hvalid] at hload
  refine ⟨⟨founded 1 300 20, rewarding, rfl, ?_, rfl⟩, ?_, hno, hread, hload⟩
  · decide
  · intro h
    have hperiod := congrArg (fun s : State => s.config.voteRegeneration) h
    rw [hconfig] at hperiod
    revert hperiod
    decide

end Sample

end ResearchLedger
