import ResearchLedger.Json.Parser
import ResearchLedger.Json.Printer
import ResearchLedger.StateRoot
/-!
Snapshots. A snapshot consists of the bytes of the state and of a short text that says where the chain
stood and which root the state has. Import computes the root anew and accepts nothing else.
-/

namespace ResearchLedger

/-- What is said of a snapshot. -/
structure SnapshotMetadata where
  height : Nat
  time : Seconds
  activeWeight : Nat
  root : Digest
deriving DecidableEq

namespace SnapshotMetadata

def toJson (m : SnapshotMetadata) : Json :=
  .object [
    ("height", .nat m.height),
    ("time", .nat m.time),
    ("total_active_disciplines_reward_weight", .nat m.activeWeight),
    ("state_root", m.root.toJson)]

def ofJson? (j : Json) : Option SnapshotMetadata := do
  let [height, time, activeWeight, root] ← j.fields?
    ["height", "time", "total_active_disciplines_reward_weight", "state_root"] | none
  return {
    height := ← Json.required Json.word? height
    time := ← Json.required Json.word? time
    activeWeight := ← Json.required Json.word? activeWeight
    root := ← Json.required Digest.ofJson? root }

/-- The text of the metadata. -/
def render (m : SnapshotMetadata) : String := m.toJson.renderIndented

/-- Reads the text of the metadata. -/
def parse? (text : String) : Option SnapshotMetadata := (Json.parse? text).bind ofJson?

end SnapshotMetadata

/-- The two files of a snapshot, as far as they are there. -/
structure Snapshot where
  metadata : Option String
  body : Option (List UInt8)
deriving DecidableEq

/-- Why a snapshot is refused. -/
inductive SnapshotError where
  | metadataMissing
  | metadataMalformed
  | bodyMissing
  | bodyMalformed
  | rootMismatch (stated computed : Digest)
  | invalidConfig (fault : ConfigFault)
  | weightMismatch (stated computed : Nat)
  | ledger (error : LedgerError)
deriving DecidableEq

/-- The text of an error, for a snapshot in the given directory. -/
def SnapshotError.message (directory : String) : SnapshotError → String
  | metadataMissing => s!"reading metadata.json in {directory}"
  | metadataMalformed => "parsing snapshot metadata"
  | bodyMissing => s!"reading state.bin in {directory}"
  | bodyMalformed => "decoding snapshot state"
  | rootMismatch stated computed =>
    s!"snapshot state root mismatch: metadata {stated.toHex}, computed {computed.toHex}"
  | invalidConfig _ => "snapshot config"
  | weightMismatch stated computed =>
    s!"snapshot context weight mismatch: metadata {stated}, disciplines {computed}"
  | ledger error => error.message

namespace Ledger

/-- What a snapshot of the ledger says of it. -/
def metadata (l : Ledger) : SnapshotMetadata where
  height := l.head.block
  time := l.head.time
  activeWeight := l.head.activeWeight
  root := l.state.root

/-- A snapshot of the ledger. -/
def toSnapshot (l : Ledger) : Snapshot :=
  ⟨some l.metadata.render, some (State.layout.write l.state)⟩

end Ledger

namespace Snapshot

/-- The state that some bytes begin with. -/
def readState (body : List UInt8) : Option State := (State.layout.read.run body).map (·.1)

/-- The ledger of a snapshot, with what the snapshot says of it. -/
def load (snapshot : Snapshot) : Except SnapshotError (Ledger × SnapshotMetadata) := do
  let some text := snapshot.metadata | throw .metadataMissing
  let some m := SnapshotMetadata.parse? text | throw .metadataMalformed
  let some body := snapshot.body | throw .bodyMissing
  let some s := readState body | throw .bodyMalformed
  if s.root ≠ m.root then throw (.rootMismatch m.root s.root)
  if let .error fault := s.config.validate then throw (.invalidConfig fault)
  match s.activeWeight with
  | .error e => throw (.ledger e)
  | .ok weight =>
    if weight ≠ m.activeWeight then throw (.weightMismatch m.activeWeight weight)
    return (⟨s, ⟨m.time, m.height, weight⟩⟩, m)

end Snapshot

end ResearchLedger
