import ResearchLedger.Layout.State
import ResearchLedger.Sha3.Hash
/-!
The root of a state: one digest of all its stores. The parameters are not part of it.
-/

namespace ResearchLedger

/-- A store as it is hashed: its name, the length of its bytes with the highest byte first, and its
bytes. -/
def storeSegment (name : String) (bytes : List UInt8) : List UInt8 :=
  name.toUTF8.data.toList ++ (LittleEndian.encode 8 bytes.length).reverse ++ bytes

namespace State

/-- All that the root is a digest of. -/
def preimage (s : State) : List UInt8 := s.stores.flatMap (fun e => storeSegment e.1 e.2)

/-- The root of the state. -/
def root (s : State) : Digest := Sha3.hash s.preimage

end State

end ResearchLedger
