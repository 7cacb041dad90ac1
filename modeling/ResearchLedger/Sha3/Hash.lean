import ResearchLedger.Digest
import ResearchLedger.LittleEndian
import ResearchLedger.Sha3.Permutation
/-!
SHA3-512: the digest of any bytes.
-/

namespace ResearchLedger.Sha3

/-- How many bytes are taken in between two permutations. -/
def rate : Nat := 72

/-- The bytes filled up to a multiple of the rate. -/
def pad (message : List UInt8) : List UInt8 :=
  let missing := rate - message.length % rate
  if missing = 1 then message ++ [0x86]
  else message ++ 0x06 :: List.replicate (missing - 2) 0 ++ [0x80]

/-- The bytes in groups of `rate`. -/
def blocks (s : List UInt8) : List (List UInt8) :=
  if s.isEmpty then [] else s.take rate :: blocks (s.drop rate)
termination_by s.length
decreasing_by
  simp_all only [List.isEmpty_iff, List.length_drop, rate]
  have := List.length_pos_iff.2 ‹s ≠ []›
  omega

/-- The lane that a block has at a place; there are zeros after its end. -/
def blockLane (block : List UInt8) (i : Nat) : UInt64 :=
  UInt64.ofNat (LittleEndian.decode ((block.drop (8 * i)).take 8))

/-- Takes one block in. -/
def absorb (a : Lanes) (block : List UInt8) : Lanes :=
  permute (Vector.ofFn (fun i => a[i] ^^^ blockLane block i.val))

/-- The first 64 bytes of the state. -/
def squeeze (a : Lanes) : List UInt8 :=
  (a.toList.take 8).flatMap (fun lane => LittleEndian.encode 8 lane.toNat)

theorem length_squeeze (a : Lanes) : (squeeze a).length = 64 := by
  have h : ∀ l : List UInt64,
      (l.flatMap (fun lane => LittleEndian.encode 8 lane.toNat)).length = 8 * l.length := by
    intro l
    induction l with
    | nil => rfl
    | cons x l ih =>
      simp only [List.flatMap_cons, List.length_append, ih, LittleEndian.length_encode,
        List.length_cons]
      omega
  simp [squeeze, h]

/-- The digest of some bytes. -/
def hash (message : List UInt8) : Digest :=
  ⟨squeeze ((blocks (pad message)).foldl absorb zeroLanes), length_squeeze _⟩

end ResearchLedger.Sha3
