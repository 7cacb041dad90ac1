/-!
The permutation under SHA-3, on 25 lanes of 64 bits. The lane in column `x` and row `y` has the
number `x + 5 * y`.
-/

namespace ResearchLedger.Sha3

/-- The state of the permutation. -/
abbrev Lanes := Vector UInt64 25

/-- The state in which every bit is zero. -/
def zeroLanes : Lanes := .replicate 25 0

/-- The bits of a lane moved up by `n` places, those beyond the top back to the bottom. -/
def rotate (a : UInt64) (n : Nat) : UInt64 :=
  if n = 0 then a else (a <<< UInt64.ofNat n) ||| (a >>> UInt64.ofNat (64 - n))

/-- By how many places each lane is rotated. -/
def rotations : List Nat :=
  [0, 1, 62, 28, 27, 36, 44, 6, 55, 20, 3, 10, 43, 25, 39, 41, 45, 15, 21, 8, 18, 2, 61, 56, 14]

/-- What each round adds to the first lane. -/
def roundConstants : List UInt64 :=
  [0x0000000000000001, 0x0000000000008082, 0x800000000000808A, 0x8000000080008000,
    0x000000000000808B, 0x0000000080000001, 0x8000000080008081, 0x8000000000008009,
    0x000000000000008A, 0x0000000000000088, 0x0000000080008009, 0x000000008000000A,
    0x000000008000808B, 0x800000000000008B, 0x8000000000008089, 0x8000000000008003,
    0x8000000000008002, 0x8000000000000080, 0x000000000000800A, 0x800000008000000A,
    0x8000000080008081, 0x8000000000008080, 0x0000000080000001, 0x8000000080008008]

/-- The lane in a column and row, both counted modulo five. -/
def lane (a : Lanes) (x y : Nat) : UInt64 :=
  a.get ⟨x % 5 + 5 * (y % 5), by omega⟩

/-- The state whose lanes are given by column and row. -/
def ofLanes (f : Nat → Nat → UInt64) : Lanes := Vector.ofFn (fun i => f (i.val % 5) (i.val / 5))

/-- The parity of a column. -/
def parity (a : Lanes) (x : Nat) : UInt64 :=
  lane a x 0 ^^^ lane a x 1 ^^^ lane a x 2 ^^^ lane a x 3 ^^^ lane a x 4

/-- Adds to each lane the parities of two columns near it. -/
def theta (a : Lanes) : Lanes :=
  let parities : Vector UInt64 5 := Vector.ofFn (fun x => parity a x.val)
  let column (x : Nat) : UInt64 := parities.get ⟨x % 5, by omega⟩
  ofLanes (fun x y => lane a x y ^^^ (column (x + 4) ^^^ rotate (column (x + 1)) 1))

/-- Rotates each lane and moves it to another place. -/
def rhoPi (a : Lanes) : Lanes :=
  ofLanes (fun x y =>
    let source := (x + 3 * y) % 5
    rotate (lane a source x) (rotations.getD (source + 5 * x) 0))

/-- Mixes each lane with the next two of its row. -/
def chi (a : Lanes) : Lanes :=
  ofLanes (fun x y => lane a x y ^^^ (~~~(lane a (x + 1) y) &&& lane a (x + 2) y))

/-- Adds a constant to the first lane. -/
def iota (constant : UInt64) (a : Lanes) : Lanes := a.set 0 (a[0] ^^^ constant)

/-- One round. -/
def round (a : Lanes) (constant : UInt64) : Lanes := iota constant (chi (rhoPi (theta a)))

/-- All rounds. -/
def permute (a : Lanes) : Lanes := roundConstants.foldl round a

end ResearchLedger.Sha3
