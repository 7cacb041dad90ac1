/-!
Numbers as a fixed count of bytes, the lowest byte first.
-/

namespace ResearchLedger.LittleEndian

/-- How many numbers have `width` bytes. -/
def count (width : Nat) : Nat := Nat.pow 256 width

@[simp] theorem count_zero : count 0 = 1 := rfl

theorem count_succ (width : Nat) : count (width + 1) = count width * 256 := rfl

/-- The lowest `width` bytes of a number, from the lowest up. -/
def encode : (width : Nat) → Nat → List UInt8
  | 0, _ => []
  | width + 1, n => UInt8.ofNat n :: encode width (n / 256)

/-- The number with the given bytes, from the lowest up. -/
def decode : List UInt8 → Nat
  | [] => 0
  | b :: bs => b.toNat + 256 * decode bs

@[simp] theorem length_encode (width n : Nat) : (encode width n).length = width := by
  induction width generalizing n with
  | zero => rfl
  | succ width ih => simp [encode, ih]

theorem decode_encode (width n : Nat) (h : n < count width) : decode (encode width n) = n := by
  induction width generalizing n with
  | zero => simp at h; simp [encode, decode, h]
  | succ width ih =>
    rw [count_succ] at h
    have hn : n / 256 < count width := by omega
    simp only [encode, decode, ih _ hn, UInt8.toNat_ofNat']
    omega

end ResearchLedger.LittleEndian
