import ResearchLedger.Json.Record

/-! Keys and digests come back from their written forms. -/
namespace ResearchLedger

namespace Hex

theorem digitValue?_digit : ∀ {d : Nat}, d < 16 → digitValue? (digit d) = some d := by decide

theorem digit_ne_x : ∀ {d : Nat}, d < 16 → digit d ≠ 'x' := by decide

theorem decode?_encode (bytes : List UInt8) : decode? (encode bytes) = some bytes := by
  induction bytes with
  | nil => rfl
  | cons b bytes ih =>
    have hb := b.toNat_lt
    have hn : 16 * (b.toNat / 16) + b.toNat % 16 = b.toNat := by omega
    rw [encode, decode?, digitValue?_digit (by omega), digitValue?_digit (by omega), ih]
    change some (UInt8.ofNat (16 * (b.toNat / 16) + b.toNat % 16) :: bytes) = _
    rw [hn, UInt8.ofNat_toNat]

end Hex

namespace PublicKey

theorem dropMark_encode (bytes : List UInt8) : dropMark (Hex.encode bytes) = Hex.encode bytes := by
  cases bytes with
  | nil => rfl
  | cons b bytes =>
    unfold Hex.encode dropMark
    split
    · rename_i _ _ h
      have hx := (List.cons.inj (List.cons.inj h).2).1
      exact absurd hx (Hex.digit_ne_x (Nat.mod_lt _ (by decide)))
    · rfl

theorem ofText?_toHex (k : PublicKey) : ofText? k.toHex = some k := by
  obtain ⟨bytes, h⟩ := k
  obtain h₀ | h₃₃ := h
  · cases List.length_eq_zero_iff.1 h₀
    rfl
  · have hne : (String.ofList (Hex.encode bytes)).isEmpty = false := by
      cases bytes with
      | nil => cases h₃₃
      | cons b bytes => simp [Hex.encode]
    unfold ofText? ofStored ofHex toHex
    simp only [hne, Bool.false_eq_true, if_false, String.toList_ofList, dropMark_encode,
      Hex.decode?_encode, dif_pos h₃₃]
    rfl

end PublicKey

theorem Digest.ofHex?_toHex (d : Digest) : Digest.ofHex? d.toHex = some d := by
  unfold ofHex? toHex
  rw [String.toList_ofList, Hex.decode?_encode]
  exact dif_pos d.size_eq

end ResearchLedger
