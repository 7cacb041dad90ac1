import ResearchLedger.Proofs.AssetReading
import ResearchLedger.Proofs.JsonText

/-! Text of assets: what is written of an asset is read back as the same asset. -/
namespace ResearchLedger

variable {n width : Nat} {s : List Char} {a : Asset} {symbol : Symbol} {precision : Nat} {name : String}

namespace Decimal

theorem length_ofNat_le (h : n < 10 ^ width) (hwidth : 0 < width) : (ofNat n).length ≤ width := by
  fun_induction ofNat n generalizing width with
  | case1 n hn => exact hwidth
  | case2 n hn ih =>
    obtain ⟨width, rfl⟩ := Nat.exists_eq_add_one_of_ne_zero hwidth.ne'
    rw [Nat.pow_succ] at h
    have hpos : 0 < width := by
      refine Nat.pos_of_ne_zero ?_
      rintro rfl
      omega
    rw [List.length_append]
    exact Nat.succ_le_succ (ih (Nat.div_lt_of_lt_mul (by omega)) hpos)

theorem value_zeros (k : Nat) (s : List Char) : value (List.replicate k '0' ++ s) = value s := by
  induction k with
  | zero => rfl
  | succ k ih => exact ih

theorem value_padded : value (padded width n) = n := by
  unfold padded
  rw [value_zeros, value_ofNat]

theorem length_padded (h : n < 10 ^ width) (hwidth : 0 < width) : (padded width n).length = width := by
  unfold padded
  rw [List.length_append, List.length_replicate]
  exact Nat.sub_add_cancel (length_ofNat_le h hwidth)

theorem isDigit_padded : ∀ c ∈ padded width n, c.isDigit = true := by
  intro c hc
  rcases List.mem_append.1 hc with hc | hc
  · rw [List.eq_of_mem_replicate hc]
    rfl
  · exact isDigit_ofNat n c hc

end Decimal

theorem Symbol.IsName.isWord (h : Symbol.IsName s) : Text.IsWord s := by
  refine ⟨h.ne_nil, fun c hc => ?_⟩
  have := Symbol.toNat_of_isUpper (h.upper c hc)
  unfold Text.isBlank
  simp only [Bool.or_eq_false_iff, Bool.and_eq_false_iff, beq_eq_false_iff_ne, decide_eq_false_iff_not]
  omega

namespace Asset

/-- The numeral that is written of an asset. -/
def toNumeral (a : Asset) : Numeral where
  negative := decide (a.amount < 0)
  whole := Decimal.ofNat (a.amount.natAbs / a.symbol.scale)
  decimals := if a.symbol.precision = 0 then none
    else some (Decimal.padded a.symbol.precision (a.amount.natAbs % a.symbol.scale))

theorem text_toNumeral : a.toNumeral.text = a.numeral := by
  unfold toNumeral numeral Numeral.text Numeral.unsigned
  dsimp only
  split <;> split <;> simp_all

theorem fraction_toNumeral : a.toNumeral.fraction = if a.symbol.precision = 0 then []
    else Decimal.padded a.symbol.precision (a.amount.natAbs % a.symbol.scale) := by
  unfold toNumeral Numeral.fraction
  split <;> rfl

theorem wellFormed_toNumeral : a.toNumeral.WellFormed := by
  refine ⟨Decimal.ofNat_ne_nil _, Decimal.isDigit_ofNat _, ?_⟩
  rw [fraction_toNumeral]
  split
  · exact List.forall_mem_nil _
  · exact Decimal.isDigit_padded

theorem mod_scale_lt : a.amount.natAbs % a.symbol.scale < 10 ^ a.symbol.precision :=
  Nat.mod_lt _ (Nat.pow_pos (by decide))

theorem length_fraction : a.toNumeral.fraction.length = a.symbol.precision := by
  rw [fraction_toNumeral]
  split
  · rename_i h
    exact h.symm
  · rename_i h
    exact Decimal.length_padded mod_scale_lt (Nat.pos_of_ne_zero h)

theorem value_fraction : Decimal.value a.toNumeral.fraction = a.amount.natAbs % a.symbol.scale := by
  rw [fraction_toNumeral]
  split
  · rename_i h
    have := a.mod_scale_lt
    rw [h] at this
    exact (Nat.lt_one_iff.1 this).symm
  · exact Decimal.value_padded

theorem value_whole : Decimal.value a.toNumeral.whole = a.amount.natAbs / a.symbol.scale :=
  Decimal.value_ofNat _

theorem units_toNumeral : a.toNumeral.units a.symbol.scale = a.amount.natAbs := by
  unfold Numeral.units
  rw [value_whole, value_fraction]
  exact_mod_cast Nat.div_add_mod' a.amount.natAbs a.symbol.scale

theorem withSign_toNumeral : a.toNumeral.withSign a.amount.natAbs = a.amount := by
  unfold Numeral.withSign toNumeral
  by_cases h : a.amount < 0
  · rw [if_pos (decide_eq_true h), Int.ofNat_natAbs_of_nonpos (Int.le_of_lt h)]
    exact Int.neg_neg _
  · rw [if_neg (by rw [decide_eq_true_iff]; exact h), Int.natAbs_of_nonneg (Int.not_lt.1 h)]

/-- What is written of an asset is its own numeral and name, unless it is the least amount: the size of
that one cannot be stored. -/
theorem isRead_toNumeral {name : List Char} (hprecision : a.symbol.precision < 256)
    (hsymbol : Symbol.ofName a.symbol.precision (String.ofList name) = .ok a.symbol)
    (hmax : (a.amount.natAbs : Int) ≤ Amount.max) : a.IsRead a.toNumeral name := by
  have hle {m : Nat} (hm : m ≤ a.amount.natAbs) : (m : Int) ≤ Amount.max :=
    (Int.ofNat_le.2 hm).trans hmax
  refine ⟨?_, ?_, ?_, ?_, ?_⟩
  · rw [length_fraction, Nat.mod_eq_of_lt hprecision]
    exact hsymbol
  · rw [value_whole]
    exact hle (Nat.div_le_self _ _)
  · rw [value_fraction]
    exact hle (Nat.mod_le _ _)
  · rw [units_toNumeral]
    exact ⟨le_trans (by decide) (Int.natCast_nonneg _), hmax⟩
  · rw [units_toNumeral, withSign_toNumeral]

theorem natAbs_le_max {amount : Amount} (hfits : amount.Fits) (hmin : amount ≠ Amount.min) :
    (amount.natAbs : Int) ≤ Amount.max := by
  obtain ⟨hlow, hhigh⟩ := hfits
  have hmin' : -Amount.max = Amount.min + 1 := by decide
  lia

/-- A symbol gives back the precision and the name it was made of, so no other two make the same symbol.
Any amount of it but the least one that can be stored is read back from its text. -/
theorem ofText_toText (h : Symbol.ofName precision name = .ok symbol) :
    symbol.precision = precision ∧ symbol.name = name ∧
    (∀ precision' name', Symbol.ofName precision' name' = .ok symbol →
      precision' = precision ∧ name' = name) ∧
    ∀ amount : Amount, amount.Fits → amount ≠ Amount.min →
      ofText (toText ⟨amount, symbol⟩) = .ok ⟨amount, symbol⟩ := by
  obtain ⟨rfl, rfl⟩ := Symbol.given_of_ofName h
  obtain ⟨hname, hprecision, -⟩ := Symbol.ofName_eq_ok.1 h
  refine ⟨rfl, rfl, fun p' n' h' => ?_, fun amount hfits hmin => ?_⟩
  · obtain ⟨rfl, rfl⟩ := Symbol.given_of_ofName h'
    exact ⟨rfl, rfl⟩
  · generalize ha : Asset.mk amount symbol = a
    obtain rfl : a.symbol = symbol := by rw [← ha]
    have hwritten : Written a.toText a.toNumeral a.symbol.name.toList := by
      unfold toText
      rw [← text_toNumeral]
      exact written_ofList wellFormed_toNumeral hname.isWord
    refine hwritten.ofText_eq_ok.2 (isRead_toNumeral (Nat.lt_of_le_of_lt hprecision (by decide)) ?_ ?_)
    · rw [String.ofList_toList]
      exact h
    · rw [← ha]
      exact natAbs_le_max hfits hmin

end Asset

namespace Sample

/-- A thousandth owed has its sign in front of a zero. -/
theorem thousandth_owed_read_back :
    Asset.toText (.primary (-1)) = "-0.001 SCI" ∧
    Asset.ofText (Asset.toText (.primary (-1))) = .ok (.primary (-1)) := by
  have hsymbol : Symbol.ofName 3 "SCI" = .ok .primary := by decide +kernel
  obtain ⟨-, -, -, hread⟩ := Asset.ofText_toText hsymbol
  exact ⟨by decide +kernel, hread (-1) (by decide) (by decide)⟩

end Sample

end ResearchLedger
