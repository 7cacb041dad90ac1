import Mathlib.Data.Int.Order.Basic
import ResearchLedger.Asset.Price
import ResearchLedger.Proofs.Computation

/-! Conversion at a price, there and back: what rounding has taken is not given back, and nothing is
gained on the way. -/
namespace ResearchLedger

variable {base quote a b source target : Asset} {p : Price} {x y s t : Amount} {symbol : Symbol}

/-- An amount exchanged at `t` for every `s`, rounded toward zero. -/
def Amount.exchanged (x s t : Amount) : Amount := (x * t).tdiv s

namespace Amount

theorem exchanged_neg : exchanged (-x) s t = -exchanged x s t := by
  unfold exchanged
  rw [Int.neg_mul, Int.neg_tdiv]

theorem exchanged_nonneg (hs : 0 < s) (ht : 0 < t) (hx : 0 ≤ x) : 0 ≤ exchanged x s t :=
  Int.tdiv_nonneg (Int.mul_nonneg hx ht.le) hs.le

theorem exchanged_nonpos (hs : 0 < s) (ht : 0 < t) (hx : x ≤ 0) : exchanged x s t ≤ 0 := by
  have := exchanged_nonneg hs ht (Int.neg_nonneg_of_nonpos hx)
  rw [exchanged_neg] at this
  exact Int.nonpos_of_neg_nonneg this

theorem exchanged_mono (hs : 0 < s) (ht : 0 < t) (hxy : x ≤ y) : exchanged x s t ≤ exchanged y s t :=
  Int.tdiv_le_tdiv hs (Int.mul_le_mul_of_nonneg_right hxy ht.le)

theorem natAbs_exchanged : (exchanged x s t).natAbs = x.natAbs * t.natAbs / s.natAbs := by
  unfold exchanged
  rw [Int.natAbs_tdiv, Int.natAbs_mul]
  rfl

/-- Of an amount exchanged there and back at most the whole comes back. -/
theorem natAbs_exchanged_back (ht : 0 < t) :
    (exchanged (exchanged x s t) t s).natAbs ≤ x.natAbs := by
  rw [natAbs_exchanged, natAbs_exchanged]
  calc x.natAbs * t.natAbs / s.natAbs * s.natAbs / t.natAbs
      ≤ x.natAbs * t.natAbs / t.natAbs := Nat.div_le_div_right (Nat.div_mul_le_self ..)
    _ = x.natAbs := Nat.mul_div_cancel _ (Int.natAbs_pos.2 ht.ne')

/-- An amount that lies between nothing and one that can be stored can be stored. -/
theorem Fits.of_natAbs_le (hx : x.Fits) (hpos : 0 ≤ x → 0 ≤ y) (hneg : x ≤ 0 → y ≤ 0)
    (h : y.natAbs ≤ x.natAbs) : y.Fits := by
  have h : (y.natAbs : Int) ≤ x.natAbs := Int.ofNat_le.2 h
  rcases Int.le_total 0 x with h₀ | h₀
  · rw [Int.natAbs_of_nonneg h₀, Int.natAbs_of_nonneg (hpos h₀)] at h
    exact ⟨le_trans (by decide) (hpos h₀), h.trans hx.2⟩
  · rw [Int.ofNat_natAbs_of_nonpos h₀, Int.ofNat_natAbs_of_nonpos (hneg h₀)] at h
    exact ⟨hx.1.trans (Int.neg_le_neg_iff.1 h), le_trans (hneg h₀) (by decide)⟩

end Amount

namespace Price

/-- A symbol of a valid price has a leg of its own and another one, and both are positive. -/
structure Legs (p : Price) (symbol : Symbol) (source target : Asset) : Prop where
  there : p.legs symbol = .ok (source, target)
  back : p.legs target.symbol = .ok (target, source)
  symbol_eq : source.symbol = symbol
  source_pos : 0 < source.amount
  target_pos : 0 < target.amount

theorem ofLegs_eq_ok (h : ofLegs base quote = .ok p) : p = ⟨base, quote⟩ ∧
    base.symbol ≠ quote.symbol ∧ 0 < base.amount ∧ 0 < quote.amount := by
  obtain ⟨_, hv, h⟩ := bind_eq_ok.1 h
  cases h
  obtain ⟨hne, hv⟩ := guard_bind_eq_ok.1 hv
  obtain ⟨hpos, -⟩ := guard_eq_ok.1 hv
  obtain ⟨hb, hq⟩ := not_or.1 hpos
  exact ⟨rfl, hne, Int.not_le.1 hb, Int.not_le.1 hq⟩

theorem exists_legs (h : ofLegs base quote = .ok p)
    (hsymbol : symbol = base.symbol ∨ symbol = quote.symbol) :
    ∃ source target, p.Legs symbol source target := by
  obtain ⟨rfl, hne, hb, hq⟩ := ofLegs_eq_ok h
  have hbase : (⟨base, quote⟩ : Price).legs base.symbol = .ok (base, quote) := if_pos rfl
  have hquote : (⟨base, quote⟩ : Price).legs quote.symbol = .ok (quote, base) := by
    unfold legs
    rw [if_neg hne.symm, if_pos rfl]
  obtain rfl | rfl := hsymbol
  · exact ⟨base, quote, hbase, hquote, rfl, hb, hq⟩
  · exact ⟨quote, base, hquote, hbase, rfl, hq, hb⟩

/-- A conversion succeeds exactly if its result can be stored. -/
theorem convert_eq (h : p.Legs a.symbol source target) :
    p.convert a = if (a.amount.exchanged source.amount target.amount).Fits then
      .ok ⟨a.amount.exchanged source.amount target.amount, target.symbol⟩
    else .error (.overflow .priceConvert) := by
  unfold convert Amount.checked? Amount.exchanged
  rw [h.there, ok_bind]
  dsimp only
  rw [if_neg (Int.not_le.2 h.source_pos)]
  by_cases hf : Amount.Fits ((a.amount * target.amount).tdiv source.amount)
  · rw [if_pos hf, if_pos hf]
    rfl
  · rw [if_neg hf, if_neg hf]
    rfl

theorem convert_eq_ok (h : p.Legs a.symbol source target) (hb : p.convert a = .ok b) :
    b = ⟨a.amount.exchanged source.amount target.amount, target.symbol⟩ := by
  rw [convert_eq h] at hb
  split at hb <;> cases hb
  rfl

/-- An amount of either symbol of a valid price is converted, or the result is too great to be stored,
and nothing else can go wrong. What has been converted can be converted back; that gives the same symbol
and never more, nor any of the other sign. More is never converted to less. -/
theorem convert_there_and_back (h : ofLegs base quote = .ok p)
    (ha : a.symbol = base.symbol ∨ a.symbol = quote.symbol) (hfits : a.amount.Fits) :
    (∃ source target, p.Legs a.symbol source target ∧
      p.convert a = if (a.amount.exchanged source.amount target.amount).Fits then
        .ok ⟨a.amount.exchanged source.amount target.amount, target.symbol⟩
      else .error (.overflow .priceConvert)) ∧
    (∀ b, p.convert a = .ok b → ∃ c, p.convert b = .ok c ∧ c.symbol = a.symbol ∧
      (0 ≤ a.amount → 0 ≤ c.amount) ∧ (a.amount ≤ 0 → c.amount ≤ 0) ∧
      c.amount.natAbs ≤ a.amount.natAbs) ∧
    ∀ a' b b', a'.symbol = a.symbol → a.amount ≤ a'.amount → p.convert a = .ok b →
      p.convert a' = .ok b' → b.amount ≤ b'.amount := by
  obtain ⟨source, target, hlegs⟩ := exists_legs h ha
  have hs := hlegs.source_pos
  have ht := hlegs.target_pos
  refine ⟨⟨source, target, hlegs, convert_eq hlegs⟩, fun b hb => ?_, fun a' b b' hsym hle hb hb' => ?_⟩
  · obtain rfl := convert_eq_ok hlegs hb
    have hback : p.Legs target.symbol target source :=
      ⟨hlegs.back, hlegs.symbol_eq ▸ hlegs.there, rfl, ht, hs⟩
    have hconvert := convert_eq
      (a := ⟨a.amount.exchanged source.amount target.amount, target.symbol⟩) hback
    have hpos (hx : 0 ≤ a.amount) := Amount.exchanged_nonneg ht hs (Amount.exchanged_nonneg hs ht hx)
    have hneg (hx : a.amount ≤ 0) := Amount.exchanged_nonpos ht hs (Amount.exchanged_nonpos hs ht hx)
    have habs := Amount.natAbs_exchanged_back (x := a.amount) (s := source.amount) ht
    exact ⟨_, hconvert.trans (if_pos (hfits.of_natAbs_le hpos hneg habs)), hlegs.symbol_eq, hpos, hneg,
      habs⟩
  · rw [← hsym] at hlegs
    obtain rfl := convert_eq_ok hlegs hb'
    rw [hsym] at hlegs
    obtain rfl := convert_eq_ok hlegs hb
    exact Amount.exchanged_mono hs ht hle

end Price

namespace Sample

/-- A unit of which two are exchanged for three of the primary symbol. -/
def shell : Symbol := .pack 0 [83, 72]

def shellPrice : Price := ⟨.primary 3, ⟨2, shell⟩⟩

/-- Seven owed come to four owed in shells, and these to six. The greatest amount of shells has no
equivalent that can be stored. -/
theorem seven_owed_there_and_back :
    shellPrice.convert (.primary (-7)) = .ok ⟨-4, shell⟩ ∧
    shellPrice.convert ⟨-4, shell⟩ = .ok (.primary (-6)) ∧
    (∃ c, shellPrice.convert ⟨-4, shell⟩ = .ok c ∧ c.amount.natAbs ≤ 7) ∧
    shellPrice.convert ⟨Amount.max, shell⟩ = .error (.overflow .priceConvert) := by
  have hprice : Price.ofLegs (.primary 3) ⟨2, shell⟩ = .ok shellPrice := rfl
  have hthere : shellPrice.convert (.primary (-7)) = .ok ⟨-4, shell⟩ := rfl
  obtain ⟨-, hback, -⟩ := Price.convert_there_and_back (a := .primary (-7)) hprice (.inl rfl) (by decide)
  obtain ⟨c, hc, -, -, -, hle⟩ := hback _ hthere
  exact ⟨hthere, rfl, ⟨c, hc, hle⟩, rfl⟩

end Sample

end ResearchLedger
