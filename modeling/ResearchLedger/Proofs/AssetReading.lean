import Mathlib.Algebra.Field.Rat
import Mathlib.Tactic.FieldSimp
import ResearchLedger.Proofs.Symbols
import ResearchLedger.Proofs.Words

/-! Reading of assets: which texts are read, and what amount and symbol comes of them. -/
namespace ResearchLedger

variable {s u name number : List Char} {n : Numeral} {a : Asset}
  {negative : Bool}

/-- A decimal number as it is written. -/
structure Numeral where
  negative : Bool
  whole : List Char
  /-- What follows the point, if there is one. -/
  decimals : Option (List Char)

namespace Numeral

def fraction (n : Numeral) : List Char := n.decimals.getD []

def unsigned (n : Numeral) : List Char := n.whole ++ n.decimals.elim [] ('.' :: ·)

def text (n : Numeral) : List Char := if n.negative then '-' :: n.unsigned else n.unsigned

/-- There are digits in front of the point, and nothing but digits on either side of it. -/
structure WellFormed (n : Numeral) : Prop where
  ne_nil : n.whole ≠ []
  whole : ∀ c ∈ n.whole, c.isDigit = true
  fraction : ∀ c ∈ n.fraction, c.isDigit = true

theorem wellFormed_iff :
    ¬ (n.whole.isEmpty || !n.whole.all Char.isDigit || !n.fraction.all Char.isDigit) = true ↔
      n.WellFormed := by
  simp only [Bool.or_eq_true, not_or, List.isEmpty_iff, Bool.not_eq_true', Bool.not_eq_false,
    List.all_eq_true]
  constructor
  · rintro ⟨⟨hne, hwhole⟩, hfraction⟩
    exact ⟨hne, hwhole, hfraction⟩
  · rintro ⟨hne, hwhole, hfraction⟩
    exact ⟨⟨hne, hwhole⟩, hfraction⟩

/-- The number that is written. -/
def value (n : Numeral) : ℚ :=
  let magnitude : ℚ := Decimal.value n.whole + Decimal.value n.fraction / 10 ^ n.fraction.length
  if n.negative then -magnitude else magnitude

/-- The number without its sign in units of which `scale` make one whole, the decimals being a count
of them. -/
def units (n : Numeral) (scale : Nat) : Amount :=
  Decimal.value n.whole * scale + Decimal.value n.fraction

def withSign (n : Numeral) (amount : Amount) : Amount := if n.negative then -amount else amount

theorem value_mul_pow :
    n.value * 10 ^ n.fraction.length = (n.withSign (n.units (10 ^ n.fraction.length)) : Int) := by
  unfold value withSign units
  split <;> push_cast <;> field_simp

/-- The numeral that a text without a sign is, if it is one. -/
def ofUnsigned (negative : Bool) (u : List Char) : Numeral :=
  ⟨negative, (Asset.splitPoint u).1, if '.' ∈ u then some (Asset.splitPoint u).2 else none⟩

/-- The numeral that a text is, if it is one. -/
def read (s : List Char) : Numeral := ofUnsigned (Asset.splitSign s).1 (Asset.splitSign s).2

theorem splitPoint_of_notMem (h : '.' ∉ u) : Asset.splitPoint u = (u, []) := by
  have hall : ∀ c ∈ u, (c != '.') = true := fun c hc => bne_iff_ne.2 fun he => h (he ▸ hc)
  unfold Asset.splitPoint
  rw [List.takeWhile_eq_self_iff.2 hall, List.dropWhile_eq_nil_iff.2 hall, List.drop_nil]

theorem splitPoint_append (h : '.' ∉ u) : Asset.splitPoint (u ++ '.' :: s) = (u, s) := by
  have hall : ∀ c ∈ u, (c != '.') = true := fun c hc => bne_iff_ne.2 fun he => h (he ▸ hc)
  unfold Asset.splitPoint
  rw [List.takeWhile_append_of_pos hall, List.dropWhile_append_of_pos hall]
  simp

theorem ofUnsigned_of_notMem (h : '.' ∉ u) : ofUnsigned negative u = ⟨negative, u, none⟩ := by
  unfold ofUnsigned
  rw [splitPoint_of_notMem h, if_neg h]

theorem ofUnsigned_append (h : '.' ∉ u) : ofUnsigned negative (u ++ '.' :: s) = ⟨negative, u, some s⟩ := by
  unfold ofUnsigned
  rw [splitPoint_append h, if_pos (List.mem_append_right _ List.mem_cons_self)]

theorem fraction_read : (read s).fraction = (Asset.splitPoint (Asset.splitSign s).2).2 := by
  unfold read
  generalize (Asset.splitSign s).2 = u
  by_cases h : '.' ∈ u
  · unfold ofUnsigned
    rw [if_pos h]
    rfl
  · rw [ofUnsigned_of_notMem h, splitPoint_of_notMem h]
    rfl

theorem unsigned_read : (read s).unsigned = (Asset.splitSign s).2 := by
  unfold read
  generalize (Asset.splitSign s).2 = u
  by_cases h : '.' ∈ u
  · obtain ⟨u, t, rfl, hu⟩ := List.eq_append_cons_of_mem h
    rw [ofUnsigned_append hu]
    rfl
  · rw [ofUnsigned_of_notMem h]
    exact List.append_nil u

theorem text_read : (read s).text = s := by
  unfold text
  rw [unsigned_read]
  unfold read ofUnsigned Asset.splitSign
  split <;> rfl

namespace WellFormed

variable (h : n.WellFormed)

include h

theorem splitSign_text : Asset.splitSign n.text = (n.negative, n.unsigned) := by
  obtain ⟨negative, whole, decimals⟩ := n
  obtain ⟨c, whole, rfl⟩ := List.exists_cons_of_ne_nil h.ne_nil
  cases negative with
  | true => rfl
  | false =>
    have hc : c ≠ '-' := by
      rintro rfl
      exact absurd (h.whole _ List.mem_cons_self) (by decide)
    unfold text Asset.splitSign
    split
    · rename_i u hu
      exact absurd (List.cons.inj hu).1 hc
    · rfl

/-- A well-formed numeral is found again in its text. -/
theorem read_text : read n.text = n := by
  unfold read
  rw [h.splitSign_text]
  obtain ⟨negative, whole, decimals⟩ := n
  have hpoint : '.' ∉ whole := fun hc => absurd (h.whole _ hc) (by decide)
  cases decimals with
  | none => exact (congrArg _ (List.append_nil whole)).trans (ofUnsigned_of_notMem hpoint)
  | some decimals => exact ofUnsigned_append hpoint

theorem isWord : Text.IsWord n.text := by
  obtain ⟨negative, whole, decimals⟩ := n
  have hunsigned : ∀ c ∈ unsigned ⟨negative, whole, decimals⟩, Text.isBlank c = false := by
    intro c hc
    rcases List.mem_append.1 hc with hc | hc
    · exact Text.not_isBlank_of_isDigit (h.whole c hc)
    · cases decimals with
      | none => exact absurd hc List.not_mem_nil
      | some decimals =>
        rcases List.mem_cons.1 hc with rfl | hc
        · rfl
        · exact Text.not_isBlank_of_isDigit (h.fraction c hc)
  unfold text
  split
  · exact ⟨List.cons_ne_nil _ _, List.forall_mem_cons.2 ⟨rfl, hunsigned⟩⟩
  · exact ⟨List.append_ne_nil_of_left_ne_nil h.ne_nil _, hunsigned⟩

end WellFormed

end Numeral

namespace Asset

/-- A text consists of a numeral and a name, with blanks between them and perhaps around them. -/
structure Written (text : String) (n : Numeral) (name : List Char) : Prop where
  wellFormed : n.WellFormed
  isWord : Text.IsWord name
  parts : ∃ before between after, text.toList = before ++ n.text ++ between ++ name ++ after ∧
    Text.Blank before ∧ Text.Blank between ∧ between ≠ [] ∧ Text.Blank after

/-- A numeral and a name with a space between them. -/
theorem written_ofList (h : n.WellFormed) (hname : Text.IsWord name) :
    Written (String.ofList (n.text ++ ' ' :: name)) n name := by
  refine ⟨h, hname, [], [' '], [], ?_, by simp [Text.Blank], ?_, by simp, by simp [Text.Blank]⟩
  · rw [String.toList_ofList]
    simp
  · exact List.forall_mem_singleton.2 rfl

theorem written_iff {text : String} :
    Written text n name ↔ n.WellFormed ∧ Text.words text.toList = [n.text, name] := by
  rw [Text.words_eq_pair]
  constructor
  · rintro ⟨h, hname, before, between, after, htext, hbefore, hbetween, hne, hafter⟩
    exact ⟨h, before, between, after, htext, hbefore, hbetween, hne, hafter, h.isWord, hname⟩
  · rintro ⟨h, before, between, after, htext, hbefore, hbetween, hne, hafter, -, hname⟩
    exact ⟨h, hname, before, between, after, htext, hbefore, hbetween, hne, hafter⟩

/-- A text is written of one numeral and one name only. -/
theorem Written.unique {text : String} {m : Numeral} {name' : List Char} (h : Written text n name)
    (h' : Written text m name') : m = n ∧ name' = name := by
  obtain ⟨hn, hwords⟩ := written_iff.1 h
  obtain ⟨hm, hwords'⟩ := written_iff.1 h'
  rw [hwords] at hwords'
  injection hwords' with htext htail
  injection htail with hname
  exact ⟨by rw [← hm.read_text, ← hn.read_text, htext], hname.symm⟩

/-- What is read of a numeral and a name. -/
structure IsRead (a : Asset) (n : Numeral) (name : List Char) : Prop where
  symbol : Symbol.ofName (n.fraction.length % 256) (String.ofList name) = .ok a.symbol
  whole : (Decimal.value n.whole : Int) ≤ Amount.max
  fraction : (Decimal.value n.fraction : Int) ≤ Amount.max
  fits : (n.units a.symbol.scale).Fits
  amount : a.amount = n.withSign (n.units a.symbol.scale)

theorem ofText_of_words {text : String} (h : Text.words text.toList = [number, name]) :
    ofText text = .ok a ↔ (Numeral.read number).WellFormed ∧ a.IsRead (.read number) name := by
  unfold ofText
  rw [h]
  dsimp only
  rw [← Numeral.fraction_read]
  generalize hn : Numeral.read number = n
  have hwhole : (splitPoint (splitSign number).2).1 = n.whole := by rw [← hn]; rfl
  have hnegative : (splitSign number).1 = n.negative := by rw [← hn]; rfl
  rw [hwhole, hnegative, guard_bind_eq_ok, Numeral.wellFormed_iff]
  refine and_congr_right fun _ => ?_
  simp only [bind_eq_ok, guard_bind_eq_ok]
  constructor
  · rintro ⟨symbol, hsymbol, hmax, h⟩
    obtain ⟨hwhole, hfraction⟩ := not_or.1 hmax
    unfold Amount.checked? at h
    split at h <;> cases h
    rename_i amount hfits
    split at hfits <;> cases hfits
    exact ⟨hsymbol, Int.not_lt.1 hwhole, Int.not_lt.1 hfraction, ‹_›, rfl⟩
  · rintro ⟨hsymbol, hwhole, hfraction, hfits, hamount⟩
    refine ⟨a.symbol, hsymbol, not_or.2 ⟨Int.not_lt.2 hwhole, Int.not_lt.2 hfraction⟩, ?_⟩
    have hchecked : Amount.checked? (n.units a.symbol.scale) = some (n.units a.symbol.scale) := if_pos hfits
    unfold Numeral.units at hchecked
    rw [hchecked]
    exact congrArg (fun amount => Except.ok (Asset.mk amount a.symbol)) hamount.symm

theorem Written.ofText_eq_ok {text : String} (h : Written text n name) :
    ofText text = .ok a ↔ a.IsRead n name := by
  obtain ⟨hwell, hwords⟩ := written_iff.1 h
  rw [ofText_of_words hwords, hwell.read_text, and_iff_right hwell]

theorem ofText_eq_ok {text : String} :
    ofText text = .ok a ↔ ∃ n name, Written text n name ∧ a.IsRead n name := by
  constructor
  · intro h
    obtain ⟨number, name, hwords⟩ : ∃ number name, Text.words text.toList = [number, name] := by
      unfold ofText at h
      dsimp only at h
      split at h
      · exact ⟨_, _, ‹_›⟩
      · cases h
    obtain ⟨hwell, hread⟩ := (ofText_of_words hwords).1 h
    exact ⟨.read number, name, written_iff.2 ⟨hwell, Numeral.text_read ▸ hwords⟩, hread⟩
  · rintro ⟨n, name, hwritten, hread⟩
    exact hwritten.ofText_eq_ok.2 hread

/-- The asset is what is written: as many decimals as are written, and so many of its smallest unit. -/
structure Means (a : Asset) (n : Numeral) : Prop where
  precision : a.symbol.precision = n.fraction.length
  amount : (a.amount : ℚ) = n.value * 10 ^ n.fraction.length

namespace IsRead

variable (h : a.IsRead n name)

include h

theorem symbol_eq : Symbol.IsName name ∧ a.symbol.name = String.ofList name ∧
    a.symbol.precision = n.fraction.length % 256 ∧ a.symbol.precision ≤ Symbol.maxPrecision := by
  obtain ⟨hname, hmax, -⟩ := Symbol.ofName_eq_ok.1 h.symbol
  obtain ⟨hprecision, hgiven⟩ := Symbol.given_of_ofName h.symbol
  rw [String.toList_ofList] at hname
  exact ⟨hname, hgiven, hprecision, hprecision ▸ hmax⟩

/-- The decimals are counted in one byte, and only this can go wrong. -/
theorem means_iff : a.Means n ↔ n.fraction.length < 256 := by
  obtain ⟨-, -, hprecision, -⟩ := h.symbol_eq
  constructor
  · intro hmeans
    have := hmeans.precision
    omega
  · intro hlt
    rw [Nat.mod_eq_of_lt hlt] at hprecision
    have hscale : a.symbol.scale = 10 ^ n.fraction.length := by
      unfold Symbol.scale
      rw [hprecision]
      rfl
    refine ⟨hprecision, ?_⟩
    rw [n.value_mul_pow, h.amount, hscale]

end IsRead

/-- A text that is read consists of a number and of a name of one to seven upper-case letters. The
symbol has that name and has as many decimals as are written, modulo 256, and never more than a symbol
may have. The amount is the written number in units of that many decimals. So the asset is exactly what
is written, but for a text with 256 decimals or more. -/
theorem ofText_exact_iff {text : String} (h : ofText text = .ok a) :
    (∃ n name, Written text n name) ∧ ∀ n name, Written text n name →
      Symbol.IsName name ∧ a.symbol.name = String.ofList name ∧
      a.symbol.precision = n.fraction.length % 256 ∧ a.symbol.precision ≤ Symbol.maxPrecision ∧
      a.amount = n.withSign (n.units a.symbol.scale) ∧ (a.Means n ↔ n.fraction.length < 256) := by
  obtain ⟨n, name, hwritten, -⟩ := ofText_eq_ok.1 h
  refine ⟨⟨n, name, hwritten⟩, fun n name hwritten => ?_⟩
  have hread := hwritten.ofText_eq_ok.1 h
  obtain ⟨hname, hsame, hprecision, hmax⟩ := hread.symbol_eq
  exact ⟨hname, hsame, hprecision, hmax, hread.amount, hread.means_iff⟩

end Asset

namespace Sample

def owed : Numeral := ⟨true, ['1'], some ['5', '0', '0']⟩

/-- One and a half are owed, counted in thousandths. -/
theorem owed_exact :
    Asset.ofText "-1.500 SCI" = .ok (.primary (-1500)) ∧ Asset.Written "-1.500 SCI" owed ['S', 'C', 'I'] ∧
    (Asset.primary (-1500)).Means owed := by
  have hread : Asset.ofText "-1.500 SCI" = .ok (.primary (-1500)) := by decide +kernel
  have hwritten : Asset.Written "-1.500 SCI" owed ['S', 'C', 'I'] :=
    Asset.written_iff.2 ⟨Numeral.wellFormed_iff.1 (by decide), by decide +kernel⟩
  obtain ⟨-, hexact⟩ := Asset.ofText_exact_iff hread
  obtain ⟨-, -, -, -, -, hmeans⟩ := hexact _ _ hwritten
  exact ⟨hread, hwritten, hmeans.2 (by decide)⟩

/-- A number with 256 decimals, all but the last of them zero. -/
def minute : Numeral := ⟨false, ['0'], some (List.replicate 255 '0' ++ ['5'])⟩

def minuteText : String := String.ofList (minute.text ++ ' ' :: ['S', 'C', 'I'])

/-- What has 256 decimals is read as if it had none: five in the last place become five whole ones. -/
theorem minute_misread :
    Asset.Written minuteText minute ['S', 'C', 'I'] ∧ minute.fraction.length = 256 ∧
    ∃ a, Asset.ofText minuteText = .ok a ∧ a.symbol.precision = 0 ∧ a.amount = 5 ∧
      ¬ ∃ n name, Asset.Written minuteText n name ∧ a.Means n := by
  have hsolid : ∀ c ∈ ['S', 'C', 'I'], Text.isBlank c = false :=
    List.forall_mem_cons.2 ⟨rfl, List.forall_mem_cons.2 ⟨rfl, List.forall_mem_singleton.2 rfl⟩⟩
  have hwritten : Asset.Written minuteText minute ['S', 'C', 'I'] :=
    Asset.written_ofList (Numeral.wellFormed_iff.1 (by decide +kernel)) ⟨by decide, hsolid⟩
  have hread : Asset.IsRead ⟨5, .pack 0 [83, 67, 73]⟩ minute ['S', 'C', 'I'] :=
    ⟨by decide +kernel, by decide +kernel, by decide +kernel, by decide +kernel, by decide +kernel⟩
  refine ⟨hwritten, by decide +kernel, _, hwritten.ofText_eq_ok.2 hread, rfl, rfl, ?_⟩
  rintro ⟨n, name, hn, hmeans⟩
  obtain ⟨rfl, -⟩ := hwritten.unique hn
  exact absurd hmeans.precision (by decide +kernel)

end Sample

end ResearchLedger
