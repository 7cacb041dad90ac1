import Mathlib.Data.List.Basic
import ResearchLedger.Asset.Text
import ResearchLedger.Proofs.Computation

/-! Symbols: the number of a symbol gives back the precision and the name that it was made of. -/
namespace ResearchLedger.Symbol

variable {precision : Nat} {name : String} {s : Symbol} {bytes : List UInt8} {cs : List Char}

/-- A name that a symbol may have. -/
structure IsName (cs : List Char) : Prop where
  ne_nil : cs ≠ []
  short : cs.length ≤ maxNameLength
  upper : ∀ c ∈ cs, c.isUpper = true

/-- The characters of a name as bytes. -/
def nameBytes (cs : List Char) : List UInt8 := cs.map fun c => UInt8.ofNat c.toNat

theorem bytesOf_packBytes (h : ∀ b ∈ bytes, b.toNat ≠ 0) :
    bytesOf (packBytes bytes) = bytes.map UInt8.toNat := by
  induction bytes with
  | nil => rw [packBytes, bytesOf, if_pos rfl, List.map_nil]
  | cons b bytes ih =>
    obtain ⟨hb, hbytes⟩ := List.forall_mem_cons.1 h
    have hlt := b.toNat_lt
    have hne : b.toNat + 256 * packBytes bytes ≠ 0 := by omega
    have hmod : (b.toNat + 256 * packBytes bytes) % 256 = b.toNat := by omega
    have hdiv : (b.toNat + 256 * packBytes bytes) / 256 = packBytes bytes := by omega
    rw [packBytes, bytesOf, if_neg hne, hmod, hdiv, ih hbytes, List.map_cons]

theorem precision_pack (h : precision < 256) : (pack precision bytes).precision = precision := by
  unfold pack Symbol.precision
  dsimp only
  omega

/-- The codes of upper-case letters. -/
theorem toNat_of_isUpper {c : Char} (h : c.isUpper = true) : 65 ≤ c.toNat ∧ c.toNat ≤ 90 := by
  unfold Char.isUpper at h
  simpa [UInt32.le_iff_toNat_le] using h

namespace IsName

variable (h : IsName cs)

include h

theorem toNat_nameBytes : (nameBytes cs).map UInt8.toNat = cs.map Char.toNat := by
  unfold nameBytes
  rw [List.map_map]
  refine List.map_congr_left fun c hc => ?_
  have hlt : c.toNat < 256 := by
    have := toNat_of_isUpper (h.upper c hc)
    omega
  exact UInt8.toNat_ofNat_of_lt hlt

theorem name_pack (hp : precision < 256) : (pack precision (nameBytes cs)).name = String.ofList cs := by
  have hbytes : ∀ b ∈ nameBytes cs, b.toNat ≠ 0 := by
    intro b hb
    have hb : b.toNat ∈ (nameBytes cs).map UInt8.toNat := List.mem_map_of_mem hb
    rw [h.toNat_nameBytes] at hb
    obtain ⟨c, hc, he⟩ := List.mem_map.1 hb
    have := toNat_of_isUpper (h.upper c hc)
    omega
  have hshort : (nameBytes cs).take maxNameLength = nameBytes cs :=
    List.take_of_length_le (by unfold nameBytes; rw [List.length_map]; exact h.short)
  have hcode : (pack precision (nameBytes cs)).code / 256 = packBytes (nameBytes cs) := by
    unfold pack
    rw [hshort]
    dsimp only
    omega
  unfold name
  rw [hcode, bytesOf_packBytes hbytes, h.toNat_nameBytes, List.map_map]
  congr 1
  exact List.map_id'' (fun c => Char.ofNat_toNat c) cs

end IsName

/-- What is checked of a precision and a name. -/
theorem refused_eq_false : (cs.isEmpty || maxNameLength < cs.length || !cs.all Char.isUpper ||
    maxPrecision < precision) = false ↔ IsName cs ∧ precision ≤ maxPrecision := by
  simp only [Bool.or_eq_false_iff, List.isEmpty_eq_false_iff, decide_eq_false_iff_not, Nat.not_lt,
    Bool.not_eq_false', List.all_eq_true]
  constructor
  · rintro ⟨⟨⟨hne, hshort⟩, hupper⟩, hprecision⟩
    exact ⟨⟨hne, hshort, hupper⟩, hprecision⟩
  · rintro ⟨⟨hne, hshort, hupper⟩, hprecision⟩
    exact ⟨⟨⟨hne, hshort⟩, hupper⟩, hprecision⟩

theorem ofName_eq_ok : ofName precision name = .ok s ↔
    IsName name.toList ∧ precision ≤ maxPrecision ∧ pack precision (nameBytes name.toList) = s := by
  unfold ofName
  dsimp only
  rw [← and_assoc, ← refused_eq_false]
  split
  · rename_i hbad
    rw [hbad]
    constructor
    · intro h
      cases h
    · rintro ⟨h, -⟩
      cases h
  · rename_i hgood
    rw [and_iff_right (Bool.eq_false_of_not_eq_true hgood)]
    exact ⟨fun h => Except.ok.inj h, congrArg Except.ok⟩

theorem given_of_ofName (h : ofName precision name = .ok s) : s.precision = precision ∧ s.name = name := by
  obtain ⟨hname, hprecision, rfl⟩ := ofName_eq_ok.1 h
  have hlt : precision < 256 := Nat.lt_of_le_of_lt hprecision (by decide)
  rw [precision_pack hlt, hname.name_pack hlt, String.ofList_toList]
  exact ⟨rfl, rfl⟩

end ResearchLedger.Symbol
