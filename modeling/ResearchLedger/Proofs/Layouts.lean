import Mathlib.Data.List.Basic
import ResearchLedger.Layout.Basic
import ResearchLedger.SortedMap.Lemmas

/-! Values come back from their bytes, whatever follows them: one lemma for each way to lay out values. -/
namespace ResearchLedger

variable {α β : Type}

namespace SortedMap

variable [KeyOrder α]

theorem insertEntry_of_last {k : α} {v : β} {l : List (α × β)}
    (h : ∀ e ∈ l, KeyOrder.before e.1 k = true) : insertEntry k v l = l ++ [(k, v)] := by
  induction l with
  | nil => rfl
  | cons e l ih =>
    have he := h e List.mem_cons_self
    rw [insertEntry, KeyOrder.asymm he, he, ih fun x hx => h x (List.mem_cons_of_mem _ hx)]
    rfl

theorem entries_foldl_insert {m : SortedMap α β} {l : List (α × β)}
    (h : (m.entries ++ l).Pairwise fun a b => KeyOrder.before a.1 b.1 = true) :
    (l.foldl (fun m e => m.insert e.1 e.2) m).entries = m.entries ++ l := by
  induction l generalizing m with
  | nil => exact (List.append_nil _).symm
  | cons e l ih =>
    have hm : (m.insert e.1 e.2).entries = m.entries ++ [e] :=
      insertEntry_of_last fun x hx => (List.pairwise_append.1 h).2.2 x hx e List.mem_cons_self
    rw [List.foldl_cons, ih (by rwa [hm, List.append_assoc]), hm, List.append_assoc]
    rfl

theorem ofList_entries (m : SortedMap α β) : ofList m.entries = m := by
  have h : (ofList m.entries).entries = m.entries := entries_foldl_insert m.sorted
  cases hm : ofList m.entries
  cases m
  rw [hm] at h
  cases h
  rfl

end SortedMap

theorem SortedSet.ofKeys_toList [KeyOrder α] (s : SortedSet α) : SortedSet.ofKeys s.toList = s := by
  unfold SortedSet.ofKeys SortedSet.toList SortedMap.keys
  rw [List.map_map]
  exact (congrArg SortedMap.ofList (List.map_id _)).trans s.ofList_entries

namespace ByteReader

/-- A reader takes these bytes, whatever follows them, and gives the value. -/
def Reads (r : ByteReader α) (bytes : List UInt8) (a : α) : Prop :=
  ∀ rest, r (bytes ++ rest) = some (a, rest)

/-- Some bytes stand for a value. Nothing is asked of more bytes than can be counted. -/
structure Yields (r : ByteReader α) (bytes : List UInt8) (a : α) : Prop where
  nonempty : bytes ≠ []
  reads : bytes.length ≤ maxWord → r.Reads bytes a

variable {r : ByteReader α} {bytes bytes' : List UInt8} {a : α} {b : β} {f : α → β}
  {k : α → ByteReader β}

theorem run_bind : (r >>= k) bytes = (r bytes).bind fun x => k x.1 x.2 := rfl

theorem Reads.nil : (pure a : ByteReader α).Reads [] a := fun _ => rfl

theorem Reads.bind (h : r.Reads bytes a) (hk : (k a).Reads bytes' b) :
    (r >>= k).Reads (bytes ++ bytes') b := by
  intro rest
  rw [run_bind, List.append_assoc, h]
  exact hk rest

/-- A reader that goes on without taking any more. -/
theorem Reads.last (h : r.Reads bytes a) (hk : k a = pure b) : (r >>= k).Reads bytes b := by
  have hb := h.bind (hk ▸ Reads.nil)
  rwa [List.append_nil] at hb

theorem Reads.map (h : r.Reads bytes a) : (f <$> r).Reads bytes (f a) := by
  rw [← bind_pure_comp]
  exact h.last rfl

theorem Yields.bind (h : r.Yields bytes a) (hk : (k a).Yields bytes' b) :
    (r >>= k).Yields (bytes ++ bytes') b where
  nonempty := List.append_ne_nil_of_left_ne_nil h.nonempty _
  reads hl := by
    rw [List.length_append] at hl
    exact (h.reads (by omega)).bind (hk.reads (by omega))

theorem Yields.last (h : r.Yields bytes a) (hk : k a = pure b) : (r >>= k).Yields bytes b :=
  ⟨h.nonempty, fun hl => (h.reads hl).last hk⟩

theorem Yields.map (h : r.Yields bytes a) : (f <$> r).Yields bytes (f a) :=
  ⟨h.nonempty, fun hl => (h.reads hl).map⟩

theorem reads_bytes (bytes : List UInt8) : (ByteReader.bytes bytes.length).Reads bytes bytes := by
  intro rest
  simp [ByteReader.bytes]

theorem reads_ofOption {o : Option α} (h : o = some a) : (ofOption o).Reads [] a := by
  subst h
  exact fun _ => rfl

end ByteReader

namespace Layout

open ByteReader

variable {layout : Layout α} {other : Layout β} {a : α} {b : β} {l : List α} {n width : Nat}

/-- A value comes back from its bytes. -/
abbrev Carries (layout : Layout α) (a : α) : Prop := layout.read.Yields (layout.write a) a

/-- A list of values is read item by item. -/
theorem reads_items (h : ∀ a ∈ l, layout.Carries a) (hl : (l.flatMap layout.write).length ≤ maxWord) :
    (layout.read.items l.length).Reads (l.flatMap layout.write) l := by
  induction l with
  | nil => exact .nil
  | cons a l ih =>
    rw [List.flatMap_cons, List.length_append] at hl
    have ha := (h a List.mem_cons_self).reads (by omega)
    exact ha.bind ((ih (fun b hb => h b (List.mem_cons_of_mem _ hb)) (by omega)).last rfl)

theorem length_le_flatMap (h : ∀ a ∈ l, layout.Carries a) :
    l.length ≤ (l.flatMap layout.write).length := by
  induction l with
  | nil => exact Nat.zero_le _
  | cons a l ih =>
    have ha := List.length_pos_iff.2 (h a List.mem_cons_self).nonempty
    have hl := ih fun b hb => h b (List.mem_cons_of_mem _ hb)
    rw [List.flatMap_cons, List.length_append, List.length_cons]
    omega

theorem write_natural_ne_nil (hw : 0 < width) : (natural width).write n ≠ [] := by
  refine List.length_pos_iff.1 ?_
  rw [natural, LittleEndian.length_encode]
  exact hw

namespace Carries

theorem natural (hw : 0 < width) (h : n < LittleEndian.count width) : (natural width).Carries n where
  nonempty := write_natural_ne_nil hw
  reads _ := by
    have hb := reads_bytes (LittleEndian.encode width n)
    rw [LittleEndian.length_encode] at hb
    have hd := hb.map (f := LittleEndian.decode)
    rwa [LittleEndian.decode_encode width n h] at hd

theorem word (h : n ≤ maxWord) : word.Carries n :=
  natural (by decide) (Nat.lt_of_le_of_lt h (by decide))

theorem word32 (h : n ≤ maxWord32) : word32.Carries n :=
  natural (by decide) (Nat.lt_of_le_of_lt h (by decide))

theorem word16 (h : n ≤ maxWord16) : word16.Carries n :=
  natural (by decide) (Nat.lt_of_le_of_lt h (by decide))

theorem integer {i : Int} (hw : 0 < width) (hl : -(LittleEndian.count width : Int) ≤ 2 * i)
    (hu : 2 * i < LittleEndian.count width) : (integer width).Carries i := by
  have hc : 0 < (LittleEndian.count width : Int) := by omega
  have hn : (i % LittleEndian.count width).toNat < LittleEndian.count width := by
    have := Int.emod_lt_of_pos i hc
    omega
  have hi : (if 2 * (i % LittleEndian.count width).toNat < LittleEndian.count width
      then ((i % LittleEndian.count width).toNat : Int)
      else (i % LittleEndian.count width).toNat - LittleEndian.count width) = i := by
    rw [Int.toNat_of_nonneg (Int.emod_nonneg i (by omega))]
    by_cases h : 0 ≤ i
    · rw [Int.emod_eq_of_lt h (by omega), if_pos (by omega)]
    · have he : i % LittleEndian.count width = i + LittleEndian.count width := by
        rw [← Int.add_emod_right, Int.emod_eq_of_lt (by omega) (by omega)]
      rw [he, if_neg (by omega)]
      omega
  exact (natural hw hn).last (congrArg pure hi)

theorem integer64 {i : Int} (h : Amount.Fits i) : integer64.Carries i := by
  obtain ⟨hl, hu⟩ : (-0x8000000000000000 : Int) ≤ i ∧ i ≤ 0x7FFFFFFFFFFFFFFF := h
  have hc : (LittleEndian.count 8 : Int) = 0x10000000000000000 := by decide
  exact integer (by decide) (by omega) (by omega)

theorem integer16 {i : Int} (hl : -0x8000 ≤ i) (hu : i ≤ 0x7FFF) : integer16.Carries i := by
  have hc : (LittleEndian.count 2 : Int) = 0x10000 := by decide
  exact integer (by decide) (by omega) (by omega)

theorem refine {toBase : α → β} {ofBase? : β → Option α} (h : other.Carries (toBase a))
    (ha : ofBase? (toBase a) = some a) : (other.refine toBase ofBase?).Carries a := by
  refine h.last ?_
  funext s
  rw [ha]
  rfl

theorem choice [BEq α] [LawfulBEq α] {index : Layout Nat} {values : List α} (ha : a ∈ values)
    (h : index.Carries (values.idxOf a)) : (choice index values).Carries a :=
  refine h (List.getElem?_idxOf ha)

theorem bool (b : Bool) : bool.Carries b :=
  choice (by cases b <;> decide) (natural (by decide) (by cases b <;> decide))

theorem option {o : Option α} (h : ∀ a ∈ o, layout.Carries a) : (option layout).Carries o := by
  cases o with
  | none => exact (bool false).last rfl
  | some a => exact (bool true).bind (h a rfl).map

theorem pair (h : layout.Carries a) (h' : other.Carries b) : (pair layout other).Carries (a, b) :=
  h.bind (h'.last rfl)

theorem list (h : ∀ a ∈ l, layout.Carries a) : (list layout).Carries l where
  nonempty := List.append_ne_nil_of_left_ne_nil (write_natural_ne_nil (by decide)) _
  reads hl := by
    have hw : (Layout.word.write l.length ++ l.flatMap layout.write).length ≤ maxWord := hl
    rw [List.length_append] at hw
    have hn := length_le_flatMap h
    have hread : Layout.word.read.Reads (Layout.word.write l.length) l.length :=
      (word (by omega)).reads (by omega)
    exact hread.bind (reads_items h (by omega))

theorem vector {v : Vector α n} (hn : 0 < n) (h : ∀ i (hi : i < n), layout.Carries v[i]) :
    (vector layout n).Carries v := by
  have hv : ∀ a ∈ v.toList, layout.Carries a := fun a ha => by
    obtain ⟨i, hi, rfl⟩ := Vector.getElem_of_mem (Vector.mem_toList_iff.1 ha)
    exact h i hi
  constructor
  · have hl := length_le_flatMap hv
    rw [Vector.length_toList] at hl
    exact List.length_pos_iff.1 (Nat.lt_of_lt_of_le hn hl)
  · intro hl
    have hread := reads_items hv hl
    rw [Vector.length_toList] at hread
    refine hread.last ?_
    rw [dif_pos v.length_toList]
    rfl

theorem string (s : String) : string.Carries s where
  nonempty := List.append_ne_nil_of_left_ne_nil (write_natural_ne_nil (by decide)) _
  reads hl := by
    have hw : (Layout.word.write s.utf8ByteSize ++ s.toUTF8.data.toList).length ≤ maxWord := hl
    have hs : s.toUTF8.data.toList.length = s.utf8ByteSize := rfl
    rw [List.length_append] at hw
    have hsize : Layout.word.read.Reads (Layout.word.write s.utf8ByteSize) s.utf8ByteSize :=
      (word (by omega)).reads (by omega)
    have htext : String.fromUTF8? ⟨s.toUTF8.data.toList.toArray⟩ = some s := by
      unfold String.fromUTF8?
      exact dif_pos s.isValidUTF8
    refine hsize.bind ?_
    rw [← List.append_nil s.toUTF8.data.toList]
    exact (hs ▸ reads_bytes s.toUTF8.data.toList).bind (reads_ofOption htext)

theorem map [KeyOrder α] {m : SortedMap α β}
    (h : ∀ k v, m.get? k = some v → layout.Carries k ∧ other.Carries v) :
    (map layout other).Carries m := by
  have he : ∀ e ∈ m.entries, (Layout.pair layout other).Carries e := fun e he =>
    have hv := h _ _ (SortedMap.mem_entries_iff.1 he)
    pair hv.1 hv.2
  exact refine (list he) (congrArg some m.ofList_entries)

theorem set [KeyOrder α] {s : SortedSet α} (h : ∀ k u, s.get? k = some u → layout.Carries k) :
    (set layout).Carries s := by
  have hk : ∀ k ∈ s.toList, layout.Carries k := fun k hk => by
    obtain ⟨e, he, rfl⟩ := List.mem_map.1 hk
    exact h _ _ (SortedMap.mem_entries_iff.1 he)
  exact refine (list hk) (congrArg some s.ofKeys_toList)

end Carries

end Layout

end ResearchLedger
