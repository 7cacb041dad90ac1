import Mathlib.Data.String.Basic
import ResearchLedger.Proofs.Decoding
import ResearchLedger.Proofs.Layouts

/-! What is read from bytes: each value is one that its layout can hold, and it is written in no more
bytes than it was read from. -/
namespace ResearchLedger

theorem LittleEndian.decode_lt (bytes : List UInt8) : decode bytes < count bytes.length := by
  induction bytes with
  | nil => decide
  | cons b bytes ih =>
    have hb := b.toNat_lt
    rw [decode, List.length_cons, count_succ]
    omega

theorem Hex.length_of_decode? {digits : List Char} {bytes : List UInt8}
    (h : decode? digits = some bytes) : digits.length = 2 * bytes.length := by
  fun_induction decode? digits generalizing bytes with
  | case1 => cases h; rfl
  | case2 => cases h
  | case3 a b s ih =>
    obtain ⟨hi, -, h⟩ := Option.bind_eq_some_iff.1 h
    obtain ⟨lo, -, h⟩ := Option.bind_eq_some_iff.1 h
    obtain ⟨rest, hrest, h⟩ := Option.bind_eq_some_iff.1 h
    cases h
    rw [List.length_cons, List.length_cons, List.length_cons, ih hrest]
    omega

theorem Hex.utf8Len_encode (bytes : List UInt8) : String.utf8Len (encode bytes) = 2 * bytes.length := by
  have hdigit : ∀ {d : Nat}, d < 16 → (digit d).utf8Size = 1 := by decide
  induction bytes with
  | nil => rfl
  | cons b bytes ih =>
    have hb := b.toNat_lt
    rw [encode, String.utf8Len_cons, String.utf8Len_cons, ih, hdigit (by omega), hdigit (by omega),
      List.length_cons]
    omega

theorem length_le_utf8Len (l : List Char) : l.length ≤ String.utf8Len l := by
  induction l with
  | nil => exact Nat.zero_le _
  | cons c l ih =>
    have hc := c.utf8Size_pos
    rw [String.utf8Len_cons, List.length_cons]
    omega

theorem length_dropMark_le (l : List Char) : (PublicKey.dropMark l).length ≤ l.length := by
  unfold PublicKey.dropMark
  split
  · rw [List.length_cons, List.length_cons]
    omega
  · exact Nat.le_refl _

/-- A key is written in no more characters than it was read from. -/
theorem PublicKey.utf8ByteSize_toHex_le {text : String} {key : PublicKey}
    (h : ofText? text = some key) : key.toHex.utf8ByteSize ≤ text.utf8ByteSize := by
  have hwritten : key.toHex.utf8ByteSize = 2 * key.bytes.length := by
    rw [toHex, String.utf8ByteSize_ofList, Hex.utf8Len_encode]
  have htext : text.toList.length ≤ text.utf8ByteSize := by
    have hle := length_le_utf8Len text.toList
    rwa [← String.utf8ByteSize_ofList, String.ofList_toList] at hle
  have hmark := length_dropMark_le text.toList
  unfold ofText? ofStored at h
  split at h
  · cases h
    rw [hwritten]
    exact Nat.zero_le _
  · unfold ofHex at h
    dsimp only at h
    split at h
    · rename_i bytes hbytes
      have hlen := Hex.length_of_decode? hbytes
      split at h
      · cases h
        rw [hwritten]
        change 2 * bytes.length ≤ _
        omega
      · cases h
    · cases h

namespace ByteReader

variable {α β : Type} {r : ByteReader α} {k : α → ByteReader β} {f : α → β} {bytes rest : List UInt8}
  {b : β}

theorem bind_eq_some : (r >>= k) bytes = some (b, rest) ↔
    ∃ a mid, r bytes = some (a, mid) ∧ k a mid = some (b, rest) := by
  rw [run_bind, Option.bind_eq_some_iff, Prod.exists]

theorem map_eq_some (h : (f <$> r) bytes = some (b, rest)) : ∃ a, r bytes = some (a, rest) ∧ f a = b := by
  rw [← bind_pure_comp] at h
  obtain ⟨a, mid, ha, hb⟩ := bind_eq_some.1 h
  cases hb
  exact ⟨a, ha, rfl⟩

theorem ofOption_eq_some {o : Option α} {a : α} (h : ofOption o bytes = some (a, rest)) :
    o = some a ∧ bytes = rest := by
  obtain ⟨x, hx, he⟩ := Option.map_eq_some_iff.1 h
  cases he
  exact ⟨hx, rfl⟩

theorem bytes_eq_some {n : Nat} {taken : List UInt8}
    (h : ByteReader.bytes n bytes = some (taken, rest)) : taken.length = n ∧ bytes = taken ++ rest := by
  unfold ByteReader.bytes at h
  dsimp only at h
  split at h
  · rename_i hn
    cases h
    exact ⟨hn, (List.take_append_drop n bytes).symm⟩
  · cases h

end ByteReader

namespace SortedMap

variable {κ α : Type} [KeyOrder κ]

/-- An entry that is put into its place takes the place of at most one other. -/
theorem length_flatMap_insertEntry_le (f : κ × α → List UInt8) (k : κ) (v : α) (l : List (κ × α)) :
    ((insertEntry k v l).flatMap f).length ≤ (f (k, v)).length + (l.flatMap f).length := by
  induction l with
  | nil => rw [insertEntry, List.flatMap_cons, List.length_append]
  | cons e l ih =>
    rw [insertEntry]
    split
    · rw [List.flatMap_cons, List.length_append]
    · split
      · rw [List.flatMap_cons, List.flatMap_cons, List.length_append, List.length_append]
        omega
      · rw [List.flatMap_cons, List.flatMap_cons, List.length_append, List.length_append]
        omega

theorem length_flatMap_ofList_le (f : κ × α → List UInt8) (l : List (κ × α)) :
    ((ofList l).entries.flatMap f).length ≤ (l.flatMap f).length := by
  suffices ∀ m : SortedMap κ α, ((l.foldl (fun m e => m.insert e.1 e.2) m).entries.flatMap f).length ≤
      (m.entries.flatMap f).length + (l.flatMap f).length by
    have hall := this ∅
    change _ ≤ 0 + _ at hall
    rwa [Nat.zero_add] at hall
  induction l with
  | nil => exact fun m => Nat.le_refl _
  | cons e l ih =>
    intro m
    have hinsert : ((m.insert e.1 e.2).entries.flatMap f).length ≤ (f e).length + _ :=
      length_flatMap_insertEntry_le f e.1 e.2 m.entries
    have hrest := ih (m.insert e.1 e.2)
    rw [List.foldl_cons, List.flatMap_cons, List.length_append]
    omega

end SortedMap

namespace Layout

open ByteReader

variable {α β : Type} {layout : Layout α} {other : Layout β} {P : α → Prop} {Q : β → Prop}

/-- Whatever is read satisfies `P`, and is written in no more bytes than were taken for it. -/
def Ensures (layout : Layout α) (P : α → Prop) : Prop :=
  ∀ bytes a rest, layout.read bytes = some (a, rest) →
    P a ∧ (layout.write a).length + rest.length ≤ bytes.length

/-- What a reader gives when `front` is written already: the whole satisfies `Q`, and what is still to be
written is no more than the reader takes. -/
def Completes (write : β → List UInt8) (front : List UInt8) (r : ByteReader β) (Q : β → Prop) : Prop :=
  ∀ bytes b rest, r bytes = some (b, rest) →
    Q b ∧ (write b).length + rest.length ≤ front.length + bytes.length

section Chain

variable {write : β → List UInt8} {front : List UInt8} {k : α → ByteReader β} {b : β}

theorem Completes.done (hb : Q b) (h : write b = front) : Completes write front (pure b) Q := by
  rintro bytes _ rest ⟨⟩
  exact ⟨hb, by rw [h]⟩

/-- One field after the other. -/
theorem Ensures.next (h : layout.Ensures P)
    (hk : ∀ a, P a → Completes write (front ++ layout.write a) (k a) Q) :
    Completes write front (layout.read >>= k) Q := by
  intro bytes b rest hr
  obtain ⟨a, mid, ha, hb⟩ := bind_eq_some.1 hr
  obtain ⟨hpa, hla⟩ := h bytes a mid ha
  obtain ⟨hqb, hlb⟩ := hk a hpa mid b rest hb
  rw [List.length_append] at hlb
  exact ⟨hqb, by omega⟩

/-- A record is ensured by its fields, the first of them here. -/
theorem Ensures.record (h : layout.Ensures P) (hk : ∀ a, P a → Completes write (layout.write a) (k a) Q) :
    Ensures ⟨write, layout.read >>= k⟩ Q := by
  have hall : Completes write [] (layout.read >>= k) Q := h.next hk
  intro bytes b rest hr
  have hb := hall bytes b rest hr
  rwa [List.length_nil, Nat.zero_add] at hb

end Chain

namespace Ensures

theorem mono {R : α → Prop} (h : layout.Ensures P) (hpr : ∀ a, P a → R a) : layout.Ensures R := by
  intro bytes a rest hr
  obtain ⟨ha, hl⟩ := h bytes a rest hr
  exact ⟨hpr a ha, hl⟩

theorem natural (width : Nat) : (natural width).Ensures (· < LittleEndian.count width) := by
  intro bytes n rest hr
  obtain ⟨taken, ht, rfl⟩ := map_eq_some hr
  obtain ⟨hlen, rfl⟩ := bytes_eq_some ht
  have hlt := LittleEndian.decode_lt taken
  rw [hlen] at hlt
  refine ⟨hlt, ?_⟩
  rw [Layout.natural, LittleEndian.length_encode, List.length_append, hlen]

theorem word : word.Ensures (· ≤ maxWord) :=
  (natural 8).mono fun _ h => Nat.le_of_lt_succ (Nat.lt_of_lt_of_le h (by decide))

theorem word32 : word32.Ensures (· ≤ maxWord32) :=
  (natural 4).mono fun _ h => Nat.le_of_lt_succ (Nat.lt_of_lt_of_le h (by decide))

theorem word16 : word16.Ensures (· ≤ maxWord16) :=
  (natural 2).mono fun _ h => Nat.le_of_lt_succ (Nat.lt_of_lt_of_le h (by decide))

theorem integer (width : Nat) : (integer width).Ensures fun i =>
    -(LittleEndian.count width : Int) ≤ 2 * i ∧ 2 * i < LittleEndian.count width := by
  intro bytes i rest hr
  obtain ⟨n, mid, hn, hi⟩ := bind_eq_some.1 hr
  obtain ⟨hlt, hl⟩ := natural width bytes n mid hn
  cases hi
  rw [Layout.natural, LittleEndian.length_encode] at hl
  refine ⟨?_, by rwa [Layout.integer, LittleEndian.length_encode]⟩
  split <;> omega

theorem integer64 : integer64.Ensures Amount.Fits := by
  refine (integer 8).mono fun i h => ?_
  have hc : (LittleEndian.count 8 : Int) = 0x10000000000000000 := by decide
  rw [hc] at h
  change (-0x8000000000000000 : Int) ≤ i ∧ i ≤ 0x7FFFFFFFFFFFFFFF
  omega

theorem integer16 : integer16.Ensures fun i => -0x8000 ≤ i ∧ i ≤ 0x7FFF := by
  refine (integer 2).mono fun i h => ?_
  have hc : (LittleEndian.count 2 : Int) = 0x10000 := by decide
  rw [hc] at h
  omega

/-- A value that stands for another one is ensured if it is written in no more bytes. -/
theorem refine {toBase : α → β} {ofBase? : β → Option α} (h : other.Ensures Q)
    (hb : ∀ b a, Q b → ofBase? b = some a →
      P a ∧ (other.write (toBase a)).length ≤ (other.write b).length) :
    (other.refine toBase ofBase?).Ensures P := by
  intro bytes a rest hr
  obtain ⟨b, mid, hrb, hra⟩ := bind_eq_some.1 hr
  obtain ⟨hq, hl⟩ := h bytes b mid hrb
  obtain ⟨ha, rfl⟩ := ofOption_eq_some hra
  obtain ⟨hp, hle⟩ := hb b a hq ha
  exact ⟨hp, (Nat.add_le_add_right hle _).trans hl⟩

theorem choice [BEq α] {width : Nat} (values : List α) :
    (choice (Layout.natural width) values).Ensures fun _ => True := by
  refine refine (natural width) fun b a _ _ => ⟨trivial, ?_⟩
  rw [Layout.natural, LittleEndian.length_encode, LittleEndian.length_encode]

theorem bool : bool.Ensures fun _ => True := choice _

theorem pair (h : layout.Ensures P) (h' : other.Ensures Q) :
    (pair layout other).Ensures fun x => P x.1 ∧ Q x.2 :=
  h.record fun _ ha => h'.next fun _ hb => .done ⟨ha, hb⟩ rfl

theorem option (h : layout.Ensures P) : (option layout).Ensures fun o => ∀ a ∈ o, P a := by
  refine bool.record fun b _ => ?_
  cases b with
  | false => exact .done (fun _ ha => by cases ha) rfl
  | true =>
    intro bytes o rest hr
    obtain ⟨a, ha, rfl⟩ := map_eq_some hr
    obtain ⟨hp, hl⟩ := h bytes a rest ha
    refine ⟨fun _ ha => by cases ha; exact hp, ?_⟩
    change (Layout.bool.write true ++ layout.write a).length + _ ≤ _
    rw [List.length_append]
    omega

theorem items (h : layout.Ensures P) {n : Nat} {bytes rest : List UInt8} {l : List α}
    (hr : layout.read.items n bytes = some (l, rest)) :
    (∀ a ∈ l, P a) ∧ l.length = n ∧ (l.flatMap layout.write).length + rest.length ≤ bytes.length := by
  induction n generalizing bytes l with
  | zero =>
    cases hr
    exact ⟨fun _ ha => absurd ha List.not_mem_nil, rfl,
      by rw [List.flatMap_nil, List.length_nil, Nat.zero_add]⟩
  | succ n ih =>
    obtain ⟨a, mid, ha, hr⟩ := bind_eq_some.1 hr
    obtain ⟨as, left, has, hr⟩ := bind_eq_some.1 hr
    cases hr
    obtain ⟨hp, hl⟩ := h bytes a mid ha
    obtain ⟨hps, hn, hls⟩ := ih has
    refine ⟨List.forall_mem_cons.2 ⟨hp, hps⟩, by rw [List.length_cons, hn], ?_⟩
    rw [List.flatMap_cons, List.length_append]
    omega

theorem list (h : layout.Ensures P) : (list layout).Ensures fun l => ∀ a ∈ l, P a := by
  refine word.record fun n _ => ?_
  intro bytes l rest hr
  obtain ⟨hp, hn, hl⟩ := h.items hr
  refine ⟨hp, ?_⟩
  change (Layout.word.write l.length ++ l.flatMap layout.write).length + _ ≤ _
  rw [List.length_append, hn]
  omega

theorem vector (h : layout.Ensures P) (n : Nat) :
    (vector layout n).Ensures fun v => ∀ i (hi : i < n), P v[i] := by
  intro bytes v rest hr
  obtain ⟨l, mid, hl, hr⟩ := bind_eq_some.1 hr
  obtain ⟨hp, hn, hle⟩ := h.items hl
  rw [dif_pos hn] at hr
  cases hr
  exact ⟨fun i hi => hp _ (List.getElem_mem _), hle⟩

theorem string : string.Ensures fun _ => True := by
  intro bytes s rest hr
  obtain ⟨n, mid, hn, hr⟩ := bind_eq_some.1 hr
  obtain ⟨taken, left, ht, hr⟩ := bind_eq_some.1 hr
  obtain ⟨hs, rfl⟩ := ofOption_eq_some hr
  obtain ⟨hlen, rfl⟩ := bytes_eq_some ht
  obtain ⟨-, hl⟩ := word bytes n _ hn
  have hsize : s.utf8ByteSize = n := by
    unfold String.fromUTF8? at hs
    split at hs
    · cases hs
      exact hlen
    · cases hs
  refine ⟨trivial, ?_⟩
  change (Layout.word.write s.utf8ByteSize ++ s.toUTF8.data.toList).length + _ ≤ _
  have hbytes : s.toUTF8.data.toList.length = s.utf8ByteSize := rfl
  rw [List.length_append, hbytes, hsize]
  rw [List.length_append] at hl
  omega

theorem map {κ : Type} [KeyOrder κ] [DecidableEq κ] {key : Layout κ} {R : κ → Prop} (h : key.Ensures R)
    (h' : other.Ensures Q) : (map key other).Ensures fun m => m.All fun k v => R k ∧ Q v := by
  refine (h.pair h').list.refine fun l m hl hm => ?_
  cases hm
  refine ⟨.ofList hl, ?_⟩
  change (Layout.word.write _ ++ _).length ≤ (Layout.word.write _ ++ _).length
  have hle := SortedMap.length_flatMap_ofList_le (Layout.pair key other).write l
  rw [List.length_append, List.length_append]
  exact Nat.add_le_add (Nat.le_of_eq rfl) hle

theorem set [KeyOrder α] [DecidableEq α] (h : layout.Ensures P) :
    (set layout).Ensures fun s => s.All fun k _ => P k := by
  refine h.list.refine fun l s hl hs => ?_
  cases hs
  refine ⟨.ofList fun e he => ?_, ?_⟩
  · obtain ⟨k, hk, rfl⟩ := List.mem_map.1 he
    exact hl k hk
  · have hle := SortedMap.length_flatMap_ofList_le (fun e => layout.write e.1) (l.map (·, ()))
    change (Layout.word.write _ ++ _).length ≤ (Layout.word.write _ ++ _).length
    rw [List.length_append, List.length_append]
    refine Nat.add_le_add (Nat.le_of_eq rfl) ?_
    unfold SortedSet.toList SortedMap.keys
    rw [List.flatMap_map] at hle ⊢
    exact hle

end Ensures

end Layout

end ResearchLedger
