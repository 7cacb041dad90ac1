/-!
Finite maps kept in key order. A map is its list of entries, strictly increasing in the key, so two
maps with the same entries are equal and every traversal runs in key order.
-/

namespace ResearchLedger

/-- A strict total order on keys that can be evaluated. -/
class KeyOrder (κ : Type) where
  /-- Whether the first key stands before the second. -/
  before : κ → κ → Bool
  irrefl : ∀ a, before a a = false
  trans : ∀ {a b c}, before a b = true → before b c = true → before a c = true
  connex : ∀ {a b}, before a b = false → before b a = false → a = b

namespace KeyOrder

variable {κ : Type} [KeyOrder κ] {a b : κ}

theorem asymm (h : before a b = true) : before b a = false := by
  cases hba : before b a with
  | false => rfl
  | true => exact absurd (trans h hba) (by simp [irrefl])

/-- Keys that stand in neither order are the same key. -/
def same (a b : κ) : Bool := !before a b && !before b a

@[simp] theorem same_iff : same a b = true ↔ a = b := by
  constructor
  · intro h
    simp only [same, Bool.and_eq_true, Bool.not_eq_true'] at h
    exact connex h.1 h.2
  · rintro rfl
    simp [same, irrefl]

/-- The order of keys read through an injective function. -/
abbrev comap {β : Type} (f : β → κ) (hf : ∀ {a b}, f a = f b → a = b) : KeyOrder β where
  before a b := before (f a) (f b)
  irrefl _ := irrefl _
  trans := trans
  connex h₁ h₂ := hf (connex h₁ h₂)

end KeyOrder

instance : KeyOrder Nat where
  before a b := decide (a < b)
  irrefl _ := by simp
  trans h₁ h₂ := by simp only [decide_eq_true_eq] at *; omega
  connex h₁ h₂ := by simp only [decide_eq_false_iff_not] at *; omega

instance : KeyOrder UInt8 := KeyOrder.comap UInt8.toNat UInt8.toNat_inj.1

instance : KeyOrder Char := KeyOrder.comap Char.toNat (fun h => Char.ext (UInt32.toNat_inj.1 h))

namespace KeyOrder

variable {κ ι : Type} [KeyOrder κ] [KeyOrder ι]

/-- Dictionary order: the first difference decides, and a proper beginning stands first. -/
def listBefore : List κ → List κ → Bool
  | _, [] => false
  | [], _ :: _ => true
  | a :: l, b :: m => before a b || (same a b && listBefore l m)

theorem listBefore_irrefl (l : List κ) : listBefore l l = false := by
  induction l with
  | nil => rfl
  | cons a l ih => simp [listBefore, irrefl, ih]

theorem listBefore_trans : ∀ {l m n : List κ},
    listBefore l m = true → listBefore m n = true → listBefore l n = true
  | _, [], _, h, _ => by simp [listBefore] at h
  | _, _ :: _, [], _, h => by simp [listBefore] at h
  | [], _ :: _, _ :: _, _, _ => rfl
  | a :: l, b :: m, c :: n, h₁, h₂ => by
    simp only [listBefore, Bool.or_eq_true, Bool.and_eq_true, same_iff] at *
    obtain h₁ | ⟨rfl, h₁⟩ := h₁
    · obtain h₂ | ⟨rfl, _⟩ := h₂
      · exact Or.inl (trans h₁ h₂)
      · exact Or.inl h₁
    · obtain h₂ | ⟨rfl, h₂⟩ := h₂
      · exact Or.inl h₂
      · exact Or.inr ⟨rfl, listBefore_trans h₁ h₂⟩

theorem listBefore_connex : ∀ {l m : List κ},
    listBefore l m = false → listBefore m l = false → l = m
  | [], [], _, _ => rfl
  | [], _ :: _, h, _ => by simp [listBefore] at h
  | _ :: _, [], _, h => by simp [listBefore] at h
  | a :: l, b :: m, h₁, h₂ => by
    simp only [listBefore, Bool.or_eq_false_iff] at h₁ h₂
    have hab : a = b := connex h₁.1 h₂.1
    subst hab
    have h : ∀ {x y : List κ}, (same a a && listBefore x y) = false → listBefore x y = false := by
      intro x y h
      simpa [(same_iff (a := a) (b := a)).2 rfl] using h
    rw [listBefore_connex (h h₁.2) (h h₂.2)]

end KeyOrder

instance {κ : Type} [KeyOrder κ] : KeyOrder (List κ) where
  before := KeyOrder.listBefore
  irrefl := KeyOrder.listBefore_irrefl
  trans := KeyOrder.listBefore_trans
  connex := KeyOrder.listBefore_connex

instance : KeyOrder String := KeyOrder.comap String.toList String.toList_inj.1

/-- Pairs are ordered by their first component, then by their second. -/
instance {κ ι : Type} [KeyOrder κ] [KeyOrder ι] : KeyOrder (κ × ι) where
  before a b := KeyOrder.before a.1 b.1 || (KeyOrder.same a.1 b.1 && KeyOrder.before a.2 b.2)
  irrefl _ := by simp [KeyOrder.irrefl]
  trans := by
    rintro ⟨a, a'⟩ ⟨b, b'⟩ ⟨c, c'⟩ h₁ h₂
    simp only [Bool.or_eq_true, Bool.and_eq_true, KeyOrder.same_iff] at *
    obtain h₁ | ⟨rfl, h₁⟩ := h₁
    · obtain h₂ | ⟨rfl, _⟩ := h₂
      · exact Or.inl (KeyOrder.trans h₁ h₂)
      · exact Or.inl h₁
    · obtain h₂ | ⟨rfl, h₂⟩ := h₂
      · exact Or.inl h₂
      · exact Or.inr ⟨rfl, KeyOrder.trans h₁ h₂⟩
  connex := by
    rintro ⟨a, a'⟩ ⟨b, b'⟩ h₁ h₂
    simp only [Bool.or_eq_false_iff, Bool.and_eq_false_iff] at h₁ h₂
    have hab : a = b := KeyOrder.connex h₁.1 h₂.1
    subst hab
    have hs : KeyOrder.same a a = true := KeyOrder.same_iff.2 rfl
    simp only [hs, Bool.true_eq_false, false_or] at h₁ h₂
    rw [KeyOrder.connex h₁.2 h₂.2]

/-- A finite map from `κ` to `α`, as its entries in key order. -/
structure SortedMap (κ α : Type) [KeyOrder κ] where
  /-- The entries, in key order. -/
  entries : List (κ × α)
  sorted : entries.Pairwise (fun a b => KeyOrder.before a.1 b.1 = true)
deriving DecidableEq

/-- A finite set of keys. -/
abbrev SortedSet (κ : Type) [KeyOrder κ] := SortedMap κ Unit

namespace SortedMap

variable {κ α β : Type} [KeyOrder κ]

/-- The map without entries. -/
def empty : SortedMap κ α := ⟨[], .nil⟩

instance : EmptyCollection (SortedMap κ α) := ⟨empty⟩
instance : Inhabited (SortedMap κ α) := ⟨∅⟩

/-- The keys, in order. -/
def keys (m : SortedMap κ α) : List κ := m.entries.map (·.1)

/-- The values, in key order. -/
def values (m : SortedMap κ α) : List α := m.entries.map (·.2)

/-- The number of entries. -/
def size (m : SortedMap κ α) : Nat := m.entries.length

/-- Whether the map has no entries. -/
def isEmpty (m : SortedMap κ α) : Bool := m.entries.isEmpty

/-- The value stored under a key. -/
def get? (m : SortedMap κ α) (k : κ) : Option α :=
  (m.entries.find? (fun e => KeyOrder.same e.1 k)).map (·.2)

/-- The value stored under a key, or `d` if there is none. -/
def getD (m : SortedMap κ α) (k : κ) (d : α) : α := (m.get? k).getD d

/-- Whether a value is stored under a key. -/
def contains (m : SortedMap κ α) (k : κ) : Bool := (m.get? k).isSome

/-- Puts an entry into its place in a sorted list, replacing one with the same key. -/
def insertEntry (k : κ) (v : α) : List (κ × α) → List (κ × α)
  | [] => [(k, v)]
  | e :: l =>
    if KeyOrder.before k e.1 then (k, v) :: e :: l
    else if KeyOrder.before e.1 k then e :: insertEntry k v l
    else (k, v) :: l

theorem mem_insertEntry {k : κ} {v : α} {l : List (κ × α)} {e : κ × α}
    (h : e ∈ insertEntry k v l) : e = (k, v) ∨ e ∈ l := by
  induction l with
  | nil => simpa [insertEntry] using h
  | cons a l ih =>
    rw [insertEntry] at h
    split at h
    · simpa using h
    · split at h
      · rcases List.mem_cons.1 h with rfl | h
        · simp
        · rcases ih h with rfl | h <;> simp [*]
      · rcases List.mem_cons.1 h with rfl | h <;> simp [*]

theorem sorted_insertEntry {k : κ} {v : α} {l : List (κ × α)}
    (h : l.Pairwise (fun a b => KeyOrder.before a.1 b.1 = true)) :
    (insertEntry k v l).Pairwise (fun a b => KeyOrder.before a.1 b.1 = true) := by
  induction l with
  | nil => simp [insertEntry]
  | cons a l ih =>
    obtain ⟨ha, hl⟩ := List.pairwise_cons.1 h
    rw [insertEntry]
    split
    · rename_i hk
      refine List.pairwise_cons.2 ⟨?_, h⟩
      intro b hb
      rcases List.mem_cons.1 hb with rfl | hb
      · exact hk
      · exact KeyOrder.trans hk (ha b hb)
    · rename_i hk
      split
      · rename_i hk'
        refine List.pairwise_cons.2 ⟨?_, ih hl⟩
        intro b hb
        rcases mem_insertEntry hb with rfl | hb
        · exact hk'
        · exact ha b hb
      · rename_i hk'
        have hka : k = a.1 := KeyOrder.connex (by simpa using hk) (by simpa using hk')
        refine List.pairwise_cons.2 ⟨?_, hl⟩
        intro b hb
        simpa [hka] using ha b hb

/-- Stores a value under a key, in place of any value stored there before. -/
def insert (m : SortedMap κ α) (k : κ) (v : α) : SortedMap κ α :=
  ⟨insertEntry k v m.entries, sorted_insertEntry m.sorted⟩

/-- Keeps the entries that satisfy `p`. -/
def filter (p : κ → α → Bool) (m : SortedMap κ α) : SortedMap κ α :=
  ⟨m.entries.filter (fun e => p e.1 e.2), m.sorted.filter _⟩

/-- Removes the entry of a key. -/
def erase (m : SortedMap κ α) (k : κ) : SortedMap κ α :=
  m.filter (fun k' _ => !KeyOrder.same k' k)

/-- Changes the value of every key. -/
def mapValues (f : κ → α → β) (m : SortedMap κ α) : SortedMap κ β :=
  ⟨m.entries.map (fun e => (e.1, f e.1 e.2)), List.pairwise_map.2 m.sorted⟩

/-- Changes the value of one key, if it has one. -/
def modify (m : SortedMap κ α) (k : κ) (f : α → α) : SortedMap κ α :=
  match m.get? k with
  | some v => m.insert k (f v)
  | none => m

/-- The map of a list of entries; the last entry of a key counts. -/
def ofList (l : List (κ × α)) : SortedMap κ α :=
  l.foldl (fun m e => m.insert e.1 e.2) ∅

end SortedMap

namespace SortedSet

variable {κ : Type} [KeyOrder κ]

/-- The members of a list, in order and without repetition. -/
def ofKeys (l : List κ) : SortedSet κ := SortedMap.ofList (l.map (·, ()))

/-- The set with one more member. -/
def add (s : SortedSet κ) (k : κ) : SortedSet κ := s.insert k ()

/-- The members in order. -/
def toList (s : SortedSet κ) : List κ := s.keys

end SortedSet

end ResearchLedger
