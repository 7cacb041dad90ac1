import Mathlib.Algebra.BigOperators.Group.Finset.Basic
import Mathlib.Algebra.Order.BigOperators.Group.List
import Mathlib.Algebra.Order.Group.Int
import Mathlib.Algebra.Order.Group.Nat
import Mathlib.Tactic.Abel
import ResearchLedger.SortedMap.Lemmas

/-! Sums over the entries of a map, and what a write to the map does to them. -/
namespace ResearchLedger.SortedMap

variable {κ α β M : Type} [KeyOrder κ] {m m' : SortedMap κ α} {k k' : κ} {v w : α}

theorem nodup_keys (m : SortedMap κ α) : m.keys.Nodup := by
  have h : m.keys.Pairwise (fun a b => KeyOrder.before a b = true) := List.pairwise_map.2 m.sorted
  refine h.imp fun hab => ?_
  rintro rfl
  simp [KeyOrder.irrefl] at hab

theorem contains_iff : m.contains k = true ↔ ∃ v, m.get? k = some v := by
  simp [contains, Option.isSome_iff_exists]

theorem mem_keys_iff : k ∈ m.keys ↔ m.contains k = true := by
  rw [contains_iff, keys, List.mem_map]
  constructor
  · rintro ⟨e, he, rfl⟩
    exact ⟨e.2, mem_entries_iff.1 he⟩
  · rintro ⟨v, hv⟩
    exact ⟨(k, v), mem_entries_iff.2 hv, rfl⟩

theorem contains_of_get? (h : m.get? k = some v) : m.contains k = true :=
  contains_iff.2 ⟨v, h⟩

theorem contains_eq_false_iff : m.contains k = false ↔ m.get? k = none := by
  simp [contains]

theorem contains_insert [DecidableEq κ] :
    (m.insert k v).contains k' = true ↔ k = k' ∨ m.contains k' = true := by
  simp only [contains, get?_insert]
  by_cases h : k = k' <;> simp [h]

theorem get?_modify [DecidableEq κ] {f : α → α} :
    (m.modify k f).get? k' = if k = k' then (m.get? k').map f else m.get? k' := by
  split
  · rename_i h; subst h; exact get?_modify_self
  · rename_i h; exact get?_modify_of_ne h

theorem contains_modify [DecidableEq κ] {f : α → α} :
    (m.modify k f).contains k' = m.contains k' := by
  simp only [contains, get?_modify]
  split <;> simp

theorem contains_foldl_modify {β : Type} [DecidableEq κ] {key : β → κ} {f : β → α → α} {xs : List β} :
    (xs.foldl (fun m x => m.modify (key x) (f x)) m).contains k = m.contains k := by
  induction xs generalizing m with
  | nil => rfl
  | cons x xs ih => exact ih.trans contains_modify

/-- Changes named by the entries of a map reach each key once. -/
theorem get?_foldl_modify [DecidableEq κ] {e : SortedMap κ β} {f : β → α → α} :
    (e.entries.foldl (fun m x => m.modify x.1 (f x.2)) m).get? k =
      (m.get? k).map fun v => match e.get? k with
        | some y => f y v
        | none => v := by
  have miss : ∀ {xs : List (κ × β)} {m : SortedMap κ α}, (∀ x ∈ xs, x.1 ≠ k) →
      (xs.foldl (fun m x => m.modify x.1 (f x.2)) m).get? k = m.get? k := by
    intro xs
    induction xs with
    | nil => exact fun _ => rfl
    | cons x xs ih =>
      intro m h
      exact (ih fun y hy => h y (List.mem_cons_of_mem _ hy)).trans
        (get?_modify_of_ne (h x List.mem_cons_self))
  have hit : ∀ {xs : List (κ × β)} {m : SortedMap κ α} {y : β}, (xs.map (·.1)).Nodup →
      (k, y) ∈ xs → (xs.foldl (fun m x => m.modify x.1 (f x.2)) m).get? k = (m.get? k).map (f y) := by
    intro xs
    induction xs with
    | nil => exact fun _ h => absurd h List.not_mem_nil
    | cons x xs ih =>
      intro m y hn h
      obtain ⟨hx, hxs⟩ := List.nodup_cons.1 hn
      rcases List.mem_cons.1 h with rfl | h
      · exact (miss fun z hz he => hx (List.mem_map.2 ⟨z, hz, he⟩)).trans get?_modify_self
      · have hne : x.1 ≠ k := fun he => hx (List.mem_map.2 ⟨(k, y), h, he.symm⟩)
        exact (ih hxs h).trans (congrArg _ (get?_modify_of_ne hne))
  cases he : e.get? k with
  | none =>
    rw [miss fun x hx hk => by rw [← hk, mem_entries_iff.1 hx] at he; cases he]
    exact Option.map_id'.symm
  | some y => exact hit (nodup_keys e) (mem_entries_iff.2 he)

theorem get?_erase [DecidableEq κ] :
    (m.erase k).get? k' = if k = k' then none else m.get? k' := by
  split
  · rename_i h; subst h; exact get?_erase_self
  · rename_i h; exact get?_erase_of_ne h

theorem get?_foldl_erase [DecidableEq κ] {ks : List κ} :
    (ks.foldl erase m).get? k = if k ∈ ks then none else m.get? k := by
  induction ks generalizing m with
  | nil => simp
  | cons k' ks ih =>
    rw [List.foldl_cons, ih, get?_erase]
    by_cases hk : k ∈ ks
    · simp [hk]
    · by_cases h : k' = k
      · simp [h]
      · simp [hk, h, Ne.symm h]

theorem getD_eq {d : α} : m.getD k d = (m.get? k).getD d := rfl

theorem getD_insert_self {d : α} : (m.insert k v).getD k d = v := by
  rw [getD_eq, get?_insert_self, Option.getD_some]

theorem getD_insert_of_ne {d : α} (h : k ≠ k') : (m.insert k v).getD k' d = m.getD k' d := by
  rw [getD_eq, get?_insert_of_ne h, getD_eq]

theorem eq_empty_of_isEmpty (h : m.isEmpty = true) : m = ∅ := by
  cases m
  cases List.isEmpty_iff.1 h
  rfl

theorem erase_of_none (h : m.get? k = none) : m.erase k = m := by
  apply ext_get?
  intro k'
  cases hs : KeyOrder.same k k' with
  | true => rw [← KeyOrder.same_iff.1 hs, get?_erase_self, h]
  | false => exact get?_erase_of_ne (fun he => by simp [KeyOrder.same_iff.2 he] at hs)

theorem insert_get? (h : m.get? k = some v) : m.insert k v = m := by
  apply ext_get?
  intro k'
  cases hs : KeyOrder.same k k' with
  | true => rw [← KeyOrder.same_iff.1 hs, get?_insert_self, h]
  | false => exact get?_insert_of_ne (fun he => by simp [KeyOrder.same_iff.2 he] at hs)

theorem modify_of_some {f : α → α} (h : m.get? k = some v) : m.modify k f = m.insert k (f v) := by
  simp [modify, h]

theorem perm_insertEntry {l : List (κ × α)}
    (h : l.Pairwise (fun a b => KeyOrder.before a.1 b.1 = true)) :
    (insertEntry k v l).Perm ((k, v) :: l.filter (fun e => !KeyOrder.same e.1 k)) := by
  have keep : ∀ {l' : List (κ × α)}, (∀ e ∈ l', KeyOrder.before k e.1 = true) →
      l'.filter (fun e => !KeyOrder.same e.1 k) = l' := by
    intro l' hl
    refine List.filter_eq_self.2 fun e he => ?_
    have hb := hl e he
    simp [KeyOrder.same, hb]
  induction l with
  | nil => simp [insertEntry]
  | cons a l ih =>
    obtain ⟨ha, hl⟩ := List.pairwise_cons.1 h
    rw [insertEntry]
    split
    · rename_i hk
      rw [keep fun e he => ?_]
      rcases List.mem_cons.1 he with rfl | he
      · exact hk
      · exact KeyOrder.trans hk (ha e he)
    · split
      · rename_i hk
        have hs : KeyOrder.same a.1 k = false := by simp [KeyOrder.same, hk]
        rw [List.filter_cons_of_pos (by simp [hs])]
        exact ((ih hl).cons a).trans (List.Perm.swap ..)
      · rename_i hk hk'
        have hka : k = a.1 := KeyOrder.connex (by simpa using hk) (by simpa using hk')
        rw [List.filter_cons_of_neg (by simp [KeyOrder.same_iff.2 hka.symm]),
          keep fun e he => hka ▸ ha e he]

theorem perm_insert : (m.insert k v).entries.Perm ((k, v) :: (m.erase k).entries) :=
  perm_insertEntry m.sorted

theorem perm_erase (h : m.get? k = some v) : m.entries.Perm ((k, v) :: (m.erase k).entries) := by
  have := perm_insert (m := m) (k := k) (v := v)
  rwa [insert_get? h] at this

section Sum

variable [AddCommMonoid M] {f g : κ → α → M}

/-- The sum of a quantity over all entries. -/
def sumOf (f : κ → α → M) (m : SortedMap κ α) : M := (m.entries.map (fun e => f e.1 e.2)).sum

@[simp] theorem sumOf_empty : sumOf f (∅ : SortedMap κ α) = 0 := rfl

theorem sumOf_insert : sumOf f (m.insert k v) = f k v + sumOf f (m.erase k) := by
  simpa [sumOf] using (perm_insert.map (fun e => f e.1 e.2)).sum_eq

theorem sumOf_eq_erase (h : m.get? k = some v) : sumOf f m = f k v + sumOf f (m.erase k) := by
  simpa [sumOf] using ((perm_erase h).map (fun e => f e.1 e.2)).sum_eq

theorem sumOf_insert_new (h : m.get? k = none) : sumOf f (m.insert k v) = f k v + sumOf f m := by
  rw [sumOf_insert, erase_of_none h]

/-- Writing over an entry exchanges its part of the sum. -/
theorem sumOf_insert_old (h : m.get? k = some w) :
    sumOf f (m.insert k v) + f k w = sumOf f m + f k v := by
  rw [sumOf_insert, sumOf_eq_erase h]
  abel

theorem sumOf_insert_getD {d : α} (h : m.get? k = none → f k d = 0) :
    sumOf f (m.insert k v) + f k (m.getD k d) = sumOf f m + f k v := by
  rw [getD_eq]
  cases hk : m.get? k with
  | none => rw [Option.getD_none, h hk, sumOf_insert_new hk, add_zero, add_comm]
  | some w => exact sumOf_insert_old hk

theorem sumOf_modify {u : α → α} (h : m.get? k = some w) :
    sumOf f (m.modify k u) + f k w = sumOf f m + f k (u w) := by
  rw [modify_of_some h, sumOf_insert_old h]

theorem sumOf_mapValues {u : κ → α → β} {f : κ → β → M} :
    sumOf f (m.mapValues u) = sumOf (fun k v => f k (u k v)) m := by
  simp [sumOf, mapValues, Function.comp_def]

theorem sumOf_congr (h : ∀ k v, m.get? k = some v → f k v = g k v) : sumOf f m = sumOf g m := by
  rw [sumOf, sumOf, List.map_congr_left]
  exact fun e he => h e.1 e.2 (mem_entries_iff.1 he)

/-- The sum depends on the look-ups alone. -/
theorem sumOf_eq_of_get? {m : SortedMap κ α} {m' : SortedMap κ β} {f : κ → α → M} {g : κ → β → M}
    (h : ∀ k, (m.get? k).map (f k) = (m'.get? k).map (g k)) : sumOf f m = sumOf g m' := by
  have hm : m.mapValues f = m'.mapValues g := ext_get? fun k => by simpa [get?_mapValues] using h k
  have := congrArg (sumOf (fun _ x => x)) hm
  simpa [sumOf_mapValues] using this

theorem sumOf_add : sumOf (fun k v => f k v + g k v) m = sumOf f m + sumOf g m := by
  simp [sumOf, List.sum_map_add]

theorem sumOf_sum {ι : Type} (t : Finset ι) {f : ι → κ → α → M} :
    sumOf (fun k v => ∑ i ∈ t, f i k v) m = ∑ i ∈ t, sumOf (f i) m := by
  unfold sumOf
  induction m.entries with
  | nil => simp
  | cons e es ih => rw [List.map_cons, List.sum_cons, ih, ← Finset.sum_add_distrib]; rfl

theorem sumOf_comm {ι : Type} [KeyOrder ι] {m' : SortedMap ι β} {f : κ → α → ι → β → M} :
    sumOf (fun k v => sumOf (f k v) m') m = sumOf (fun i w => sumOf (fun k v => f k v i w) m) m' := by
  have := Multiset.sum_map_sum_map (m.entries : Multiset (κ × α)) (m'.entries : Multiset (ι × β))
    (f := fun e e' => f e.1 e.2 e'.1 e'.2)
  simp only [Multiset.map_coe, Multiset.sum_coe] at this
  exact this

theorem sumOf_zero : sumOf (fun _ _ => (0 : M)) m = 0 := by
  simp [sumOf]

theorem sumOf_eq_zero (h : ∀ k v, m.get? k = some v → f k v = 0) : sumOf f m = 0 :=
  (sumOf_congr h).trans sumOf_zero

theorem sumOf_eq_single (hk : m.get? k = some v) (h : ∀ k' v', m.get? k' = some v' → k' ≠ k →
    f k' v' = 0) : sumOf f m = f k v := by
  rw [sumOf_eq_erase hk, sumOf_eq_zero, add_zero]
  intro k' v' h'
  have hne : k' ≠ k := by rintro rfl; simp at h'
  exact h k' v' (by rwa [get?_erase_of_ne hne.symm] at h') hne

theorem sumOf_pick [DecidableEq κ] (o : Option κ) {g : κ → M} (hg : ∀ k, m.get? k = none → g k = 0) :
    sumOf (fun k _ => if o = some k then g k else 0) m = o.elim 0 g := by
  cases o with
  | none => exact sumOf_eq_zero fun k _ _ => if_neg (Option.some_ne_none k).symm
  | some k =>
    rw [Option.elim_some]
    cases hk : m.get? k with
    | none =>
      rw [hg k hk]
      refine sumOf_eq_zero fun k' v' hk' => if_neg fun he => ?_
      rw [← Option.some.inj he, hk] at hk'
      cases hk'
    | some v =>
      rw [sumOf_eq_single hk fun k' _ _ hne => if_neg fun he => hne (Option.some.inj he).symm]
      exact if_pos rfl

end Sum

section OrderedSum

variable [AddCommMonoid M] [PartialOrder M] [IsOrderedAddMonoid M] {f g : κ → α → M}

theorem sumOf_le_sumOf (h : ∀ k v, m.get? k = some v → f k v ≤ g k v) : sumOf f m ≤ sumOf g m :=
  List.sum_le_sum fun e he => h e.1 e.2 (mem_entries_iff.1 he)

theorem sumOf_nonneg (h : ∀ k v, m.get? k = some v → 0 ≤ f k v) : 0 ≤ sumOf f m := by
  rw [← sumOf_zero (m := m)]
  exact sumOf_le_sumOf h

theorem le_sumOf (h : ∀ k v, m.get? k = some v → 0 ≤ f k v) (hk : m.get? k = some v) :
    f k v ≤ sumOf f m := by
  rw [sumOf_eq_erase hk]
  refine le_add_of_nonneg_right (sumOf_nonneg fun k' v' h' => ?_)
  have hne : k ≠ k' := by rintro rfl; simp at h'
  exact h k' v' (by rwa [get?_erase_of_ne hne] at h')

/-- Two entries together are part of the sum. -/
theorem add_le_sumOf (h : ∀ k v, m.get? k = some v → 0 ≤ f k v) (hk : m.get? k = some v)
    (hk' : m.get? k' = some w) (hne : k ≠ k') : f k v + f k' w ≤ sumOf f m := by
  rw [sumOf_eq_erase hk]
  refine add_le_add le_rfl (le_sumOf (fun j u hj => h j u ?_) (by rwa [get?_erase_of_ne hne]))
  have hnej : k ≠ j := by rintro rfl; simp at hj
  rwa [get?_erase_of_ne hnej] at hj

end OrderedSum

end ResearchLedger.SortedMap
