import ResearchLedger.SortedMap.Basic
/-!
What the operations on sorted maps do to look-up. Two maps with the same look-ups are equal.
-/

namespace ResearchLedger

namespace SortedMap

variable {κ α β : Type} [KeyOrder κ] {m m' : SortedMap κ α} {k k' : κ} {v : α}

open KeyOrder

theorem find?_insertEntry_self {l : List (κ × α)} :
    (insertEntry k v l).find? (fun e => same e.1 k) = some (k, v) := by
  have hk : same k k = true := same_iff.2 rfl
  induction l with
  | nil => simp [insertEntry, hk]
  | cons a l ih =>
    rw [insertEntry]
    split
    · simp [hk]
    · split
      · rename_i ha
        have : same a.1 k = false := by
          cases hs : same a.1 k with
          | false => rfl
          | true => rw [same_iff.1 hs, KeyOrder.irrefl] at ha; exact absurd ha (by simp)
        simp [this, ih]
      · simp [hk]

theorem find?_insertEntry_of_ne {l : List (κ × α)} (h : k ≠ k') :
    (insertEntry k v l).find? (fun e => same e.1 k') = l.find? (fun e => same e.1 k') := by
  have hk : same k k' = false := by
    cases hs : same k k' with
    | false => rfl
    | true => exact absurd (same_iff.1 hs) h
  induction l with
  | nil => simp [insertEntry, hk]
  | cons a l ih =>
    rw [insertEntry]
    split
    · rw [List.find?_cons]
      simp [hk]
    · split
      · simp only [List.find?_cons, ih]
      · rename_i h₁ h₂
        have hka : k = a.1 := connex (by simpa using h₁) (by simpa using h₂)
        simp [← hka, hk]

@[simp] theorem get?_empty : (∅ : SortedMap κ α).get? k = none := rfl

@[simp] theorem get?_insert_self : (m.insert k v).get? k = some v := by
  simp [get?, insert, find?_insertEntry_self]

theorem get?_insert_of_ne (h : k ≠ k') : (m.insert k v).get? k' = m.get? k' := by
  simp [get?, insert, find?_insertEntry_of_ne h]

theorem get?_insert [DecidableEq κ] :
    (m.insert k v).get? k' = if k = k' then some v else m.get? k' := by
  split
  · rename_i h; subst h; simp
  · rename_i h; exact get?_insert_of_ne h

theorem mem_entries_iff {e : κ × α} : e ∈ m.entries ↔ m.get? e.1 = some e.2 := by
  obtain ⟨l, hl⟩ := m
  simp only [get?, Option.map_eq_some_iff]
  induction l with
  | nil => simp
  | cons a l ih =>
    obtain ⟨ha, hl'⟩ := List.pairwise_cons.1 hl
    rw [List.mem_cons, List.find?_cons]
    cases hs : same a.1 e.1 with
    | true =>
      have hae := same_iff.1 hs
      constructor
      · rintro (rfl | he)
        · exact ⟨e, rfl, rfl⟩
        · have := ha e he
          rw [hae, KeyOrder.irrefl] at this
          exact absurd this (by simp)
      · rintro ⟨x, hx, hxe⟩
        left
        simp only [Option.some.injEq] at hx
        subst hx
        exact (Prod.ext hae hxe).symm
    | false =>
      constructor
      · rintro (rfl | he)
        · simp [(same_iff (a := e.1)).2 rfl] at hs
        · exact (ih hl').1 he
      · intro h
        exact Or.inr ((ih hl').2 h)

theorem get?_filter {p : κ → α → Bool} : (m.filter p).get? k = (m.get? k).filter (p k) := by
  cases h : m.get? k with
  | none =>
    rw [Option.filter_none]
    cases h' : (m.filter p).get? k with
    | none => rfl
    | some v =>
      have := (mem_entries_iff (m := m.filter p) (e := (k, v))).2 h'
      have := mem_entries_iff.1 (List.mem_filter.1 this).1
      rw [h] at this
      exact absurd this (by simp)
  | some v =>
    have hm := (mem_entries_iff (m := m) (e := (k, v))).2 h
    rw [Option.filter_some]
    split
    · rename_i hp
      exact (mem_entries_iff (m := m.filter p) (e := (k, v))).1 (List.mem_filter.2 ⟨hm, hp⟩)
    · rename_i hp
      cases h' : (m.filter p).get? k with
      | none => rfl
      | some w =>
        have hw := (mem_entries_iff (m := m.filter p) (e := (k, w))).2 h'
        obtain ⟨hw, hpw⟩ := List.mem_filter.1 hw
        have := mem_entries_iff.1 hw
        rw [h] at this
        simp only [Option.some.injEq] at this
        subst this
        exact absurd hpw hp

@[simp] theorem get?_erase_self : (m.erase k).get? k = none := by
  rw [erase, get?_filter]
  cases m.get? k with
  | none => rfl
  | some v => simp [(same_iff (a := k)).2 rfl, Option.filter]

theorem get?_erase_of_ne (h : k ≠ k') : (m.erase k).get? k' = m.get? k' := by
  have hs : same k' k = false := by
    cases hs : same k' k with
    | false => rfl
    | true => exact absurd (same_iff.1 hs).symm h
  rw [erase, get?_filter]
  cases m.get? k' with
  | none => rfl
  | some v => simp [hs, Option.filter]

theorem get?_mapValues {f : κ → α → β} : (m.mapValues f).get? k = (m.get? k).map (f k) := by
  obtain ⟨l, hl⟩ := m
  simp only [get?, mapValues]
  induction l with
  | nil => rfl
  | cons a l ih =>
    obtain ⟨-, hl'⟩ := List.pairwise_cons.1 hl
    simp only [List.map_cons, List.find?_cons]
    cases hs : same a.1 k with
    | true => simp [same_iff.1 hs]
    | false => exact ih hl'

theorem get?_modify_self {f : α → α} : (m.modify k f).get? k = (m.get? k).map f := by
  unfold modify
  split
  · rename_i h; simp [h]
  · rename_i h; simp [h]

theorem get?_modify_of_ne {f : α → α} (h : k ≠ k') : (m.modify k f).get? k' = m.get? k' := by
  unfold modify
  split
  · exact get?_insert_of_ne h
  · rfl

/-- Maps that answer every look-up alike are equal. -/
theorem ext_get? (h : ∀ k, m.get? k = m'.get? k) : m = m' := by
  have key : ∀ {l l' : List (κ × α)},
      l.Pairwise (fun a b => before a.1 b.1 = true) →
      l'.Pairwise (fun a b => before a.1 b.1 = true) →
      (∀ e, e ∈ l ↔ e ∈ l') → l = l' := by
    intro l
    induction l with
    | nil =>
      intro l' _ _ hmem
      cases l' with
      | nil => rfl
      | cons b l' => exact absurd ((hmem b).2 (by simp)) (by simp)
    | cons a l ih =>
      intro l' hl hl' hmem
      cases l' with
      | nil => exact absurd ((hmem a).1 (by simp)) (by simp)
      | cons b l' =>
        obtain ⟨ha, ht⟩ := List.pairwise_cons.1 hl
        obtain ⟨hb, ht'⟩ := List.pairwise_cons.1 hl'
        have hab : a = b := by
          rcases List.mem_cons.1 ((hmem a).1 (by simp)) with h₁ | h₁
          · exact h₁
          · rcases List.mem_cons.1 ((hmem b).2 (by simp)) with h₂ | h₂
            · exact h₂.symm
            · have := KeyOrder.asymm (ha b h₂)
              rw [hb a h₁] at this
              exact absurd this (by simp)
        subst hab
        congr 1
        refine ih ht ht' fun e => ⟨fun he => ?_, fun he => ?_⟩
        · rcases List.mem_cons.1 ((hmem e).1 (by simp [he])) with rfl | h₁
          · have := ha e he; simp [KeyOrder.irrefl] at this
          · exact h₁
        · rcases List.mem_cons.1 ((hmem e).2 (by simp [he])) with rfl | h₁
          · have := hb e he; simp [KeyOrder.irrefl] at this
          · exact h₁
  obtain ⟨l, hl⟩ := m
  obtain ⟨l', hl'⟩ := m'
  have : l = l' := key hl hl' fun e => by
    rw [mem_entries_iff (m := ⟨l, hl⟩), mem_entries_iff (m := ⟨l', hl'⟩), h]
  subst this
  rfl

end SortedMap

end ResearchLedger
