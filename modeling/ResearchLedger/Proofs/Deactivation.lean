import ResearchLedger.Proofs.Linked

/-! A content that becomes inactive gives up its active weights, discipline by discipline. -/
namespace ResearchLedger

variable {s : State} {l : Ledger} {content : ContentId}

/-- The ledger with a content marked inactive, before its weights are taken away. -/
def Ledger.retire (l : Ledger) (content : ContentId) : Ledger :=
  { l with state := { l.state with
      contents := l.state.contents.modify content (fun c => { c with activity := .inactive }) } }

theorem Ledger.deactivate_eq (l : Ledger) (content : ContentId) : l.deactivate content =
    (l.state.totalsOf content).foldl (fun l e => l.withdrawTotals content e.1 e.2)
      (l.retire content) := rfl

theorem State.mem_totalsOf {d : DisciplineId} {t : VoteTotals} :
    (d, t) ∈ s.totalsOf content ↔ s.voteTotals.get? (content, d) = some t := by
  unfold totalsOf
  simp only [List.mem_map, List.mem_filter, SortedMap.mem_entries_iff, beq_iff_eq, Prod.exists,
    Prod.mk.injEq]
  constructor
  · rintro ⟨c, d', t', ⟨h, rfl⟩, rfl, rfl⟩
    exact h
  · intro h
    exact ⟨content, d, t, ⟨h, rfl⟩, rfl, rfl⟩

theorem State.nodup_totalsOf (s : State) (content : ContentId) :
    ((s.totalsOf content).map (·.1)).Nodup := by
  have h := SortedMap.nodup_keys s.voteTotals
  unfold totalsOf
  rw [List.map_map, List.Nodup, List.pairwise_map, List.pairwise_filter]
  refine (List.pairwise_map.1 h).imp fun hne ha hb he => hne ?_
  exact Prod.ext ((beq_iff_eq.1 ha).trans (beq_iff_eq.1 hb).symm) he

namespace Ledger

theorem get?_withdrawTotals {d : DisciplineId} {t : VoteTotals} {k : ContentId × DisciplineId} :
    (l.withdrawTotals content d t).state.voteTotals.get? k =
      if (content, d) = k then some t.deactivate else l.state.voteTotals.get? k :=
  SortedMap.get?_insert

/-- A withdrawal leaves the totals of the other disciplines as they are stored. -/
theorem stored_withdrawTotals {e : DisciplineId × VoteTotals} {totals : List (DisciplineId × VoteTotals)}
    (hn : ((e :: totals).map (·.1)).Nodup)
    (ht : ∀ x ∈ e :: totals, l.state.voteTotals.get? (content, x.1) = some x.2) :
    ∀ x ∈ totals, (l.withdrawTotals content e.1 e.2).state.voteTotals.get? (content, x.1) =
      some x.2 := by
  intro x hx
  have hne : (content, e.1) ≠ (content, x.1) := fun he =>
    (List.nodup_cons.1 hn).1 (List.mem_map.2 ⟨x, hx, (Prod.mk.inj he).2.symm⟩)
  rw [get?_withdrawTotals, if_neg hne, ht x (List.mem_cons_of_mem _ hx)]

/-- What every withdrawal of stored totals preserves is preserved by all of them. -/
theorem foldl_withdrawTotals {P : Ledger → Prop} {totals : List (DisciplineId × VoteTotals)}
    (step : ∀ l d t, l.state.voteTotals.get? (content, d) = some t → P l →
      P (l.withdrawTotals content d t))
    (hn : (totals.map (·.1)).Nodup)
    (ht : ∀ e ∈ totals, l.state.voteTotals.get? (content, e.1) = some e.2) (h : P l) :
    P (totals.foldl (fun l e => l.withdrawTotals content e.1 e.2) l) := by
  induction totals generalizing l with
  | nil => exact h
  | cons e totals ih =>
    exact ih (List.nodup_cons.1 hn).2 (stored_withdrawTotals hn ht)
      (step l e.1 e.2 (ht e List.mem_cons_self) h)

theorem deactivate_preserves {P : Ledger → Prop}
    (step : ∀ l d t, l.state.voteTotals.get? (content, d) = some t → P l →
      P (l.withdrawTotals content d t))
    (h : P (l.retire content)) : P (l.deactivate content) :=
  foldl_withdrawTotals step (State.nodup_totalsOf ..) (fun _ he => State.mem_totalsOf.1 he) h

theorem get?_foldl_withdrawTotals {totals : List (DisciplineId × VoteTotals)}
    {k : ContentId × DisciplineId} (hn : (totals.map (·.1)).Nodup)
    (ht : ∀ e ∈ totals, l.state.voteTotals.get? (content, e.1) = some e.2) :
    (totals.foldl (fun l e => l.withdrawTotals content e.1 e.2) l).state.voteTotals.get? k =
      if k.1 = content ∧ k.2 ∈ totals.map (·.1) then
        (l.state.voteTotals.get? k).map (·.deactivate) else l.state.voteTotals.get? k := by
  induction totals generalizing l with
  | nil => simp
  | cons e totals ih =>
    have hrest := stored_withdrawTotals hn ht
    obtain ⟨hmem, hn⟩ := List.nodup_cons.1 hn
    rw [List.foldl_cons, ih hn hrest, get?_withdrawTotals]
    by_cases hk : (content, e.1) = k
    · subst hk
      simp [hmem, ht e List.mem_cons_self]
    · have hiff : (k.1 = content ∧ k.2 ∈ (e :: totals).map (·.1)) ↔
          (k.1 = content ∧ k.2 ∈ totals.map (·.1)) := by
        simp only [List.map_cons, List.mem_cons]
        constructor
        · rintro ⟨hc, he | hm⟩
          · exact absurd (Prod.ext hc.symm he.symm) hk
          · exact ⟨hc, hm⟩
        · rintro ⟨hc, hm⟩
          exact ⟨hc, Or.inr hm⟩
      simp only [hiff, if_neg hk]

/-- The totals of the content lose their active parts, and no others change. -/
theorem get?_voteTotals_deactivate (l : Ledger) (content : ContentId) (k : ContentId × DisciplineId) :
    (l.deactivate content).state.voteTotals.get? k =
      if k.1 = content then (l.state.voteTotals.get? k).map (·.deactivate)
      else l.state.voteTotals.get? k := by
  have ht : ∀ e ∈ l.state.totalsOf content,
      (l.retire content).state.voteTotals.get? (content, e.1) = some e.2 :=
    fun _ he => State.mem_totalsOf.1 he
  rw [deactivate_eq, get?_foldl_withdrawTotals (State.nodup_totalsOf ..) ht]
  change (if _ then (l.state.voteTotals.get? k).map VoteTotals.deactivate
    else l.state.voteTotals.get? k) = _
  by_cases hc : k.1 = content
  · cases ht : l.state.voteTotals.get? k with
    | none => simp
    | some t =>
      have : (k.2, t) ∈ l.state.totalsOf content := State.mem_totalsOf.2 (by rw [← hc]; exact ht)
      rw [if_pos ⟨hc, List.mem_map_of_mem this⟩, if_pos hc]
  · rw [if_neg hc, if_neg (fun h => hc h.1)]

theorem contents_deactivate (l : Ledger) (content : ContentId) :
    (l.deactivate content).state.contents =
      l.state.contents.modify content (fun c => { c with activity := .inactive }) :=
  deactivate_preserves (P := fun l' => l'.state.contents = (l.retire content).state.contents)
    (fun _ _ _ _ h => h) rfl

theorem withdrawTotals_linked {d : DisciplineId} {t : VoteTotals}
    (ht : l.state.voteTotals.get? (content, d) = some t) (h : l.state.Linked) :
    (l.withdrawTotals content d t).state.Linked := by
  have hw : l.state.voteTotals.Within (l.withdrawTotals content d t).state.voteTotals := .insert
  have hd : l.state.disciplines.Within (l.withdrawTotals content d t).state.disciplines := .modify
  have hold := h.voteTotals _ _ ht
  exact { h with
    disciplines := h.disciplines.modify fun _ h => h
    voteTotals := SortedMap.All.insert (h.voteTotals.mono fun _ _ h => ⟨h.1, hd _ h.2⟩)
      ⟨hold.1, hd _ hold.2⟩
    votes := h.votes.mono fun _ _ h => ⟨hw _ h.1, h.2⟩ }

theorem retire_linked (h : l.state.Linked) : (l.retire content).state.Linked := by
  have hw : l.state.contents.Within (l.retire content).state.contents := .modify
  exact { h with
    contents := SortedMap.All.modify
      (h.contents.mono fun _ _ h => ⟨h.1, h.2.1, h.2.2.1, fun x hx => hw _ (h.2.2.2 x hx)⟩)
      fun _ h => h
    voteTotals := h.voteTotals.mono fun _ _ h => ⟨hw _ h.1, h.2⟩ }

theorem deactivate_linked (h : l.state.Linked) : (l.deactivate content).state.Linked :=
  deactivate_preserves (P := fun l => l.state.Linked) (fun _ _ _ ht => withdrawTotals_linked ht)
    (retire_linked h)

end Ledger

end ResearchLedger
