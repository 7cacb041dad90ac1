import ResearchLedger.Proofs.Founding

/-! The active weights by which rewards are divided are exact: of totals, disciplines and the head. -/
namespace ResearchLedger

variable {s s' : State} {l l' : Ledger} {config : Config}
  {genesis : Genesis} {f : VoteTotals → Nat} {k : ContentId × DisciplineId} {t t' : VoteTotals}

open SortedMap

/-- All totals by content and discipline. -/
abbrev Totals := SortedMap (ContentId × DisciplineId) VoteTotals

namespace Totals

variable {m : Totals} {d : DisciplineId}

/-- What the totals of a discipline come to in one of their fields. -/
def totalIn (f : VoteTotals → Nat) (d : DisciplineId) (m : Totals) : Nat :=
  m.sumOf fun k t => if k.2 = d then f t else 0

theorem totalIn_insert {t₀ : VoteTotals} (h₀ : f t₀ = 0) {x : Nat} (hx : f t = f (m.getD k t₀) + x) :
    totalIn f d (m.insert k t) = totalIn f d m + if k.2 = d then x else 0 := by
  have h := sumOf_insert_getD (m := m) (k := k) (v := t) (d := t₀)
    (f := fun k t => if k.2 = d then f t else 0) fun _ => by simp [h₀]
  unfold totalIn
  split <;> simp_all
  omega

theorem le_totalIn (h : m.get? k = some t) : f t ≤ totalIn f k.2 m := by
  have := le_sumOf (f := fun k' t => if k'.2 = k.2 then f t else 0) (fun _ _ _ => Nat.zero_le _) h
  simpa [totalIn] using this

theorem totalIn_insert_zero (h : m.get? k = some t) (h' : f t' = 0) :
    totalIn f d (m.insert k t') = totalIn f d m - if k.2 = d then f t else 0 := by
  have := sumOf_insert_old (v := t') (f := fun k t => if k.2 = d then f t else 0) h
  unfold totalIn
  split <;> simp_all
  omega

end Totals

/-- The active fields of totals are the full ones while the content is active, and none after. -/
def VoteTotals.ActiveAs (t : VoteTotals) (active : Bool) : Prop :=
  t.activeWeight = (if active then t.weight else 0) ∧
  t.activeResearchWeight = (if active then t.researchWeight else 0) ∧
  t.activeCuratorsWeight = (if active then t.curatorsWeight else 0)

/-- The totals are active as far as their contents are. -/
def State.TotalsActive (s : State) : Prop :=
  s.voteTotals.All fun k t => ∀ c, s.contents.get? k.1 = some c → t.ActiveAs c.isActive

/-- The weights of the disciplines and of the head are the sums of those of the totals. -/
structure Ledger.Weighed (l : Ledger) : Prop where
  disciplines : l.state.disciplines.All fun id d =>
    d.activeWeight = Totals.totalIn VoteTotals.activeWeight id l.state.voteTotals
  researches : l.state.disciplines.All fun id d =>
    Totals.totalIn VoteTotals.activeResearchWeight id l.state.voteTotals ≤ d.activeResearchWeight
  head : l.head.activeWeight = l.state.disciplines.sumOf fun _ d => d.activeWeight
  head_le : l.head.activeWeight ≤ maxWord

namespace ContentVotePlan.Casts

variable {p : ContentVotePlan} {c : Content} {d : Discipline} {reward : Nat}

theorem weighed (h : p.Casts l c d reward) (hd : d.id = p.key.2) (hl : l.Weighed) :
    (p.commit l).Weighed := by
  have hid : p.discipline.id = p.key.2 := by rw [h.raised]; exact hd
  have haw : p.totals.activeWeight = (l.state.totalsBefore c p.key).activeWeight +
      if c.isActive then p.vote.tokens else 0 := by
    rw [h.totals, VoteTotals.raise_activeWeight]
  have har : p.totals.activeResearchWeight = (l.state.totalsBefore c p.key).activeResearchWeight +
      if c.isActive then reward else 0 := by
    rw [h.totals, VoteTotals.raise_activeResearchWeight]
  constructor
  · intro id e he
    rw [disciplines_commit, hid, get?_insert] at he
    rw [voteTotals_commit, Totals.totalIn_insert (by rfl) haw]
    split at he
    · cases he
      subst id
      rw [if_pos rfl, ← hl.disciplines _ _ h.discipline, h.raised, Discipline.raise_activeWeight]
    · rw [if_neg ‹_›]
      exact hl.disciplines _ _ he
  · intro id e he
    rw [disciplines_commit, hid, get?_insert] at he
    rw [voteTotals_commit, Totals.totalIn_insert (by rfl) har]
    split at he
    · cases he
      subst id
      have := hl.researches _ _ h.discipline
      rw [if_pos rfl, h.raised]
      unfold Discipline.raise
      dsimp only at this ⊢
      split <;> omega
    · rw [if_neg ‹_›]
      exact hl.researches _ _ he
  · have hsum := sumOf_insert_old (v := p.discipline) (f := fun _ (d : Discipline) => d.activeWeight)
      h.discipline
    have hhead := hl.head
    rw [disciplines_commit, hid]
    change p.activeWeight = _
    rw [h.activeWeight]
    rw [h.raised, Discipline.raise_activeWeight] at hsum
    rw [h.raised]
    split <;> simp_all
    omega
  · exact h.active_le hl.head_le

theorem totalsActive (h : p.Casts l c d reward) (hl : l.state.TotalsActive) :
    (p.commit l).state.TotalsActive := by
  have hold : (l.state.totalsBefore c p.key).ActiveAs c.isActive := by
    unfold State.totalsBefore
    cases ht : l.state.voteTotals.get? p.key with
    | none => cases c.isActive <;> exact ⟨rfl, rfl, rfl⟩
    | some t => exact hl _ _ ht _ h.content
  refine All.insert hl fun c' hc' => ?_
  obtain rfl := Option.some.inj (h.content.symm.trans hc')
  rw [h.totals]
  obtain ⟨h₁, h₂, h₃⟩ := hold
  unfold VoteTotals.ActiveAs VoteTotals.raise
  cases hact : c.isActive <;> simp_all

end ContentVotePlan.Casts

/-- The weights by which rewards are divided, with the totals that they are taken from. -/
structure Ledger.Balanced (l : Ledger) : Prop where
  weighed : l.Weighed
  active : l.state.TotalsActive

/-- Only totals, contents, disciplines and the weight of the head matter. -/
theorem Ledger.Balanced.congr (hl : l.Balanced) (ht : l'.state.voteTotals = l.state.voteTotals)
    (hc : l'.state.contents = l.state.contents) (hd : l'.state.disciplines = l.state.disciplines)
    (hw : l'.head.activeWeight = l.head.activeWeight) : l'.Balanced where
  weighed := by
    constructor
    · rw [hd, ht]; exact hl.weighed.disciplines
    · rw [hd, ht]; exact hl.weighed.researches
    · rw [hd, hw]; exact hl.weighed.head
    · rw [hw]; exact hl.weighed.head_le
  active := by
    unfold State.TotalsActive
    rw [ht, hc]
    exact hl.active

theorem ContentVotePlan.CastsAll.balanced {ps : List ContentVotePlan} (h : CastsAll ps l)
    (hs : l.state.Linked) (hl : l.Balanced) : (ps.foldl (fun l v => v.commit l) l).Balanced := by
  induction h with
  | nil => exact hl
  | cons h _ ih =>
    exact ih (h.linked hs)
      ⟨h.weighed (hs.disciplines _ _ h.discipline) hl.weighed, h.totalsActive hl.active⟩

/-- The weights of reviews are no part of the balance. -/
theorem Ledger.Balanced.withReviewWeight {d d' : Discipline} {id : DisciplineId} {reward : Nat}
    (hl : l.Balanced) (hs : l.state.Linked) (hd : l.state.disciplines.get? id = some d)
    (hd' : d' = { d with activeReviewWeight := d.activeReviewWeight + reward })
    (hw : l'.head.activeWeight = l.head.activeWeight)
    (hds : l'.state.disciplines = l.state.disciplines.insert d'.id d')
    (ht : l'.state.voteTotals = l.state.voteTotals) (hc : l'.state.contents = l.state.contents) :
    l'.Balanced := by
  have hold : d.id = id := hs.disciplines _ _ hd
  have hid : d'.id = id := by rw [hd']; exact hold
  have hget : ∀ k e, l'.state.disciplines.get? k = some e → ∃ e', l.state.disciplines.get? k = some e' ∧
      e.activeWeight = e'.activeWeight ∧ e.activeResearchWeight = e'.activeResearchWeight := by
    intro k e he
    rw [hds, hid, get?_insert] at he
    split at he
    · cases he
      subst k
      exact ⟨d, hd, by rw [hd'], by rw [hd']⟩
    · exact ⟨e, he, rfl, rfl⟩
  refine ⟨⟨?_, ?_, ?_, ?_⟩, ?_⟩
  · intro k e he
    obtain ⟨e', he', h₁, -⟩ := hget k e he
    rw [ht, h₁]
    exact hl.weighed.disciplines k e' he'
  · intro k e he
    obtain ⟨e', he', -, h₂⟩ := hget k e he
    rw [ht, h₂]
    exact hl.weighed.researches k e' he'
  · have := sumOf_insert_old (v := d') (f := fun _ (d : Discipline) => d.activeWeight) hd
    rw [hw, hds, hid, hl.weighed.head]
    rw [hd'] at this ⊢
    exact (Nat.add_right_cancel this).symm
  · exact hw.trans_le hl.weighed.head_le
  · unfold State.TotalsActive
    rw [ht, hc]
    exact hl.active

theorem Operation.Effect.balanced {op : Operation} (h : op.Effect l l') (hs : l.state.Linked)
    (hl : l.Balanced) : l'.Balanced := by
  cases op with
  | voteForContent op =>
    cases h with | voteForContent hp =>
    obtain ⟨c, d, reward, hc, -⟩ := VoteForContent.plan_ok hp
    exact ContentVotePlan.CastsAll.balanced (.cons hc .nil) hs hl
  | makeReview op =>
    cases h with | makeReview hp =>
    have hv := (MakeReview.plan_ok hs.disciplines hp).2.2.2
    exact hv.balanced (MakeReview.record_linked hs hp) (hl.congr rfl rfl rfl rfl)
  | voteForReview op =>
    cases h with | voteForReview hp =>
    obtain ⟨r, d, reward, hc⟩ := VoteForReview.plan_casts hp
    exact hl.withReviewWeight hs hc.discipline hc.raised rfl rfl rfl rfl
  | createContent op =>
    cases h
    refine ⟨{ hl.weighed with }, ?_⟩
    intro k t ht c hc
    refine hl.active k t ht c ?_
    have hne : l.state.nextIds.content ≠ k.1 := by
      intro he
      obtain ⟨c', hc'⟩ := contains_iff.1 (hs.voteTotals k t ht).1
      rw [← he, hs.content_none] at hc'
      cases hc'
    exact (get?_insert_of_ne hne).symm.trans hc
  | _ => cases h.footprint; exact hl.congr rfl rfl rfl rfl

namespace Ledger

/-- There is as much to take away as totals ask for: in the head and in the discipline. -/
def Covers (l : Ledger) (d : DisciplineId) (t : VoteTotals) : Prop :=
  t.activeWeight ≤ l.head.activeWeight ∧ ∃ e, l.state.disciplines.get? d = some e ∧
    t.activeWeight ≤ e.activeWeight ∧ t.activeResearchWeight ≤ e.activeResearchWeight

theorem covers {content : ContentId} {d : DisciplineId} (hs : l.state.Linked) (hl : l.Weighed)
    (ht : l.state.voteTotals.get? (content, d) = some t) : l.Covers d t := by
  obtain ⟨e, he⟩ : ∃ e, l.state.disciplines.get? d = some e :=
    contains_iff.1 (hs.voteTotals _ _ ht).2
  have haw : t.activeWeight ≤ e.activeWeight := by
    rw [hl.disciplines _ _ he]
    exact Totals.le_totalIn ht
  have hle : e.activeWeight ≤ l.head.activeWeight := by
    rw [hl.head]
    exact le_sumOf (f := fun _ (d : Discipline) => d.activeWeight) (fun _ _ _ => Nat.zero_le _) he
  refine ⟨Nat.le_trans haw hle, e, he, haw, Nat.le_trans ?_ (hl.researches _ _ he)⟩
  exact Totals.le_totalIn ht

theorem disciplines_withdrawTotals {content : ContentId} {d : DisciplineId} :
    (l.withdrawTotals content d t).state.disciplines = l.state.disciplines.modify d (·.withdraw t) :=
  rfl

theorem withdrawTotals_weighed {content : ContentId} {d : DisciplineId} (hs : l.state.Linked)
    (ht : l.state.voteTotals.get? (content, d) = some t) (hl : l.Weighed) :
    (l.withdrawTotals content d t).Weighed := by
  obtain ⟨-, e, he, haw, -⟩ := covers hs hl ht
  have hw {f : VoteTotals → Nat} (hf : f t.deactivate = 0) (id : DisciplineId) :
      Totals.totalIn f id (l.withdrawTotals content d t).state.voteTotals =
        Totals.totalIn f id l.state.voteTotals - if d = id then f t else 0 :=
    Totals.totalIn_insert_zero ht hf
  constructor
  · intro id e' he'
    rw [hw rfl]
    rw [disciplines_withdrawTotals, get?_modify] at he'
    split at he'
    · subst id
      rw [he] at he'
      cases he'
      rw [if_pos rfl, ← hl.disciplines _ _ he]
      rfl
    · rw [if_neg ‹_›]
      exact hl.disciplines _ _ he'
  · intro id e' he'
    rw [hw rfl]
    rw [disciplines_withdrawTotals, get?_modify] at he'
    split at he'
    · subst id
      rw [he] at he'
      cases he'
      rw [if_pos rfl]
      exact Nat.sub_le_sub_right (hl.researches _ _ he) _
    · rw [if_neg ‹_›]
      exact hl.researches _ _ he'
  · have hsum := sumOf_modify (u := (·.withdraw t)) (f := fun _ (d : Discipline) => d.activeWeight) he
    have hle := le_sumOf (f := fun _ (d : Discipline) => d.activeWeight) (fun _ _ _ => Nat.zero_le _) he
    have hhead := hl.head
    rw [disciplines_withdrawTotals]
    change l.head.activeWeight - t.activeWeight = _
    change e.activeWeight ≤ _ at hle
    change _ + e.activeWeight = _ + (e.activeWeight - t.activeWeight) at hsum
    omega
  · exact Nat.le_trans (Nat.sub_le ..) hl.head_le

theorem deactivate_balanced {content : ContentId} (hs : l.state.Linked) (hl : l.Balanced) :
    (l.deactivate content).Balanced := by
  have hw : (l.deactivate content).state.Linked ∧ (l.deactivate content).Weighed :=
    deactivate_preserves (P := fun l => l.state.Linked ∧ l.Weighed)
      (fun l d t ht h => ⟨withdrawTotals_linked ht h.1, withdrawTotals_weighed h.1 ht h.2⟩)
      ⟨retire_linked hs, { hl.weighed with }⟩
  refine ⟨hw.2, fun k t ht c hc => ?_⟩
  rw [get?_voteTotals_deactivate] at ht
  rw [contents_deactivate, get?_modify] at hc
  by_cases hk : k.1 = content
  · rw [if_pos hk] at ht
    rw [if_pos hk.symm] at hc
    obtain ⟨t, -, rfl⟩ := Option.map_eq_some_iff.1 ht
    obtain ⟨c, -, rfl⟩ := Option.map_eq_some_iff.1 hc
    exact ⟨rfl, rfl, rfl⟩
  · rw [if_neg hk] at ht
    rw [if_neg (Ne.symm hk)] at hc
    exact hl.active k t ht c hc

end Ledger

theorem Upkeep.balanced (h : Upkeep l l') (hs : l.state.Linked) (hl : l.Balanced) :
    l'.Balanced := by
  cases h.footprint with
  | deactivation => exact Ledger.deactivate_balanced hs hl
  | rest => exact hl.congr rfl rfl rfl rfl

theorem Change.balanced (h : Change l l') (hs : l.state.Linked) (hl : l.Balanced) :
    l'.Balanced := by
  cases h with
  | operation h => exact h.balanced hs hl
  | reward =>
    obtain ⟨_, _, _, he⟩ := State.applyReward_footprint l.state l.head.time ‹_›
    rw [he]; exact hl.congr rfl rfl rfl rfl
  | payment h => obtain ⟨_, _, _, rfl⟩ := LedgerM.payPowerDown_footprint h; exact hl.congr rfl rfl rfl rfl
  | upkeep h => exact h.balanced hs hl

namespace Ledger

/-- Each of a row of withdrawals finds as much as it takes. -/
def CoversAll (content : ContentId) (l : Ledger) : List (DisciplineId × VoteTotals) → Prop
  | [] => True
  | e :: es => l.Covers e.1 e.2 ∧ CoversAll content (l.withdrawTotals content e.1 e.2) es

theorem coversAll {content : ContentId} {totals : List (DisciplineId × VoteTotals)}
    (hs : l.state.Linked) (hl : l.Weighed) (hn : (totals.map (·.1)).Nodup)
    (ht : ∀ e ∈ totals, l.state.voteTotals.get? (content, e.1) = some e.2) :
    l.CoversAll content totals := by
  induction totals generalizing l with
  | nil => trivial
  | cons e totals ih =>
    have he := ht e List.mem_cons_self
    refine ⟨covers hs hl he, ?_⟩
    exact ih (withdrawTotals_linked he hs) (withdrawTotals_weighed hs he hl)
      (List.nodup_cons.1 hn).2 (stored_withdrawTotals hn ht)

theorem Balanced.ofGenesis (h : ofGenesis config genesis = .ok l) : l.Balanced := by
  obtain ⟨h, hw⟩ := ofGenesis_ok h
  obtain ⟨ht, hd⟩ : l.state.voteTotals = ∅ ∧ l.state.disciplines.All fun _ d => d.activeWeight = 0 := by
    refine State.ofGenesis_invariant (P := fun s => s.voteTotals = ∅ ∧
      s.disciplines.All fun _ d => d.activeWeight = 0) h (fun _ => ?_) fun s s' hc hs => ?_
    · exact ⟨rfl, All.insert .empty rfl⟩
    cases hc with
    | discipline => exact ⟨hs.1, hs.2.insert rfl⟩
    | account => exact hs
    | witness => exact hs
  constructor
  · constructor
    · intro id d hid
      rw [ht]
      exact hd id d hid
    · intro id d _
      rw [ht]
      exact Nat.zero_le _
    · rw [hw]
      exact (sumOf_eq_zero hd).symm
    · exact hw.trans_le (Nat.zero_le _)
  · intro k t hk
    rw [ht] at hk
    simp at hk

end Ledger

/-- Rows of changes keep links and balance. -/
theorem Changes.balanced (h : Changes l l') (hs : l.state.Linked) (hl : l.Balanced) :
    l'.state.Linked ∧ l'.Balanced := by
  induction h with
  | refl => exact ⟨hs, hl⟩
  | tail _ hc ih => exact ⟨hc.linked ih.1, hc.balanced ih.1 ih.2⟩

theorem Ledger.Reachable.balanced (h : l.Reachable config genesis) : l.Balanced := by
  refine (h.invariant (P := fun l => l.state.Linked ∧ l.Balanced) (fun _ h₀ => ?_) fun _ _ hc hl => ?_).2
  · exact ⟨.ofGenesis (ofGenesis_ok h₀).1, .ofGenesis h₀⟩
  · exact ⟨hc.linked hl.1, hc.balanced hl.1 hl.2⟩

/-- In every reachable ledger the active weight of a discipline is the sum of those of its totals,
the active fields of totals are their full ones while the content is active and zero after, the
head has the sum over all disciplines, and no withdrawal of a content that expires in any later
block takes more than there is. -/
theorem Ledger.Reachable.active_weights_exact (h : l.Reachable config genesis) :
    (∀ id d, l.state.disciplines.get? id = some d →
      d.activeWeight = l.state.voteTotals.sumOf fun k t => if k.2 = id then t.activeWeight else 0) ∧
    (∀ k t, l.state.voteTotals.get? k = some t → ∃ c, l.state.contents.get? k.1 = some c ∧
      t.activeWeight = (if c.isActive then t.weight else 0) ∧
      t.activeResearchWeight = (if c.isActive then t.researchWeight else 0) ∧
      t.activeCuratorsWeight = (if c.isActive then t.curatorsWeight else 0)) ∧
    l.head.activeWeight = (l.state.disciplines.sumOf fun _ d => d.activeWeight) ∧
    ∀ l', Changes l l' → ∀ content,
      (l'.retire content).CoversAll content (l'.state.totalsOf content) := by
  refine ⟨h.balanced.weighed.disciplines, fun k t ht => ?_, h.balanced.weighed.head, ?_⟩
  · obtain ⟨c, hc⟩ := contains_iff.1 (h.linked.voteTotals k t ht).1
    exact ⟨c, hc, h.balanced.active k t ht c hc⟩
  · intro l' hl' content
    obtain ⟨hs, hl⟩ := Changes.balanced hl' h.linked h.balanced
    exact coversAll (retire_linked hs)
      { hl.weighed with }
      (State.nodup_totalsOf ..) fun _ he => State.mem_totalsOf.1 he

/-- One vote of one token: its weight stands in the head, and in the discipline. -/
theorem Sample.published_weights : Sample.published.head.activeWeight = 1 ∧
    Sample.published.head.activeWeight =
      (Sample.published.state.disciplines.sumOf fun _ d => d.activeWeight) ∧
    ∀ id d, Sample.published.state.disciplines.get? id = some d → d.activeWeight =
      Sample.published.state.voteTotals.sumOf fun k t => if k.2 = id then t.activeWeight else 0 :=
  have h := Ledger.Reachable.active_weights_exact Sample.published_reachable
  ⟨by decide +kernel, h.2.2.1, h.1⟩

end ResearchLedger
