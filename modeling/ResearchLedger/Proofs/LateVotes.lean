import ResearchLedger.Proofs.History
import ResearchLedger.Proofs.Spending
import ResearchLedger.Proofs.VoteSums

/-! Votes on contents that are no longer active stay in the weight by which the part of a discipline
is divided, and nothing else does but what the active contents have. -/
namespace ResearchLedger

variable {s s' : State} {l l' : Ledger} {config : Config} {genesis : Genesis}
  {id : DisciplineId} {extra extra' : DisciplineId → Nat}

open SortedMap

/-- Whether a content exists and is active. -/
def State.isActive (s : State) (content : ContentId) : Bool :=
  (s.contents.get? content).any (·.isActive)

/-- The weight in rewards of a vote in a discipline, if its content is not active. -/
def Vote.lateWeight (s : State) (id : DisciplineId) (v : Vote) : Nat :=
  if v.discipline = id ∧ s.isActive v.content = false then v.rewardWeight else 0

namespace Operation

/-- The votes on contents that an operation casts. -/
def castVotes (l : Ledger) : Operation → List Vote
  | voteForContent op => match op.plan l.head l.state with
    | .ok p => [p.vote]
    | .error _ => []
  | makeReview op => match op.plan l.head l.state with
    | .ok plan => plan.votes.map (·.vote)
    | .error _ => []
  | _ => []

/-- What an operation adds to a discipline by votes on contents that are not active. -/
def lateWeight (id : DisciplineId) (l : Ledger) (op : Operation) : Nat :=
  ((op.castVotes l).map (Vote.lateWeight l.state id)).sum

end Operation

namespace Step

/-- What a request adds to a discipline by votes on contents that are not active. -/
def lateWeight (id : DisciplineId) (step : Step) (l : Ledger) : Nat :=
  ((step.carriedOut l).map fun x => x.2.lateWeight id x.1).sum

theorem lateWeight_of_stages {step : Step} (h : step.stages l = (step.payments l).map (·.1)) :
    step.lateWeight id l = 0 := by
  rw [lateWeight, carriedOut_eq_nil h]
  rfl

end Step

/-- The weight of every discipline is what its active totals have and a surplus. -/
def Ledger.Surplus (l : Ledger) (extra : DisciplineId → Nat) : Prop :=
  l.state.disciplines.All fun id d => d.activeResearchWeight =
    Totals.totalIn VoteTotals.activeResearchWeight id l.state.voteTotals + extra id

namespace Ledger.Surplus

theorem of_eq (h : l.Surplus extra) (he : ∀ id, extra id = extra' id) : l.Surplus extra' :=
  funext he ▸ h

/-- Only totals and the weights of disciplines matter. -/
theorem congr (h : l.Surplus extra) (ht : l'.state.voteTotals = l.state.voteTotals)
    (hd : l'.state.disciplines = l.state.disciplines) : l'.Surplus extra := by
  unfold Surplus
  rw [ht, hd]
  exact h

/-- The weights of reviews are no part of it. -/
theorem withReviewWeight {d d' : Discipline} {reward : Nat} (h : l.Surplus extra)
    (hd : l.state.disciplines.get? id = some d)
    (hd' : d' = { d with activeReviewWeight := d.activeReviewWeight + reward }) (hid : d.id = id)
    (hds : l'.state.disciplines = l.state.disciplines.insert d'.id d')
    (ht : l'.state.voteTotals = l.state.voteTotals) : l'.Surplus extra := by
  subst hd'
  unfold Surplus
  rw [hds, ht]
  refine All.insert h ?_
  exact hid ▸ h id d hd

end Ledger.Surplus

namespace ContentVotePlan

variable {p : ContentVotePlan} {c : Content} {d : Discipline} {reward : Nat}

theorem Casts.lateWeight (h : p.Casts l c d reward) : p.vote.lateWeight l.state id =
    if p.key.2 = id then (if c.isActive then 0 else reward) else 0 := by
  have hact : l.state.isActive p.vote.content = c.isActive := by
    rw [State.isActive, show l.state.contents.get? p.vote.content = some c from h.content]
    rfl
  unfold Vote.lateWeight
  rw [hact, p.vote.rewardWeight_eq h.curve]
  cases c.isActive <;> simp [key]

/-- A vote adds all of its weight to the discipline, and to the active totals if they still count. -/
theorem Casts.surplus (h : p.Casts l c d reward) (hd : d.id = p.key.2) (hl : l.Surplus extra) :
    (p.commit l).Surplus fun id => extra id + p.vote.lateWeight l.state id := by
  have hid : p.discipline.id = p.key.2 := by rw [h.raised]; exact hd
  have har : p.totals.activeResearchWeight = (l.state.totalsBefore c p.key).activeResearchWeight +
      if c.isActive then reward else 0 := by
    rw [h.totals, VoteTotals.raise_activeResearchWeight]
  intro id e he
  rw [disciplines_commit, hid, get?_insert] at he
  rw [voteTotals_commit, Totals.totalIn_insert (by rfl) har]
  dsimp only
  rw [h.lateWeight]
  split at he
  · cases he
    subst id
    have hold := hl _ _ h.discipline
    rw [if_pos rfl, if_pos rfl, h.raised]
    change d.activeResearchWeight + reward = _
    split <;> omega
  · rw [if_neg ‹_›, if_neg ‹_›, Nat.add_zero, Nat.add_zero]
    exact hl id e he

theorem CastsAll.surplus {ps : List ContentVotePlan} (h : CastsAll ps l) (hs : l.state.Linked)
    (hl : l.Surplus extra) : (ps.foldl (fun l v => v.commit l) l).Surplus fun id =>
      extra id + ((ps.map (·.vote)).map (Vote.lateWeight l.state id)).sum := by
  induction h generalizing extra with
  | nil => exact hl
  | cons h _ ih =>
    have hfirst := h.surplus (hs.disciplines _ _ h.discipline) hl
    exact (ih (h.linked hs) hfirst).of_eq fun id => Nat.add_assoc ..

end ContentVotePlan

theorem Operation.Effect.surplus {op : Operation} (h : op.Effect l l') (hs : l.state.Linked)
    (hl : l.Surplus extra) : l'.Surplus fun id => extra id + op.lateWeight id l := by
  cases op with
  | voteForContent op =>
    cases h with | voteForContent hp =>
    obtain ⟨c, d, reward, hc, -⟩ := VoteForContent.plan_ok hp
    simpa [lateWeight, castVotes, hp] using hc.surplus (hs.disciplines _ _ hc.discipline) hl
  | makeReview op =>
    cases h with | makeReview hp =>
    have hv := (MakeReview.plan_ok hs.disciplines hp).2.2.2
    have hrec := hv.surplus (MakeReview.record_linked hs hp) (hl.congr rfl rfl)
    simp only [lateWeight, castVotes, hp]
    exact hrec
  | voteForReview op =>
    cases h with | voteForReview hp =>
    obtain ⟨r, d, reward, hc⟩ := VoteForReview.plan_casts hp
    exact hl.withReviewWeight hc.discipline hc.raised (hs.disciplines _ _ hc.discipline) rfl rfl
  | _ => cases h.footprint; exact hl.congr rfl rfl

theorem LedgerM.Collects.surplus {ops : List Operation} (h : Collects Operation.apply ops l l')
    (hs : l.state.Linked) (hl : l.Surplus extra) : l'.Surplus fun id =>
      extra id + ((l.turns Operation.apply ops).map fun x => x.2.lateWeight id x.1).sum := by
  induction h generalizing extra with
  | nil => exact hl
  | cons ha _ ih =>
    have heff := Operation.effect_of_run (apply_ok ha)
    refine (ih (heff.linked hs) (heff.surplus hs hl)).of_eq fun id => ?_
    rw [Ledger.turns, ha]
    exact Nat.add_assoc ..

namespace Ledger

theorem withdrawTotals_surplus {content : ContentId} {d : DisciplineId} {t : VoteTotals}
    (ht : l.state.voteTotals.get? (content, d) = some t) (hl : l.Surplus extra) :
    (l.withdrawTotals content d t).Surplus extra := by
  have hsum (id : DisciplineId) : Totals.totalIn VoteTotals.activeResearchWeight id
      (l.withdrawTotals content d t).state.voteTotals =
        Totals.totalIn VoteTotals.activeResearchWeight id l.state.voteTotals -
          if d = id then t.activeResearchWeight else 0 :=
    Totals.totalIn_insert_zero ht rfl
  intro id e he
  rw [hsum]
  rw [disciplines_withdrawTotals, get?_modify] at he
  split at he
  · subst id
    obtain ⟨e, hold, rfl⟩ := Option.map_eq_some_iff.1 he
    have hle := Totals.le_totalIn (f := VoteTotals.activeResearchWeight) ht
    have heq := hl d e hold
    rw [if_pos rfl]
    change e.activeResearchWeight - t.activeResearchWeight = _
    dsimp only at hle
    omega
  · rw [if_neg ‹_›]
    exact hl id e he

theorem deactivate_surplus {content : ContentId} (hl : l.Surplus extra) :
    (l.deactivate content).Surplus extra :=
  deactivate_preserves (P := fun l => l.Surplus extra) (fun _ _ _ ht => withdrawTotals_surplus ht)
    (hl.congr rfl rfl)

end Ledger

theorem Upkeeps.surplus (h : Upkeeps l l') (hl : l.Surplus extra) : l'.Surplus extra := by
  induction h with
  | refl => exact hl
  | tail _ hu ih =>
    cases hu.footprint with
    | deactivation => exact Ledger.deactivate_surplus ih
    | rest => exact ih.congr rfl rfl

theorem LedgerM.Collects.surplus_paid {names : List AccountName}
    (h : Collects payPowerDown names l l') (hl : l.Surplus extra) : l'.Surplus extra := by
  refine (h.invariant (P := fun l => l.Surplus extra) (fun _ _ _ _ hp hl => ?_) hl).1
  obtain ⟨_, _, _, rfl⟩ := payPowerDown_footprint hp
  exact hl.congr rfl rfl

theorem Step.surplus {step : Step} (hstep : step.Storable) (hs : l.state.Linked)
    (hl : l.Surplus extra) : (step.next l).Surplus fun id => extra id + step.lateWeight id l := by
  cases step.proceeds l hstep with
  | upkeep h hstages hp =>
    simp only [lateWeight_of_stages (by rw [hstages, hp, List.map_nil])]
    exact h.surplus hl
  | operations h hstages hp =>
    simp only [lateWeight, carriedOut_of_stages hstages hp]
    exact h.surplus hs hl
  | @reward plan _ _ hn hstages hp =>
    obtain ⟨_, _, _, he⟩ := State.applyReward_footprint l.state l.head.time plan
    simp only [lateWeight_of_stages (by rw [hstages, hp, List.map_nil])]
    rw [hn, he]
    exact hl.congr rfl rfl
  | block before paid after hstages =>
    simp only [lateWeight_of_stages hstages]
    exact after.surplus (paid.surplus_paid (before.surplus hl))

namespace Ledger

theorem Surplus.after {steps : List Step} (hsteps : ∀ step ∈ steps, step.Storable)
    (hs : l.state.Linked) (hl : l.Surplus extra) : (l.after steps).Surplus fun id =>
      extra id + l.sumOver (Step.lateWeight id) steps := by
  induction steps generalizing l extra with
  | nil => exact hl
  | cons step steps ih =>
    have hstep := hsteps step List.mem_cons_self
    have hnext := (step.invariant (P := fun l => l.state.Linked) hstep (fun _ _ => Change.linked) hs).1
    exact (ih (fun x hx => hsteps x (List.mem_cons_of_mem _ hx)) hnext
      (Step.surplus hstep hs hl)).of_eq fun id => Nat.add_assoc ..

theorem Surplus.ofGenesis (h : ofGenesis config genesis = .ok l) : l.Surplus fun _ => 0 := by
  obtain ⟨ht, hd⟩ : l.state.voteTotals = ∅ ∧
      l.state.disciplines.All fun _ d => d.activeResearchWeight = 0 := by
    refine State.ofGenesis_invariant (P := fun s => s.voteTotals = ∅ ∧
      s.disciplines.All fun _ d => d.activeResearchWeight = 0) (ofGenesis_ok h).1 (fun _ => ?_)
      fun s s' hc hs => ?_
    · exact ⟨rfl, All.insert .empty rfl⟩
    cases hc with
    | discipline => exact ⟨hs.1, hs.2.insert rfl⟩
    | account => exact hs
    | witness => exact hs
  intro id d hid
  rw [ht]
  exact hd id d hid

end Ledger

namespace State

/-- The active weight of a discipline, content by content: what the totals of the contents that are
now active have in it. -/
def weightOfActive (s : State) (id : DisciplineId) : Nat :=
  s.contents.sumOf fun content c =>
    if c.isActive then ((s.voteTotals? content id).map (·.activeResearchWeight)).getD 0 else 0

/-- The voted contents of a discipline that are active, with their totals. -/
def activeIn (s : State) (id : DisciplineId) : List (ContentId × VoteTotals) :=
  (s.votedIn id).filter fun x => s.isActive x.1

/-- Totals that are active belong to active contents. -/
theorem weightOfActive_eq (hs : s.Linked) (ha : s.TotalsActive) (id : DisciplineId) :
    s.weightOfActive id = Totals.totalIn VoteTotals.activeResearchWeight id s.voteTotals := by
  have hcontent : ∀ content c, s.contents.get? content = some c →
      (if c.isActive then ((s.voteTotals? content id).map (·.activeResearchWeight)).getD 0 else 0) =
        s.voteTotals.sumOf fun k t =>
          if k = (content, id) then t.activeResearchWeight else 0 := by
    intro content c hc
    unfold voteTotals?
    cases ht : s.voteTotals.get? (content, id) with
    | none =>
      rw [sumOf_eq_zero fun k t hk => if_neg fun he => by rw [he, ht] at hk; cases hk]
      simp
    | some t =>
      rw [sumOf_eq_single ht fun k t' _ hne => if_neg hne, if_pos rfl]
      have := (ha _ t ht c hc).2.1
      split <;> simp_all
  rw [weightOfActive, sumOf_congr hcontent]
  refine (sumOf_comm (f := fun content _ k (t : VoteTotals) =>
    if k = (content, id) then t.activeResearchWeight else 0)).trans ?_
  refine sumOf_congr fun k t hk => ?_
  obtain ⟨c, hc⟩ := contains_iff.1 (hs.voteTotals k t hk).1
  rw [sumOf_eq_single hc fun content _ _ hne => if_neg fun he => hne (congrArg Prod.fst he).symm]
  exact if_congr ⟨fun he => congrArg Prod.snd he, fun he => Prod.ext rfl he⟩ rfl rfl

theorem sum_activeIn (hs : s.Linked) (ha : s.TotalsActive) (id : DisciplineId) :
    ((s.activeIn id).map fun x => x.2.researchWeight).sum =
      Totals.totalIn VoteTotals.activeResearchWeight id s.voteTotals := by
  rw [← sum_votedIn, activeIn]
  have hmem : ∀ x ∈ s.votedIn id, x.2.activeResearchWeight =
      if s.isActive x.1 then x.2.researchWeight else 0 := by
    intro x hx
    have ht := mem_votedIn.1 hx
    obtain ⟨c, hc⟩ := contains_iff.1 (hs.voteTotals _ _ ht).1
    rw [(ha _ _ ht c hc).2.1, isActive, hc]
    rfl
  rw [List.map_congr_left hmem]
  induction s.votedIn id with
  | nil => rfl
  | cons x xs ih => cases hx : s.isActive x.1 <;> simp [hx, ih]

end State

/-- In the end of every run a discipline has the weight of its active contents and that of the votes
that came when their contents were no longer active. Whatever is divided by it, each active content
has its share, and what these leave over is, but for remainders, the share of the late votes. -/
theorem Ledger.research_weight_late (h : ofGenesis config genesis = .ok l) {steps : List Step}
    (hsteps : ∀ step ∈ steps, step.Storable) {d : Discipline}
    (hd : (l.after steps).state.disciplines.get? id = some d) :
    d.activeResearchWeight =
      (l.after steps).state.weightOfActive id + l.sumOver (Step.lateWeight id) steps ∧
    ∀ amount : Amount, 0 ≤ amount → amount ≤ Amount.max →
      (∀ x ∈ (l.after steps).state.activeIn id, share amount x.2.researchWeight
        d.activeResearchWeight = .ok (part amount x.2.researchWeight d.activeResearchWeight)) ∧
      d.activeResearchWeight * (amount - (((l.after steps).state.activeIn id).map fun x =>
          part amount x.2.researchWeight d.activeResearchWeight).sum) =
        amount * (l.sumOver (Step.lateWeight id) steps : Nat) +
          (((l.after steps).state.activeIn id).map fun x =>
            amount * x.2.researchWeight % d.activeResearchWeight).sum := by
  have hr : (l.after steps).Reachable config genesis := ⟨l, steps, h, hsteps, rfl⟩
  have hlinked := hr.linked
  have hactive := hr.balanced.active
  have hsurplus := Surplus.after hsteps (.ofGenesis (ofGenesis_ok h).1) (Surplus.ofGenesis h)
  have hweight := hsurplus.of_eq (fun _ => Nat.zero_add _) id d hd
  refine ⟨?_, fun amount h₀ hm => ⟨fun x hx => ?_, ?_⟩⟩
  · rw [State.weightOfActive_eq hlinked hactive]
    exact hweight
  · have hle : x.2.researchWeight ≤ d.activeResearchWeight := by
      rw [hweight, ← State.sum_activeIn hlinked hactive id]
      refine Nat.le_trans (List.single_le_sum (fun _ _ => Nat.zero_le _) _ ?_) (Nat.le_add_right ..)
      exact List.mem_map_of_mem (f := fun x : ContentId × VoteTotals => x.2.researchWeight) hx
    have hbound := hr.apportioned.disciplines id d hd
    exact share_eq h₀ hm hle (hle.trans (hbound.trans (by decide)))
  · refine mul_sub_sum_part amount (fun x : ContentId × VoteTotals => x.2.researchWeight) _ ?_
    rw [State.sum_activeIn hlinked hactive]
    exact hweight

namespace Sample

/-- The content that alice has published expires, and bob votes for it when it has. -/
def votedLate : List Step :=
  publish ++ [.endBlock 1209600, .operation (.voteForContent ⟨bob, 0, 10000, 0, 0⟩)]

/-- The discipline counts the vote of bob, though no content is active. -/
theorem late_vote_counts :
    ((founded 1 300 20).after votedLate).Reachable {} (founders 1 300 20) ∧
    ¬ ∀ id d, ((founded 1 300 20).after votedLate).state.disciplines.get? id = some d →
      d.activeResearchWeight = ((founded 1 300 20).after votedLate).state.weightOfActive id :=
  ⟨⟨founded 1 300 20, votedLate, rfl, by decide, rfl⟩, fun h =>
    absurd (h 0 ⟨0, none, "Common", 0, 5196, 0⟩ (by decide +kernel)) (by decide +kernel)⟩

/-- After that vote alice publishes another content, for which carol votes. -/
def votedTwice : List Step :=
  votedLate ++ [.operation
      (.createContent ⟨alice, 0, .milestone, "Other", "", "other", [alice], [], []⟩),
    .operation (.voteForContent ⟨carol, 0, 10000, 0, 1⟩)]

/-- The active content has 89 of 5285; the vote of bob has the rest, and its share of 1000 is lost. -/
theorem late_vote_share : (founded 1 300 20).sumOver (Step.lateWeight 0) votedTwice = 5196 ∧
    5285 = ((founded 1 300 20).after votedTwice).state.weightOfActive 0 + 5196 ∧
    (5285 : Int) * (1000 - (((((founded 1 300 20).after votedTwice).state.activeIn 0).map fun x =>
        part 1000 x.2.researchWeight 5285).sum)) =
      1000 * 5196 + ((((founded 1 300 20).after votedTwice).state.activeIn 0).map fun x =>
        (1000 : Int) * x.2.researchWeight % 5285).sum := by
  have hlate : (founded 1 300 20).sumOver (Step.lateWeight 0) votedTwice = 5196 := by
    decide +kernel
  have h := @Ledger.research_weight_late (founded 1 300 20) {} (founders 1 300 20) 0 rfl
    votedTwice (by decide) ⟨0, none, "Common", 20, 5285, 0⟩ (by decide +kernel)
  rw [hlate] at h
  exact ⟨hlate, h.1, (h.2 1000 (by decide) (by decide)).2⟩

end Sample

end ResearchLedger
