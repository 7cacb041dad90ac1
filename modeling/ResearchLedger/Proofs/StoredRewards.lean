import ResearchLedger.Proofs.Stored

/-! A reward pass gives expertise to authors alone, in disciplines of the ledger, and reports all of it. -/
namespace ResearchLedger

open SortedMap

/-- What every step of a fold keeps holds at its end. -/
theorem foldlM_invariant {ε α γ : Type} {P : γ → Prop} {step : γ → α → Except ε γ} {xs : List α}
    (hs : ∀ x ∈ xs, ∀ c c', step c x = .ok c' → P c → P c') :
    ∀ {c c' : γ}, xs.foldlM step c = .ok c' → P c → P c' := by
  induction xs with
  | nil =>
    intro c c' h hc
    cases h
    exact hc
  | cons x xs ih =>
    intro c c' h hc
    obtain ⟨c₁, hx, h⟩ := foldlM_eq_ok_cons.1 h
    rw [List.forall_mem_cons] at hs
    exact ih hs.2 h (hs.1 c c₁ hx hc)

/-- The expertise that an event tells to have been given to an account in a discipline. -/
def Event.expertiseTo (n : AccountName) (d : DisciplineId) : Event → Amount
  | expertiseRewarded n' d' amount => if n' = n ∧ d' = d then amount else 0
  | _ => 0

/-- An event that tells of a payment to an account. -/
inductive Event.Pays (n : AccountName) (amount : Amount) : Event → Prop
  | curator {content : ContentId} : Pays n amount (.curatorRewarded n content amount)
  | author {review : ReviewId} : Pays n amount (.reviewRewarded n review amount)
  | voter {review : ReviewId} : Pays n amount (.reviewVoterRewarded n review amount)
  | holder {research : ResearchId} : Pays n amount (.tokenHolderRewarded n research amount)

namespace RewardPlan

/-- What is kept while a plan is made: by payments of money with their reports, by the report of what
a content has its part of, and by expertise that goes to accounts that satisfy `A`, in disciplines that
satisfy `Q`. -/
structure Kept (A : AccountName → Prop) (Q : DisciplineId → Prop) (P : RewardPlan → Prop) :
    Prop where
  payAccount {p p' : RewardPlan} {n : AccountName} {amount : Amount} {event : Event} :
    event.Pays n amount → p.payAccount n amount = .ok p' → P p → P (p'.report event)
  payGroup {p p' : RewardPlan} {g : GroupId} {research : ResearchId} {amount : Amount} :
    p.payGroup g amount = .ok p' → P p → P (p'.report (.groupRewarded g research amount))
  divide {p : RewardPlan} {content : ContentId} {d : DisciplineId} {amount : Amount} :
    P p → P (p.report (.contentRewarded content d amount))
  giveExpertise {p p' : RewardPlan} {n : AccountName} {d : DisciplineId} {amount : Amount} :
    A n → Q d → p.giveExpertise n d amount = .ok p' → P p → P p'

/-- Expertise is given to accounts that satisfy `A`, in disciplines that satisfy `Q`. -/
def Gives (A : AccountName → Prop) (Q : DisciplineId → Prop) (p : RewardPlan) : Prop :=
  p.expertise.All fun k _ => A k.1 ∧ Q k.2

/-- Every bit of expertise is reported. -/
def Reported (p : RewardPlan) : Prop :=
  ∀ n d, p.expertise.getD (n, d) 0 = (p.events.map (Event.expertiseTo n d)).sum

variable {A : AccountName → Prop} {Q : DisciplineId → Prop} {P : RewardPlan → Prop}
  {p p' : RewardPlan} {n : AccountName} {d : DisciplineId} {amount : Amount}

theorem payAccount_ok (h : p.payAccount n amount = .ok p') :
    p' = { p with
      balances := p.balances.insert n (p.balances.getD n 0 + amount)
      distributed := p.distributed + amount } := by
  obtain ⟨paid, hpaid, h⟩ := bind_eq_ok.1 h
  obtain ⟨distributed, hdistributed, h⟩ := bind_eq_ok.1 h
  cases h
  rw [addAmount_ok hpaid, addAmount_ok hdistributed]

theorem payGroup_ok {g : GroupId} (h : p.payGroup g amount = .ok p') :
    p' = { p with
      groups := p.groups.insert g (p.groups.getD g 0 + amount)
      distributed := p.distributed + amount } := by
  obtain ⟨paid, hpaid, h⟩ := bind_eq_ok.1 h
  obtain ⟨distributed, hdistributed, h⟩ := bind_eq_ok.1 h
  cases h
  rw [addAmount_ok hpaid, addAmount_ok hdistributed]

theorem giveExpertise_ok (h : p.giveExpertise n d amount = .ok p') :
    p' = { p with
      expertise := p.expertise.insert (n, d) (p.expertise.getD (n, d) 0 + amount)
      events := p.events ++ [.expertiseRewarded n d amount] } := by
  obtain ⟨given, hgiven, h⟩ := bind_eq_ok.1 h
  cases h
  rw [addAmount_ok hgiven]
  rfl

theorem Gives.kept : Kept A Q (Gives A Q) where
  payAccount _ h hp := by
    obtain rfl := payAccount_ok h
    exact hp
  payGroup h hp := by
    obtain rfl := payGroup_ok h
    exact hp
  divide hp := hp
  giveExpertise hn hd h hp := by
    rw [giveExpertise_ok h]
    exact hp.insert ⟨hn, hd⟩

/-- Events that tell of no expertise change nothing. -/
theorem Reported.report {event : Event} (he : ∀ n d, event.expertiseTo n d = 0) (hp : p.Reported) :
    (p.report event).Reported := by
  intro n d
  rw [RewardPlan.report, List.map_append, List.sum_append, ← hp, List.map_singleton,
    List.sum_singleton, he, add_zero]

theorem Reported.kept : Kept A Q Reported where
  payAccount he h hp := by
    obtain rfl := payAccount_ok h
    exact .report (by cases he <;> exact fun _ _ => rfl) hp
  payGroup h hp := by
    obtain rfl := payGroup_ok h
    exact .report (fun _ _ => rfl) hp
  divide hp := .report (fun _ _ => rfl) hp
  giveExpertise := by
    intro p p' m e amount _ _ h hp n d
    rw [giveExpertise_ok h, List.map_append, List.sum_append, ← hp, List.map_singleton,
      List.sum_singleton, Event.expertiseTo]
    split
    · obtain ⟨rfl, rfl⟩ := ‹m = n ∧ e = d›
      exact getD_insert_self
    · rw [add_zero]
      exact getD_insert_of_ne fun he => ‹¬ (m = n ∧ e = d)› ⟨congrArg Prod.fst he, congrArg Prod.snd he⟩

theorem Kept.giveExpertiseTo {authors : List AccountName} (hk : Kept A Q P)
    (hn : ∀ n ∈ authors, A n) (hd : Q d) (h : p.giveExpertiseTo authors d amount = .ok p')
    (hp : P p) : P p' := by
  unfold RewardPlan.giveExpertiseTo at h
  split at h
  · cases h
    exact hp
  · obtain ⟨each, -, h⟩ := bind_eq_ok.1 h
    split at h
    · cases h
      exact hp
    · exact foldlM_invariant (fun n hmem _ _ => hk.giveExpertise (hn n hmem) hd) h hp

end RewardPlan

namespace State

/-- Whoever wrote a content or a review satisfies `A`. -/
structure Authored (A : AccountName → Prop) (s : State) : Prop where
  contents : s.contents.All fun _ c => ∀ n ∈ c.authors, A n
  reviews : s.reviews.All fun _ r => A r.author

variable {s : State} {A : AccountName → Prop} {Q : DisciplineId → Prop} {P : RewardPlan → Prop}
  {p p' : RewardPlan} {d : DisciplineId} {amount : Amount} (hk : RewardPlan.Kept A Q P)

include hk

/-- Whoever holds, curates or votes is paid in money. -/
theorem keeps_paid {part : Amount} {n : AccountName} {event : Event} (he : event.Pays n part)
    (h : (if part = 0 then pure p else do
      let p ← p.payAccount n part
      return p.report event : Except LedgerError RewardPlan) = .ok p') (hp : P p) : P p' := by
  split at h
  · cases h
    exact hp
  · obtain ⟨q, hq, h⟩ := bind_eq_ok.1 h
    cases h
    exact hk.payAccount he hq hp

theorem planHolders_keeps {id : ResearchId} (h : s.planHolders id amount p = .ok p')
    (hp : P p) : P p' := by
  unfold planHolders at h
  obtain ⟨r, -, h⟩ := bind_eq_ok.1 h
  obtain ⟨part, -, h⟩ := bind_eq_ok.1 h
  extract_lets rest at h
  have hrest {q : RewardPlan} (hq : P q) (h : rest q = .ok p') : P p' := by
    refine foldlM_invariant (P := P) (fun x _ q q' h hq => ?_) h hq
    obtain ⟨part, -, h⟩ := bind_eq_ok.1 h
    exact keeps_paid hk .holder h hq
  split at h
  · obtain ⟨q, hq, h⟩ := bind_eq_ok.1 h
    exact hrest (hk.payGroup hq hp) h
  · exact hrest hp h

theorem planReviewVoters_keeps {r : Review} (h : s.planReviewVoters r d amount p = .ok p')
    (hp : P p) : P p' := by
  unfold planReviewVoters at h
  dsimp only at h
  split at h
  · cases h
    exact hp
  · refine foldlM_invariant (P := P) (fun v _ q q' h hq => ?_) h hp
    obtain ⟨part, -, h⟩ := bind_eq_ok.1 h
    exact keeps_paid hk .voter h hq

theorem planReview_keeps {r : Review} (hr : A r.author) (hd : Q d)
    (h : s.planReview r d amount p = .ok p') (hp : P p) : P p' := by
  obtain ⟨votersPart, -, h⟩ := bind_eq_ok.1 h
  obtain ⟨q, hq, h⟩ := bind_eq_ok.1 h
  obtain ⟨q', hq', h⟩ := bind_eq_ok.1 h
  refine hk.giveExpertiseTo (List.forall_mem_singleton.2 hr) hd h ?_
  exact hk.payAccount .author hq' (planReviewVoters_keeps hk hq hp)

theorem planReviews_keeps {content : ContentId} (ha : s.Authored A) (hd : Q d)
    (h : s.planReviews content d amount p = .ok p') (hp : P p) : P p' := by
  unfold planReviews at h
  dsimp only at h
  split at h
  · cases h
    exact hp
  · refine foldlM_invariant (P := P) (fun x hmem q q' h hq => ?_) h hp
    obtain ⟨id, hid⟩ := stored_of_mem_weightedReviews hmem
    obtain ⟨part, -, h⟩ := bind_eq_ok.1 h
    split at h
    · cases h
      exact hq
    · exact planReview_keeps hk (ha.reviews id x.1 hid) hd h hq

theorem planReferences_keeps {c : Content} (ha : s.Authored A) (hd : Q d)
    (h : s.planReferences c d amount p = .ok p') (hp : P p) : P p' := by
  unfold planReferences at h
  split at h
  · cases h
    exact hp
  · obtain ⟨each, -, h⟩ := bind_eq_ok.1 h
    split at h
    · cases h
      exact hp
    · refine foldlM_invariant (P := P) (fun id _ q q' h hq => ?_) h hp
      obtain ⟨reference, hr, h⟩ := bind_eq_ok.1 h
      obtain ⟨q₁, hq₁, h⟩ := bind_eq_ok.1 h
      have hauthors := ha.contents id reference (content_eq_ok.1 hr)
      exact hk.giveExpertiseTo hauthors hd h (planHolders_keeps hk hq₁ hq)

theorem planCurators_keeps {content : ContentId} (h : s.planCurators content d amount p = .ok p')
    (hp : P p) : P p' := by
  unfold planCurators at h
  split at h
  · cases h
    exact hp
  · extract_lets total at h
    -- Not by `split`, which would begin with the totals inside of the sum.
    by_cases hnone : total = 0
    · rw [if_pos hnone] at h
      cases h
      exact hp
    · rw [if_neg hnone] at h
      refine foldlM_invariant (P := P) (fun v _ q q' h hq => ?_) h hp
      obtain ⟨part, -, h⟩ := bind_eq_ok.1 h
      exact keeps_paid hk .curator h hq

theorem planContent_keeps {c : Content} (ha : s.Authored A) (hc : ∀ n ∈ c.authors, A n) (hd : Q d)
    (h : s.planContent c d amount p = .ok p') (hp : P p) : P p' := by
  obtain ⟨r, -, h⟩ := bind_eq_ok.1 h
  obtain ⟨_, -, h⟩ := bind_eq_ok.1 h
  obtain ⟨_, -, h⟩ := bind_eq_ok.1 h
  obtain ⟨_, -, h⟩ := bind_eq_ok.1 h
  obtain ⟨p₁, h₁, h⟩ := bind_eq_ok.1 h
  obtain ⟨p₂, h₂, h⟩ := bind_eq_ok.1 h
  obtain ⟨p₃, h₃, h⟩ := bind_eq_ok.1 h
  have hp₂ := planReferences_keeps hk ha hd h₂ (planReviews_keeps hk ha hd h₁ hp)
  have hp₃ := planCurators_keeps hk h₃ hp₂
  split at h
  · cases h
    exact hp₃
  · obtain ⟨p₄, h₄, h⟩ := bind_eq_ok.1 h
    exact hk.giveExpertiseTo hc hd h (planHolders_keeps hk h₄ hp₃)

theorem planVoted_keeps {disc : Discipline} {content : ContentId} {t : VoteTotals}
    (ha : s.Authored A) (hd : Q disc.id) (h : s.planVoted disc amount content t p = .ok p')
    (hp : P p) : P p' := by
  obtain ⟨c, hc, h⟩ := bind_eq_ok.1 h
  split at h
  · cases h
    exact hp
  · obtain ⟨part, -, h⟩ := bind_eq_ok.1 h
    split at h
    · cases h
      exact hp
    · have hauthors := ha.contents content c (content_eq_ok.1 hc)
      exact planContent_keeps hk ha hauthors hd h (hk.divide hp)

theorem planDiscipline_keeps {disc : Discipline} {budget : Amount} {active : Nat}
    (ha : s.Authored A) (hd : Q disc.id) (h : s.planDiscipline budget active disc p = .ok p')
    (hp : P p) : P p' := by
  unfold planDiscipline at h
  split at h
  · cases h
    exact hp
  · obtain ⟨part, -, h⟩ := bind_eq_ok.1 h
    split at h
    · cases h
      exact hp
    · exact foldlM_invariant (P := P) (fun x _ q q' h hq => planVoted_keeps hk ha hd h hq) h hp

end State

namespace Ledger.Plans

variable {l : Ledger} {A : AccountName → Prop} {Q : DisciplineId → Prop} {P : RewardPlan → Prop}
  {amount : Amount} {plan : RewardPlan}

/-- What is kept while a plan is made holds of it, if it held of the empty plan. -/
theorem keeps (hk : RewardPlan.Kept A Q P) (ha : l.state.Authored A)
    (hd : l.state.disciplines.All fun _ d => Q d.id) (h₀ : P {}) (h : l.Plans amount plan) :
    P plan := by
  cases h with
  | pass _ _ h =>
    unfold State.planReward at h
    split at h
    · cases h
      exact h₀
    · refine foldlM_invariant (P := P) (fun d hmem _ _ h hq => ?_) h h₀
      obtain ⟨e, he, rfl⟩ := List.mem_map.1 hmem
      exact State.planDiscipline_keeps hk ha (hd _ _ (mem_entries_iff.1 he)) h hq
  | holders _ _ h => exact State.planHolders_keeps hk h h₀

/-- A plan of a ledger gives expertise to its authors alone, and in its disciplines. -/
theorem gives (ha : l.state.Authored A) (hd : l.state.disciplines.All fun _ d => Q d.id)
    (h : l.Plans amount plan) : plan.Gives A Q :=
  h.keeps RewardPlan.Gives.kept ha hd .empty

/-- A plan reports all the expertise that it gives. -/
theorem reported (h : l.Plans amount plan) : plan.Reported :=
  h.keeps (A := fun _ => True) (Q := fun _ => True) RewardPlan.Reported.kept
    ⟨fun _ _ _ _ _ => trivial, fun _ _ _ => trivial⟩ (fun _ _ _ => trivial) fun _ _ => rfl

end Ledger.Plans

end ResearchLedger
