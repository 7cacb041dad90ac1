import ResearchLedger.Proofs.ActiveWeight
import ResearchLedger.Proofs.Apportionment
import ResearchLedger.Proofs.Shares

/-! Reward plans never fail and never spend more than the amount that they divide. -/
namespace ResearchLedger

open SortedMap

/-- The expertise that a plan gives in all. -/
def RewardPlan.given (p : RewardPlan) : Amount := p.expertise.sumOf fun _ amount => amount

/-- A plan pays existing accounts and groups, nobody a negative amount, and knows what it pays. -/
structure RewardPlan.Sound (s : State) (p : RewardPlan) : Prop where
  balances : p.balances.All fun n amount => s.accounts.contains n = true ∧ 0 ≤ amount
  groups : p.groups.All fun g amount => s.groups.contains g = true ∧ 0 ≤ amount
  expertise : p.expertise.All fun _ amount => 0 ≤ amount
  distributed : p.distributed =
    (p.balances.sumOf fun _ amount => amount) + p.groups.sumOf fun _ amount => amount

/-- A stage of a plan succeeds as long as its bounds can be stored, and keeps to them. -/
structure Spends (s : State) (f : RewardPlan → Except LedgerError RewardPlan)
    (money expertise : Amount) : Prop where
  money_nonneg : 0 ≤ money
  expertise_nonneg : 0 ≤ expertise
  run : ∀ p, p.Sound s → p.distributed + money ≤ Amount.max → p.given + expertise ≤ Amount.max →
    ∃ p', f p = .ok p' ∧ p'.Sound s ∧
      p.distributed ≤ p'.distributed ∧ p'.distributed ≤ p.distributed + money ∧
      p.given ≤ p'.given ∧ p'.given ≤ p.given + expertise

variable {s : State} {f g : RewardPlan → Except LedgerError RewardPlan}
  {m m' e e' amount : Amount} {p : RewardPlan} {n : AccountName} {α : Type}

theorem addAmount_eq {a b : Amount} {what : Computation} (ha : 0 ≤ a) (hb : 0 ≤ b)
    (h : a + b ≤ Amount.max) : addAmount a b what = .ok (a + b) := by
  have hfits : Amount.Fits (a + b) := by
    refine ⟨?_, h⟩
    unfold Amount.min
    linarith
  simp [addAmount, Amount.checked?, hfits]

theorem addAmount_ok {a b c : Amount} {what : Computation} (h : addAmount a b what = .ok c) :
    c = a + b := by
  unfold addAmount Amount.checked? at h
  by_cases hfits : Amount.Fits (a + b)
  · rw [if_pos hfits] at h
    exact (Except.ok.inj h).symm
  · rw [if_neg hfits] at h
    cases h

namespace RewardPlan.Sound

theorem empty : Sound s {} := ⟨.empty, .empty, .empty, rfl⟩

theorem balances_nonneg (h : p.Sound s) : 0 ≤ p.balances.sumOf fun _ amount => amount :=
  sumOf_nonneg fun n a hn => (h.balances n a hn).2

theorem groups_nonneg (h : p.Sound s) : 0 ≤ p.groups.sumOf fun _ amount => amount :=
  sumOf_nonneg fun g a hg => (h.groups g a hg).2

theorem distributed_nonneg (h : p.Sound s) : 0 ≤ p.distributed := by
  rw [h.distributed]
  exact Int.add_nonneg h.balances_nonneg h.groups_nonneg

end RewardPlan.Sound

/-- The entry of a key lies between nothing and the sum. -/
theorem SortedMap.getD_le_sumOf {κ : Type} [KeyOrder κ] {a : SortedMap κ Amount}
    (h : a.All fun _ amount => 0 ≤ amount) (k : κ) :
    0 ≤ a.getD k 0 ∧ a.getD k 0 ≤ a.sumOf fun _ amount => amount := by
  rw [getD_eq]
  cases hk : a.get? k with
  | none => exact ⟨le_refl _, sumOf_nonneg h⟩
  | some v => exact ⟨h k v hk, le_sumOf (f := fun _ amount => amount) h hk⟩

theorem SortedMap.sumOf_raise {κ : Type} [KeyOrder κ] (a : SortedMap κ Amount) (k : κ)
    (amount : Amount) : (a.insert k (a.getD k 0 + amount)).sumOf (fun _ amount => amount) =
      a.sumOf (fun _ amount => amount) + amount := by
  have := sumOf_insert_getD (m := a) (k := k) (v := a.getD k 0 + amount) (d := 0)
    (f := fun _ amount => amount) fun _ => rfl
  linarith

namespace Spends

theorem pure (hm : 0 ≤ m) (he : 0 ≤ e) : Spends s (fun p => .ok p) m e where
  money_nonneg := hm
  expertise_nonneg := he
  run p hp _ _ := ⟨p, rfl, hp, le_refl _, by linarith, le_refl _, by linarith⟩

theorem report (event : Event) : Spends s (fun p => .ok (p.report event)) 0 0 where
  money_nonneg := le_refl _
  expertise_nonneg := le_refl _
  run _ hp _ _ := ⟨_, rfl, { hp with }, le_refl _, (add_zero _).ge, le_refl _, (add_zero _).ge⟩

theorem bind (hf : Spends s f m e) (hg : Spends s g m' e') :
    Spends s (fun p => f p >>= g) (m + m') (e + e') where
  money_nonneg := Int.add_nonneg hf.money_nonneg hg.money_nonneg
  expertise_nonneg := Int.add_nonneg hf.expertise_nonneg hg.expertise_nonneg
  run p hp hm he := by
    have := hg.money_nonneg
    have := hg.expertise_nonneg
    obtain ⟨p₁, h₁, hp₁, hd, hd', hx, hx'⟩ := hf.run p hp (by linarith) (by linarith)
    obtain ⟨p₂, h₂, hp₂, hd₂, hd₂', hx₂, hx₂'⟩ := hg.run p₁ hp₁ (by linarith) (by linarith)
    refine ⟨p₂, ?_, hp₂, by linarith, by linarith, by linarith, by linarith⟩
    rw [h₁, ok_bind, h₂]

theorem mono (hf : Spends s f m e) (hm : m ≤ m') (he : e ≤ e') : Spends s f m' e' where
  money_nonneg := hf.money_nonneg.trans hm
  expertise_nonneg := hf.expertise_nonneg.trans he
  run p hp hm' he' := by
    obtain ⟨p₁, h₁, hp₁, hd, hd', hx, hx'⟩ := hf.run p hp (by linarith) (by linarith)
    exact ⟨p₁, h₁, hp₁, hd, by linarith, hx, by linarith⟩

theorem foldlM {step : RewardPlan → α → Except LedgerError RewardPlan} {w v : α → Amount}
    (xs : List α) (h : ∀ x ∈ xs, Spends s (step · x) (w x) (v x)) :
    Spends s (fun p => xs.foldlM step p) (xs.map w).sum (xs.map v).sum := by
  induction xs with
  | nil => exact pure (le_refl _) (le_refl _)
  | cons x xs ih =>
    simp only [List.foldlM_cons, List.map_cons, List.sum_cons]
    exact (h x List.mem_cons_self).bind (ih fun y hy => h y (List.mem_cons_of_mem _ hy))

theorem payAccount (hn : s.accounts.contains n = true) (ha : 0 ≤ amount) :
    Spends s (·.payAccount n amount) amount 0 where
  money_nonneg := ha
  expertise_nonneg := le_refl _
  run p hp hm _ := by
    have hb := getD_le_sumOf (hp.balances.mono fun _ _ h => h.2) n
    have hg := hp.groups_nonneg
    have hd := hp.distributed
    have hd₀ := hp.distributed_nonneg
    refine ⟨{ p with
      balances := p.balances.insert n (p.balances.getD n 0 + amount)
      distributed := p.distributed + amount }, ?_, ?_, by dsimp only; linarith, le_refl _,
      le_refl _, (add_zero _).ge⟩
    · rw [RewardPlan.payAccount, addAmount_eq hb.1 ha (by linarith), ok_bind,
        addAmount_eq hd₀ ha hm, ok_bind]
      rfl
    · refine { hp with balances := hp.balances.insert ⟨hn, by linarith⟩, distributed := ?_ }
      dsimp only
      rw [sumOf_raise]
      linarith

theorem payGroup {id : GroupId} (hn : s.groups.contains id = true) (ha : 0 ≤ amount) :
    Spends s (·.payGroup id amount) amount 0 where
  money_nonneg := ha
  expertise_nonneg := le_refl _
  run p hp hm _ := by
    have hg := getD_le_sumOf (hp.groups.mono fun _ _ h => h.2) id
    have hb := hp.balances_nonneg
    have hd := hp.distributed
    have hd₀ := hp.distributed_nonneg
    refine ⟨{ p with
      groups := p.groups.insert id (p.groups.getD id 0 + amount)
      distributed := p.distributed + amount }, ?_, ?_, by dsimp only; linarith, le_refl _,
      le_refl _, (add_zero _).ge⟩
    · rw [RewardPlan.payGroup, addAmount_eq hg.1 ha (by linarith), ok_bind,
        addAmount_eq hd₀ ha hm, ok_bind]
      rfl
    · refine { hp with groups := hp.groups.insert ⟨hn, by linarith⟩, distributed := ?_ }
      dsimp only
      rw [sumOf_raise]
      linarith

theorem giveExpertise {d : DisciplineId} (ha : 0 ≤ amount) :
    Spends s (·.giveExpertise n d amount) 0 amount where
  money_nonneg := le_refl _
  expertise_nonneg := ha
  run p hp _ he := by
    have hx := getD_le_sumOf hp.expertise (n, d)
    unfold RewardPlan.given at he
    refine ⟨{ p with expertise := p.expertise.insert (n, d) (p.expertise.getD (n, d) 0 + amount) }.report
      (.expertiseRewarded n d amount), ?_, ?_, le_refl _, (add_zero _).ge, ?_, ?_⟩
    · rw [RewardPlan.giveExpertise, addAmount_eq hx.1 ha (by linarith), ok_bind]
      rfl
    · exact { hp with expertise := hp.expertise.insert (by linarith) }
    · change p.given ≤ (p.expertise.insert _ _).sumOf _
      rw [sumOf_raise]
      unfold RewardPlan.given
      linarith
    · change (p.expertise.insert _ _).sumOf _ ≤ p.given + amount
      rw [sumOf_raise]
      unfold RewardPlan.given
      linarith

theorem ite {c : Prop} [Decidable c] (hf : c → Spends s f m e) (hg : ¬ c → Spends s g m e) :
    Spends s (fun p => if c then f p else g p) m e := by
  split
  · exact hf ‹_›
  · exact hg ‹_›

/-- A loop each of whose steps spends a part of an amount by its weight. -/
theorem foldlM_part {step : RewardPlan → α → Except LedgerError RewardPlan} {w : α → Nat}
    {v : α → Amount} {total : Nat} (xs : List α) (ha : 0 ≤ amount) (hw : (xs.map w).sum ≤ total)
    (h : ∀ x ∈ xs, w x ≤ total → Spends s (step · x) (part amount (w x) total) (v x)) :
    Spends s (fun p => xs.foldlM step p) (part amount (xs.map w).sum total) (xs.map v).sum := by
  refine (foldlM (w := fun x => part amount (w x) total) xs fun x hx => ?_).mono
    (sum_part_le w xs ha) (le_refl _)
  exact h x hx ((List.single_le_sum (by simp) _ (List.mem_map_of_mem hx)).trans hw)

/-- A part that is paid to an account unless it is nothing. -/
theorem payPart (hn : s.accounts.contains n = true) (ha : 0 ≤ amount) (event : Event) :
    Spends s (fun p => if amount = 0 then Pure.pure p else
      p.payAccount n amount >>= fun p => Pure.pure (p.report event)) amount 0 :=
  .ite (fun _ => .pure ha (le_refl _)) fun _ =>
    ((payAccount hn ha).bind (report event)).mono (add_zero _).le (add_zero _).le

theorem giveExpertiseTo {d : DisciplineId} (authors : List AccountName) (ha : 0 ≤ amount)
    (hm : amount ≤ Amount.max) : Spends s (·.giveExpertiseTo authors d amount) 0 amount := by
  unfold RewardPlan.giveExpertiseTo
  refine .ite (fun _ => .pure (le_refl _) ha) fun hne => ?_
  have hlen : 1 ≤ authors.length := by
    cases authors with
    | nil => simp at hne
    | cons => simp
  rw [share_eq ha hm hlen (by decide)]
  simp only [ok_bind]
  refine .ite (fun _ => .pure (le_refl _) ha) fun _ => ?_
  refine (foldlM (w := fun _ => 0) (v := fun _ => part amount 1 authors.length) authors
    fun _ _ => giveExpertise (part_nonneg ha)).mono (by simp) ?_
  exact (sum_part_le (fun _ => 1) authors ha).trans (part_le ha (by simp))

end Spends

namespace State

variable {id : ResearchId} {r : Research} {d : DisciplineId}

theorem planHolders_spends (hs : s.Linked) (hl : s.Apportioned) (hr : s.researches.get? id = some r)
    (ha : 0 ≤ amount) (hm : amount ≤ Amount.max) : Spends s (s.planHolders id amount) amount 0 := by
  have hwhole : r.ownedTokens + _ = wholePercent := hl.holders _ _ hr
  unfold planHolders
  rw [research_eq_ok.2 hr]
  simp only [ok_bind, percentShare_eq ha hm (hwhole ▸ Nat.le_add_right ..)]
  have hone : ∀ x ∈ (s.researchTokens.getD id ∅).entries, x.2 ≤ wholePercent →
      Spends s (fun p => percentShare amount x.2 >>= fun part =>
        if part = 0 then Pure.pure p else p.payAccount x.1 part >>= fun p =>
          Pure.pure (p.report (.tokenHolderRewarded x.1 id part)))
        (part amount x.2 wholePercent) 0 := by
    intro x hx hle
    simp only [percentShare_eq ha hm hle, ok_bind]
    exact .payPart (hs.holdersOf id _ _ (mem_entries_iff.1 hx)) (part_nonneg ha) _
  have hloop := Spends.foldlM_part (w := fun x : AccountName × Nat => x.2) (v := fun _ => 0)
    (s.researchTokens.getD id ∅).entries ha (hwhole ▸ Nat.le_add_left ..) hone
  have hpart : part amount r.ownedTokens wholePercent + part amount _ wholePercent ≤ amount :=
    (part_add_le ..).trans (part_le ha hwhole.le)
  have hgroup := part_nonneg (n := r.ownedTokens) (d := wholePercent) ha
  refine .ite (fun _ => ?_) fun _ => ?_
  · refine Spends.mono (.bind (.payGroup (hs.researches _ _ hr).2.2 hgroup)
      (.bind (.report _) hloop)) ?_ (by simp)
    rw [zero_add]
    exact hpart
  · refine Spends.mono hloop ?_ (by simp)
    exact (Int.le_add_of_nonneg_left hgroup).trans hpart

theorem planReviewVoters_spends {rv : Review} (hs : s.Linked) (hl : s.Apportioned)
    (hr : s.reviews.get? rv.id = some rv) (d : DisciplineId) (ha : 0 ≤ amount)
    (hm : amount ≤ Amount.max) : Spends s (s.planReviewVoters rv d amount) amount 0 := by
  obtain ⟨hb, hsum⟩ := hl.reviewVoters _ _ hr d
  have hw : ((s.reviewVotes.getD (rv.id, d) ∅).values.map (·.weight)).sum ≤
      rv.curationWeights.getD d 0 := by
    rw [hsum, SortedMap.values, List.map_map]
    rfl
  unfold planReviewVoters
  refine .ite (fun _ => .pure ha (le_refl _)) fun _ => ?_
  refine (Spends.foldlM_part (v := fun _ => 0) _ ha hw fun v hv hle => ?_).mono (part_le ha hw)
    (by simp)
  simp only [share_eq ha hm hle (hle.trans (hb.curation_le.trans (by decide))), ok_bind]
  obtain ⟨⟨n, v⟩, hmem, rfl⟩ := List.mem_map.1 hv
  obtain ⟨hvoter, hacc⟩ := hs.reviewVotesOf _ _ _ (mem_entries_iff.1 hmem)
  exact .payPart (hvoter ▸ hacc) (part_nonneg ha) _

theorem planReview_spends {rv : Review} (hs : s.Linked) (hl : s.Apportioned)
    (hr : s.reviews.get? rv.id = some rv) (d : DisciplineId) (ha : 0 ≤ amount)
    (hm : amount ≤ Amount.max) : Spends s (s.planReview rv d amount) amount amount := by
  have hvoters := part_le (d := wholePercent) ha (Config.validate_ok hl.config).2
  have hvoters₀ := part_nonneg (n := s.config.reviewVotersShare) (d := wholePercent) ha
  unfold planReview
  rw [percentShare_eq ha hm (Config.validate_ok hl.config).2]
  simp only [ok_bind]
  refine Spends.mono (.bind (planReviewVoters_spends hs hl hr d hvoters₀ (hvoters.trans hm))
    (.bind (.payAccount (hs.reviews _ _ hr).2.2 (Int.sub_nonneg_of_le hvoters))
      (.bind (.report _) (.giveExpertiseTo _ (Int.sub_nonneg_of_le hvoters) ?_)))) ?_ ?_
  · linarith
  · linarith
  · linarith

theorem stored_of_mem_weightedReviews {content : ContentId} {x : Review × Nat}
    (h : x ∈ s.weightedReviews content d) : ∃ id, s.reviews.get? id = some x.1 := by
  obtain ⟨r, hr, rfl⟩ := List.mem_map.1 (List.mem_filter.1 h).1
  obtain ⟨k, -, hk⟩ := List.mem_filterMap.1 (List.mem_filter.1 hr).1
  exact ⟨k.2, hk⟩

/-- The reviews that share in a reward are stored, and their weights are bounded. -/
theorem mem_weightedReviews {content : ContentId} {x : Review × Nat} (hs : s.Linked)
    (hl : s.Apportioned) (hx : x ∈ s.weightedReviews content d) :
    s.reviews.get? x.1.id = some x.1 ∧ x.2 ≤ 2 * maxWord := by
  obtain ⟨id, hk⟩ := stored_of_mem_weightedReviews hx
  obtain ⟨rv, -, rfl⟩ := List.mem_map.1 (List.mem_filter.1 hx).1
  have hid : rv.id = id := (hs.reviews _ _ hk).1
  refine ⟨by rw [← hid] at hk; exact hk, ?_⟩
  have hb := (hl.reviewVoters _ _ hk d).1
  unfold reviewWeight
  exact Nat.div_le_of_le_mul ((Nat.mul_le_mul hb.reward_le hb.modifier_le).trans (by decide))

theorem planReviews_spends (hs : s.Linked) (hl : s.Apportioned) (content : ContentId)
    (d : DisciplineId) (ha : 0 ≤ amount) (hm : amount ≤ Amount.max) :
    Spends s (s.planReviews content d amount) amount amount := by
  unfold planReviews
  refine .ite (fun _ => .pure ha ha) fun _ => ?_
  dsimp only
  have hw : ((s.weightedReviews content d).map (·.2)).sum ≤
      total ((s.weightedReviews content d).map (·.2)) := le_refl _
  refine (Spends.foldlM_part (w := fun x : Review × Nat => x.2)
    (v := fun x => part amount x.2 _) _ ha hw fun x hx hle => ?_).mono
    (part_le ha hw) ((sum_part_le _ _ ha).trans (part_le ha hw))
  obtain ⟨hstored, hbound⟩ := mem_weightedReviews hs hl hx
  simp only [share_eq ha hm hle hbound, ok_bind]
  exact .ite (fun _ => .pure (part_nonneg ha) (part_nonneg ha)) fun _ =>
    planReview_spends hs hl hstored d (part_nonneg ha) ((part_le ha hle).trans hm)

theorem planReferences_spends {c : Content} (hs : s.Linked) (hl : s.Apportioned)
    (hc : s.contents.get? c.id = some c) (d : DisciplineId) (ha : 0 ≤ amount)
    (hm : amount ≤ Amount.max) : Spends s (s.planReferences c d amount) amount amount := by
  unfold planReferences
  refine .ite (fun _ => .pure ha ha) fun hne => ?_
  have hlen : 1 ≤ c.references.length := by
    cases hr : c.references with
    | nil => simp [hr] at hne
    | cons => simp
  have hw : (c.references.map fun _ => 1).sum ≤ c.references.length := by simp
  rw [share_eq ha hm hlen (by decide)]
  simp only [ok_bind]
  refine .ite (fun _ => .pure ha ha) fun _ => ?_
  refine (Spends.foldlM_part (w := fun _ => 1) (v := fun _ => part amount 1 c.references.length)
    c.references ha hw fun id hid _ => ?_).mono (part_le ha hw)
    ((sum_part_le (fun _ => 1) _ ha).trans (part_le ha hw))
  obtain ⟨ref, href⟩ := contains_iff.1 ((hs.contents _ _ hc).2.2.2 id hid)
  obtain ⟨r, hr⟩ := contains_iff.1 (hs.contents _ _ href).2.2.1
  have heach := (part_le (d := c.references.length) ha hlen).trans hm
  simp only [content_eq_ok.2 href, ok_bind]
  exact Spends.mono (.bind (planHolders_spends hs hl hr (part_nonneg ha) heach)
    (.giveExpertiseTo _ (part_nonneg ha) heach)) (by simp) (by simp)

theorem planCurators_spends (hs : s.Linked) (hl : s.Apportioned) (content : ContentId)
    (d : DisciplineId) (ha : 0 ≤ amount) (hm : amount ≤ Amount.max) :
    Spends s (s.planCurators content d amount) amount 0 := by
  unfold planCurators
  refine .ite (fun _ => .pure ha (le_refl _)) fun _ => ?_
  cases ht : s.voteTotals? content d with
  | none => exact .pure ha (le_refl _)
  | some t =>
    obtain ⟨hsum, hle⟩ := hl.curators _ _ ht
    have hw : ((s.votes.getD (content, d) ∅).values.map (·.weight)).sum ≤ t.curatorsWeight := by
      rw [hsum, SortedMap.values, List.map_map]
      rfl
    dsimp only
    refine .ite (fun _ => .pure ha (le_refl _)) fun _ => ?_
    refine (Spends.foldlM_part (v := fun _ => 0) _ ha hw fun v hv hv' => ?_).mono (part_le ha hw)
      (by simp)
    simp only [share_eq ha hm hv' (hv'.trans (hle.trans (by decide))), ok_bind]
    obtain ⟨⟨n, v⟩, hmem, rfl⟩ := List.mem_map.1 hv
    obtain ⟨hvoter, hacc⟩ := hs.votesOf _ _ _ (mem_entries_iff.1 hmem)
    exact .payPart (hvoter ▸ hacc) (part_nonneg ha) _

theorem planContent_spends {c : Content} (hs : s.Linked) (hl : s.Apportioned)
    (hc : s.contents.get? c.id = some c) (d : DisciplineId) (ha : 0 ≤ amount)
    (hm : amount ≤ Amount.max) : Spends s (s.planContent c d amount) amount amount := by
  obtain ⟨r, hr⟩ := contains_iff.1 (hs.contents _ _ hc).2.2.1
  have hparts := hl.parts _ _ hr
  have hconfig := (Config.validate_ok hl.config).1
  have hsum := ((Int.add_le_add_right (part_add_le amount r.reviewSharePercent
    s.config.referencesShare wholePercent) _).trans (part_add_le amount _ s.config.curatorsShare
    wholePercent)).trans (part_le ha hparts)
  have hreviews := part_nonneg (n := r.reviewSharePercent) (d := wholePercent) ha
  have hreferences := part_nonneg (n := s.config.referencesShare) (d := wholePercent) ha
  have hcurators := part_nonneg (n := s.config.curatorsShare) (d := wholePercent) ha
  unfold planContent
  simp only [research_eq_ok.2 hr, ok_bind, percentShare_eq ha hm
    (show r.reviewSharePercent ≤ wholePercent by omega), percentShare_eq ha hm
    (show s.config.referencesShare ≤ wholePercent by omega), percentShare_eq ha hm
    (show s.config.curatorsShare ≤ wholePercent by omega)]
  generalize part amount r.reviewSharePercent wholePercent = a at *
  generalize part amount s.config.referencesShare wholePercent = b at *
  generalize part amount s.config.curatorsShare wholePercent = b' at *
  have hrest : 0 ≤ amount - a - b - b' := by linarith
  have hstored : s.researches.get? r.id = some r := by rw [(hs.researches _ _ hr).1]; exact hr
  refine Spends.mono (.bind (planReviews_spends hs hl c.id d hreviews (by linarith))
    (.bind (planReferences_spends hs hl hc d hreferences (by linarith))
    (.bind (planCurators_spends hs hl c.id d hcurators (by linarith))
    (.ite (m := amount - a - b - b') (e := amount - a - b - b') (fun _ => .pure hrest hrest)
      fun _ => .mono (.bind (planHolders_spends hs hl hstored hrest (by linarith))
        (.giveExpertiseTo _ hrest (by linarith))) ?_ ?_)))) ?_ ?_ <;> linarith

/-- The part of a content in a discipline, if the content is active. -/
theorem planVoted_spends {disc : Discipline} {content : ContentId} {t : VoteTotals} (hs : s.Linked)
    (hl : s.Apportioned) (ht : s.voteTotals.get? (content, disc.id) = some t)
    (hc : ∀ c, s.contents.get? content = some c → t.ActiveAs c.isActive)
    (hle : t.activeResearchWeight ≤ disc.activeResearchWeight)
    (hb : disc.activeResearchWeight ≤ maxWord) (ha : 0 ≤ amount) (hm : amount ≤ Amount.max) :
    Spends s (s.planVoted disc amount content t)
      (part amount t.activeResearchWeight disc.activeResearchWeight)
      (part amount t.activeResearchWeight disc.activeResearchWeight) := by
  obtain ⟨c, hcs⟩ := contains_iff.1 (hs.voteTotals _ _ ht).1
  have hp := part_nonneg (n := t.activeResearchWeight) (d := disc.activeResearchWeight) ha
  unfold planVoted
  simp only [content_eq_ok.2 hcs, ok_bind]
  refine .ite (fun _ => .pure hp hp) fun hact => ?_
  have hact : c.isActive = true := by simpa using hact
  have heq : t.researchWeight = t.activeResearchWeight := by
    have := (hc c hcs).2.1
    rw [if_pos hact] at this
    exact this.symm
  rw [heq, share_eq ha hm hle (hle.trans (hb.trans (by decide)))]
  simp only [ok_bind]
  refine .ite (fun _ => .pure hp hp) fun _ => ?_
  have hid : c.id = content := (hs.contents _ _ hcs).1
  refine Spends.mono (.bind (.report _) (planContent_spends hs hl (by rw [hid]; exact hcs) disc.id hp
    ((part_le ha hle).trans hm))) (zero_add _).le (zero_add _).le

theorem mem_votedIn {content : ContentId} {t : VoteTotals} :
    (content, t) ∈ s.votedIn d ↔ s.voteTotals.get? (content, d) = some t := by
  unfold votedIn
  simp only [List.mem_map, List.mem_filter, mem_entries_iff, beq_iff_eq, Prod.exists, Prod.mk.injEq]
  constructor
  · rintro ⟨c, d', t', ⟨h, rfl⟩, rfl, rfl⟩
    exact h
  · intro h
    exact ⟨content, d, t, ⟨h, rfl⟩, rfl, rfl⟩

theorem sum_votedIn (s : State) (f : VoteTotals → Nat) (d : DisciplineId) :
    ((s.votedIn d).map fun x => f x.2).sum = Totals.totalIn f d s.voteTotals := by
  unfold votedIn Totals.totalIn sumOf
  rw [List.map_map]
  induction s.voteTotals.entries with
  | nil => rfl
  | cons x xs ih =>
    by_cases hx : x.1.2 = d
    · rw [List.filter_cons_of_pos (by simpa using hx), List.map_cons, List.map_cons, List.sum_cons,
        List.sum_cons, ih]
      simp [hx]
    · rw [List.filter_cons_of_neg (by simpa using hx), List.map_cons, List.sum_cons, ih]
      simp [hx]

variable {l : Ledger}

/-- The part of a discipline, divided among its contents. -/
theorem planDiscipline_spends {disc : Discipline} {id : DisciplineId} (hs : l.state.Linked)
    (hl : l.state.Apportioned) (hb : l.Balanced) (hd : l.state.disciplines.get? id = some disc)
    (hle : disc.activeWeight ≤ l.head.activeWeight) (ha : 0 ≤ amount) (hm : amount ≤ Amount.max) :
    Spends l.state (l.state.planDiscipline amount l.head.activeWeight disc)
      (part amount disc.activeWeight l.head.activeWeight)
      (part amount disc.activeWeight l.head.activeWeight) := by
  have hp := part_nonneg (n := disc.activeWeight) (d := l.head.activeWeight) ha
  have hm' := (part_le ha hle).trans hm
  have hid : disc.id = id := hs.disciplines _ _ hd
  unfold planDiscipline
  refine .ite (fun _ => .pure hp hp) fun _ => ?_
  rw [share_eq ha hm hle (hle.trans (hb.weighed.head_le.trans (by decide)))]
  simp only [ok_bind]
  generalize part amount disc.activeWeight l.head.activeWeight = whole at *
  refine .ite (fun _ => .pure hp hp) fun _ => ?_
  -- The total that is divided by also counts what the filter leaves out.
  have hw : (((l.state.votedIn disc.id).filter (·.2.researchWeight != 0)).map
      fun x => x.2.activeResearchWeight).sum ≤ disc.activeResearchWeight := by
    refine le_trans ?_ (hb.weighed.researches _ _ hd)
    rw [← sum_votedIn, hid]
    exact ((List.filter_sublist).map _).sum_le_sum fun _ _ => Nat.zero_le _
  refine (Spends.foldlM_part (w := fun x : ContentId × VoteTotals => x.2.activeResearchWeight)
    (v := fun x => part whole x.2.activeResearchWeight _) _ hp hw fun x hx hx' => ?_).mono
    (part_le hp hw) ((sum_part_le _ _ hp).trans (part_le hp hw))
  have ht := mem_votedIn.1 (List.mem_filter.1 hx).1
  exact planVoted_spends hs hl ht (hb.active _ _ ht) hx' (hl.disciplines _ _ hd) hp hm'

/-- The parts of all disciplines. -/
theorem planDisciplines_spends (hs : l.state.Linked) (hl : l.state.Apportioned) (hb : l.Balanced)
    (ha : 0 ≤ amount) (hm : amount ≤ Amount.max) :
    Spends l.state (fun p => l.state.disciplines.values.foldlM
      (fun p d => l.state.planDiscipline amount l.head.activeWeight d p) p) amount amount := by
  have hw : (l.state.disciplines.values.map (·.activeWeight)).sum ≤ l.head.activeWeight := by
    rw [hb.weighed.head, SortedMap.values, List.map_map]
    rfl
  refine (Spends.foldlM_part (w := fun d : Discipline => d.activeWeight)
    (v := fun d => part amount d.activeWeight _) _ ha hw fun d hd hd' => ?_).mono
    (part_le ha hw) ((sum_part_le _ _ ha).trans (part_le ha hw))
  obtain ⟨⟨id, d⟩, hmem, rfl⟩ := List.mem_map.1 hd
  exact planDiscipline_spends hs hl hb (mem_entries_iff.1 hmem) hd' ha hm

/-- A pass over all disciplines succeeds and spends no more than its budget. -/
theorem planReward_ok (hs : l.state.Linked) (hl : l.state.Apportioned) (hb : l.Balanced)
    (ha : 0 ≤ amount) (hm : amount ≤ Amount.max) :
    ∃ p, l.state.planReward amount l.head.activeWeight = .ok p ∧ p.Sound l.state ∧
      p.distributed ≤ amount := by
  unfold planReward
  split
  · exact ⟨{}, rfl, .empty, ha⟩
  · obtain ⟨p, hp, hsound, -, hle, -⟩ := (planDisciplines_spends hs hl hb ha hm).run {} .empty
      (by simpa using hm) (by simpa [RewardPlan.given] using hm)
    exact ⟨p, hp, hsound, by simpa using hle⟩

/-- Nor does it give more expertise than its budget. -/
theorem planReward_given {p : RewardPlan} (hs : l.state.Linked) (hl : l.state.Apportioned)
    (hb : l.Balanced) (ha : 0 ≤ amount) (hm : amount ≤ Amount.max)
    (h : l.state.planReward amount l.head.activeWeight = .ok p) : p.given ≤ amount := by
  unfold planReward at h
  split at h
  · cases h
    exact ha
  · obtain ⟨q, hq, -, -, -, -, hle⟩ := (planDisciplines_spends hs hl hb ha hm).run {} .empty
      (by simpa using hm) (by simpa [RewardPlan.given] using hm)
    obtain rfl := Except.ok.inj (h.symm.trans hq)
    simpa [RewardPlan.given] using hle

theorem planHolders_ok (hs : s.Linked) (hl : s.Apportioned) (hr : s.researches.get? id = some r)
    (ha : 0 ≤ amount) (hm : amount ≤ Amount.max) :
    ∃ p, s.planHolders id amount {} = .ok p ∧ p.Sound s ∧ p.distributed ≤ amount := by
  obtain ⟨p, hp, hsound, -, hle, -⟩ := (planHolders_spends hs hl hr ha hm).run {} .empty
    (by simpa using hm) (by decide)
  exact ⟨p, hp, hsound, by simpa using hle⟩

end State

end ResearchLedger
