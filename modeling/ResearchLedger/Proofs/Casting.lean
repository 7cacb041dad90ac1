import ResearchLedger.Proofs.Linked

/-! Votes on contents: what each adds to the totals, and the votes of a review cast in a row. -/
namespace ResearchLedger

variable {s s' : State} {l l' : Ledger} {p : ContentVotePlan} {c : Content} {d : Discipline}
  {reward : Nat}

theorem addWeight_eq_ok {a b w : Nat} {what : Computation} :
    addWeight a b what = .ok w ↔ a + b ≤ maxWord ∧ a + b = w := by
  unfold addWeight
  split
  · rename_i h
    simp [Nat.not_le.2 h]
  · rename_i h
    simp [Nat.not_lt.1 h]

/-- The totals with a vote. -/
def VoteTotals.raise (t : VoteTotals) (tokens reward curator : Nat) (active : Bool) : VoteTotals :=
  { t with
    weight := t.weight + tokens
    activeWeight := if active then t.activeWeight + tokens else t.activeWeight
    researchWeight := t.researchWeight + reward
    activeResearchWeight :=
      if active then t.activeResearchWeight + reward else t.activeResearchWeight
    curatorsWeight := t.curatorsWeight + curator
    activeCuratorsWeight :=
      if active then t.activeCuratorsWeight + curator else t.activeCuratorsWeight }

/-- The discipline with a vote. -/
def Discipline.raise (d : Discipline) (tokens reward : Nat) (active : Bool) : Discipline :=
  { d with
    activeWeight := if active then d.activeWeight + tokens else d.activeWeight
    activeResearchWeight := d.activeResearchWeight + reward }

namespace VoteTotals

theorem addTokens_ok {t t' : VoteTotals} {tokens : Nat} {active : Bool}
    (h : t.addTokens tokens reward active = .ok t') : t' = t.raise tokens reward 0 active := by
  unfold addTokens at h
  obtain ⟨_, hw, h⟩ := bind_eq_ok.1 h
  obtain ⟨_, hr, h⟩ := bind_eq_ok.1 h
  obtain ⟨-, rfl⟩ := addWeight_eq_ok.1 hw
  obtain ⟨-, rfl⟩ := addWeight_eq_ok.1 hr
  cases active with
  | false => cases h; rfl
  | true =>
    obtain ⟨_, hw, h⟩ := bind_eq_ok.1 h
    obtain ⟨_, hr, h⟩ := bind_eq_ok.1 h
    obtain ⟨-, rfl⟩ := addWeight_eq_ok.1 hw
    obtain ⟨-, rfl⟩ := addWeight_eq_ok.1 hr
    cases h
    rfl

theorem addCurator_ok {t t' : VoteTotals} {weight : Nat} {active : Bool}
    (h : t.addCurator weight active = .ok t') :
    t' = t.raise 0 0 weight active ∧ t'.curatorsWeight ≤ maxWord := by
  unfold addCurator at h
  obtain ⟨_, hw, h⟩ := bind_eq_ok.1 h
  obtain ⟨hle, rfl⟩ := addWeight_eq_ok.1 hw
  cases active with
  | false => cases h; exact ⟨rfl, hle⟩
  | true =>
    obtain ⟨_, hw, h⟩ := bind_eq_ok.1 h
    obtain ⟨-, rfl⟩ := addWeight_eq_ok.1 hw
    cases h
    exact ⟨rfl, hle⟩

variable (t : VoteTotals) (tokens reward curator : Nat) (active : Bool)

theorem raise_activeWeight : (t.raise tokens reward curator active).activeWeight =
    t.activeWeight + if active then tokens else 0 := by
  cases active <;> rfl

theorem raise_activeResearchWeight : (t.raise tokens reward curator active).activeResearchWeight =
    t.activeResearchWeight + if active then reward else 0 := by
  cases active <;> rfl

theorem raise_raise : (t.raise tokens reward 0 active).raise 0 0 curator active =
    t.raise tokens reward curator active := by
  cases active <;> rfl

end VoteTotals

theorem Discipline.raise_activeWeight (d : Discipline) (tokens reward : Nat) (active : Bool) :
    (d.raise tokens reward active).activeWeight = d.activeWeight + if active then tokens else 0 := by
  cases active <;> rfl

/-- The totals of a content in a discipline, or those before the first vote. -/
def State.totalsBefore (s : State) (c : Content) (key : ContentId × DisciplineId) : VoteTotals :=
  (s.voteTotals.get? key).getD (.fresh key.1 key.2 c.research)

namespace ContentVotePlan

/-- Where the totals of the plan's vote stand. -/
def key (p : ContentVotePlan) : ContentId × DisciplineId := (p.vote.content, p.vote.discipline)

/-- A vote that was found good at a ledger: it adds its tokens, their reward weight and its own
weight, to the active totals only while its content is active. -/
structure Casts (p : ContentVotePlan) (l : Ledger) (c : Content) (d : Discipline) (reward : Nat) :
    Prop where
  content : l.state.contents.get? p.key.1 = some c
  discipline : l.state.disciplines.get? p.key.2 = some d
  voter : l.state.accounts.contains p.vote.voter = true
  research : p.vote.research = c.research
  fresh : (l.state.votes.getD p.key ∅).get? p.vote.voter = none
  curve : Curve.power1Dot5.eval p.vote.tokens = .ok reward
  totals : p.totals =
    (l.state.totalsBefore c p.key).raise p.vote.tokens reward p.vote.weight c.isActive
  raised : p.discipline = d.raise p.vote.tokens reward c.isActive
  activeWeight : p.activeWeight =
    if c.isActive then l.head.activeWeight + p.vote.tokens else l.head.activeWeight
  curators_le : p.totals.curatorsWeight ≤ maxWord
  research_le : p.discipline.activeResearchWeight ≤ maxWord
  active_le : l.head.activeWeight ≤ maxWord → p.activeWeight ≤ maxWord

/-- Votes that are found good one after the other. -/
inductive CastsAll : List ContentVotePlan → Ledger → Prop
  | nil {l : Ledger} : CastsAll [] l
  | cons {p : ContentVotePlan} {ps : List ContentVotePlan} {l : Ledger} {c : Content}
      {d : Discipline} {reward : Nat} (h : p.Casts l c d reward) (hs : CastsAll ps (p.commit l)) :
      CastsAll (p :: ps) l

end ContentVotePlan

theorem State.vote?_eq_none {voter : AccountName} {discipline : DisciplineId} {content : ContentId} :
    s.vote? voter discipline content = none ↔
      (s.votes.getD (content, discipline) ∅).get? voter = none := by
  unfold vote?
  rw [SortedMap.getD_eq]
  cases s.votes.get? (content, discipline) <;> simp

theorem State.planContentVote_ok {head : Head} {voter : AccountName} {discipline : DisciplineId}
    {content : ContentId} {percent : Int} {use : PowerUse} {now : Seconds}
    (hv : s.accounts.contains voter = true)
    (h : s.planContentVote now head.activeWeight voter discipline content percent use = .ok p) :
    ∃ c d reward, p.Casts ⟨s, head⟩ c d reward ∧ p.vote.voter = voter ∧
      p.key = (content, discipline) := by
  unfold planContentVote at h
  obtain ⟨hf, h⟩ := guard_bind_eq_ok.1 h
  obtain ⟨c, hc, h⟩ := bind_eq_ok.1 h
  obtain ⟨d, hd, h⟩ := bind_eq_ok.1 h
  obtain ⟨reward, hr, h⟩ := bind_eq_ok.1 h
  obtain ⟨raised, ht, h⟩ := bind_eq_ok.1 h
  obtain rfl := VoteTotals.addTokens_ok ht
  have hf := vote?_eq_none.1 (by simpa using hf)
  have hc := content_eq_ok.1 hc
  have hd := discipline_eq_ok.1 hd
  cases ha : c.isActive with
  | false =>
    simp only [ha, Bool.false_eq_true, if_false] at h
    obtain ⟨_, hx, h⟩ := bind_eq_ok.1 h
    cases hx
    obtain ⟨_, hx, h⟩ := bind_eq_ok.1 h
    cases hx
    obtain ⟨_, hx, h⟩ := bind_eq_ok.1 h
    obtain ⟨hle, rfl⟩ := addWeight_eq_ok.1 hx
    obtain ⟨growth, _, h⟩ := bind_eq_ok.1 h
    obtain ⟨totals, hx, h⟩ := bind_eq_ok.1 h
    obtain ⟨rfl, hcw⟩ := VoteTotals.addCurator_ok hx
    cases h
    refine ⟨c, d, reward, ⟨hc, hd, hv, rfl, hf, hr, ?_, ?_, ?_, hcw, hle, ?_⟩, rfl, rfl⟩
    · rw [ha, VoteTotals.raise_raise]; rfl
    · rw [ha]; rfl
    · rw [ha]; rfl
    · exact id
  | true =>
    simp only [ha, if_true] at h
    obtain ⟨_, hx, h⟩ := bind_eq_ok.1 h
    obtain ⟨hale, rfl⟩ := addWeight_eq_ok.1 hx
    obtain ⟨_, hx, h⟩ := bind_eq_ok.1 h
    obtain ⟨-, rfl⟩ := addWeight_eq_ok.1 hx
    obtain ⟨_, hx, h⟩ := bind_eq_ok.1 h
    obtain ⟨hle, rfl⟩ := addWeight_eq_ok.1 hx
    obtain ⟨growth, _, h⟩ := bind_eq_ok.1 h
    obtain ⟨totals, hx, h⟩ := bind_eq_ok.1 h
    obtain ⟨rfl, hcw⟩ := VoteTotals.addCurator_ok hx
    cases h
    refine ⟨c, d, reward, ⟨hc, hd, hv, rfl, hf, hr, ?_, ?_, ?_, hcw, hle, ?_⟩, rfl, rfl⟩
    · rw [ha, VoteTotals.raise_raise]; rfl
    · rw [ha]; rfl
    · rw [ha]; rfl
    · exact fun _ => hale

namespace ContentVotePlan.Casts

/-- A vote depends on the look-ups of its content, its discipline and its voter alone. -/
theorem congr (h : p.Casts l c d reward)
    (hc : l'.state.contents.get? p.key.1 = l.state.contents.get? p.key.1)
    (hd : l'.state.disciplines.get? p.key.2 = l.state.disciplines.get? p.key.2)
    (ha : l'.state.accounts = l.state.accounts)
    (hv : l'.state.votes.get? p.key = l.state.votes.get? p.key)
    (ht : l'.state.voteTotals.get? p.key = l.state.voteTotals.get? p.key)
    (hw : l'.head.activeWeight = l.head.activeWeight) : p.Casts l' c d reward where
  content := hc.trans h.content
  discipline := hd.trans h.discipline
  voter := ha ▸ h.voter
  research := h.research
  fresh := by rw [SortedMap.getD_eq, hv]; exact h.fresh
  curve := h.curve
  totals := by unfold State.totalsBefore; rw [ht]; exact h.totals
  raised := h.raised
  activeWeight := by rw [hw]; exact h.activeWeight
  curators_le := h.curators_le
  research_le := h.research_le
  active_le := hw ▸ h.active_le

end ContentVotePlan.Casts

theorem ContentVotePlan.disciplines_commit (p : ContentVotePlan) (l : Ledger) :
    (p.commit l).state.disciplines = l.state.disciplines.insert p.discipline.id p.discipline := rfl

theorem ContentVotePlan.voteTotals_commit (p : ContentVotePlan) (l : Ledger) :
    (p.commit l).state.voteTotals = l.state.voteTotals.insert p.key p.totals := rfl

theorem ContentVotePlan.votes_commit (p : ContentVotePlan) (l : Ledger) :
    (p.commit l).state.votes =
      l.state.votes.insert p.key ((l.state.votes.getD p.key ∅).insert p.vote.voter p.vote) := rfl

theorem VoteForContent.plan_ok {op : VoteForContent} (h : op.plan l.head l.state = .ok p) :
    ∃ c d reward, p.Casts l c d reward ∧ p.vote.voter = op.voter ∧
      p.key = (op.content, op.discipline) := by
  unfold VoteForContent.plan at h
  obtain ⟨a, ha, h⟩ := bind_eq_ok.1 h
  obtain ⟨-, h⟩ := guard_bind_eq_ok.1 h
  obtain ⟨_, -, h⟩ := bind_eq_ok.1 h
  obtain ⟨_, -, h⟩ := bind_eq_ok.1 h
  obtain ⟨_, -, h⟩ := bind_eq_ok.1 h
  obtain ⟨_, -, h⟩ := bind_eq_ok.1 h
  obtain ⟨-, h⟩ := guard_bind_eq_ok.1 h
  obtain ⟨_, -, h⟩ := bind_eq_ok.1 h
  obtain ⟨-, h⟩ := guard_bind_eq_ok.1 h
  obtain ⟨use, -, h⟩ := bind_eq_ok.1 h
  exact State.planContentVote_ok (SortedMap.contains_of_get? (State.account_eq_ok.1 ha)) h

/-- The votes of a review, each found good on the same stores, are found good one after the other:
each concerns a discipline of its own. -/
theorem MakeReview.castsAll_planVotes {op : MakeReview} {now : Seconds} {ds : List DisciplineId}
    {votes : List (ContentVotePlan × Amount)} (hs : s.disciplines.All fun id d => d.id = id)
    (ha : s.accounts.contains op.author = true) (hn : ds.Nodup)
    (h : op.planVotes s now l.head.activeWeight ds = .ok votes)
    (hc : l.state.contents = s.contents) (hl : l.state.accounts = s.accounts)
    (hd : ∀ d ∈ ds, l.state.disciplines.get? d = s.disciplines.get? d)
    (hv : ∀ d ∈ ds, l.state.votes.get? (op.content, d) = s.votes.get? (op.content, d))
    (ht : ∀ d ∈ ds, l.state.voteTotals.get? (op.content, d) = s.voteTotals.get? (op.content, d)) :
    ContentVotePlan.CastsAll (votes.map (·.1)) l := by
  induction ds generalizing l votes with
  | nil => cases h; exact .nil
  | cons d ds ih =>
    obtain ⟨token, -, h⟩ := bind_eq_ok.1 h
    obtain ⟨use, -, h⟩ := bind_eq_ok.1 h
    obtain ⟨p, hp, h⟩ := bind_eq_ok.1 h
    obtain ⟨rest, hr, h⟩ := bind_eq_ok.1 h
    cases h
    obtain ⟨hnd, hn⟩ := List.nodup_cons.1 hn
    obtain ⟨c, disc, reward, hcast, hvoter, hkey⟩ := State.planContentVote_ok ha hp
    have hmem := List.mem_cons_self (a := d) (l := ds)
    have hid : p.discipline.id = d := by
      rw [hcast.raised]
      exact (hs _ _ hcast.discipline).trans (congrArg Prod.snd hkey)
    have hne : ∀ e ∈ ds, d ≠ e := fun e he => by rintro rfl; exact hnd he
    have hkeys : ∀ e ∈ ds, p.key ≠ (op.content, e) := fun e he hk =>
      hne e he (congrArg Prod.snd (hkey.symm.trans hk))
    refine .cons (hcast.congr (by rw [hc]) (by rw [hkey]; exact hd d hmem) hl
      (by rw [hkey]; exact hv d hmem) (by rw [hkey]; exact ht d hmem) rfl)
      (ih hn hr hc hl ?_ ?_ ?_)
    · intro e he
      rw [ContentVotePlan.disciplines_commit, hid, SortedMap.get?_insert_of_ne (hne e he)]
      exact hd e (List.mem_cons_of_mem _ he)
    · intro e he
      rw [ContentVotePlan.votes_commit, SortedMap.get?_insert_of_ne (hkeys e he)]
      exact hv e (List.mem_cons_of_mem _ he)
    · intro e he
      rw [ContentVotePlan.voteTotals_commit, SortedMap.get?_insert_of_ne (hkeys e he)]
      exact ht e (List.mem_cons_of_mem _ he)

namespace MakeReview

variable {op : MakeReview} {plan : Plan}

/-- The ledger with the review, before the votes that go with it. -/
def Plan.record (plan : Plan) (l : Ledger) : Ledger :=
  { l with state := { l.state with
      nextIds := { l.state.nextIds with review := l.state.nextIds.review + 1 }
      reviewsByContent :=
        SortedSet.add l.state.reviewsByContent (plan.review.content, plan.review.id)
      reviews := l.state.reviews.insert plan.review.id plan.review } }

/-- A review that is admitted: what it names exists, and its votes, if it is positive, are planned in its
disciplines. -/
theorem plan_admits (h : op.plan l.head l.state = .ok plan) : ∃ c r votes,
    l.state.accounts.contains op.author = true ∧ l.state.contents.get? op.content = some c ∧
    l.state.researches.get? c.research = some r ∧
    (∀ x ∈ op.references, l.state.contents.contains x = true) ∧
    plan.review =
      { op.review l.state l.head.time (SortedSet.ofKeys (op.reviewDisciplines l.state r)) with
        expertiseUsed := .ofList (votes.map fun v => (v.1.vote.discipline, v.2)) } ∧
    plan.votes = votes.map (·.1) ∧ (votes = [] ∨ op.planVotes l.state l.head.time l.head.activeWeight
      (SortedSet.ofKeys (op.reviewDisciplines l.state r)).keys = .ok votes) := by
  unfold MakeReview.plan at h
  obtain ⟨a, ha, h⟩ := bind_eq_ok.1 h
  obtain ⟨c, hc, h⟩ := bind_eq_ok.1 h
  obtain ⟨r, hr, h⟩ := bind_eq_ok.1 h
  obtain ⟨-, h⟩ := guard_bind_eq_ok.1 h
  obtain ⟨_, hreferences, h⟩ := bind_eq_ok.1 h
  have ha := SortedMap.contains_of_get? (State.account_eq_ok.1 ha)
  have hc := State.content_eq_ok.1 hc
  have hr := State.research_eq_ok.1 hr
  have hreferences : ∀ x ∈ op.references, l.state.contents.contains x = true := fun x hx =>
    State.checkContent_eq_ok.1 (forM_eq_ok.1 hreferences x hx)
  by_cases hp : op.isPositive = true
  · rw [if_pos hp] at h
    obtain ⟨-, h⟩ := guard_bind_eq_ok.1 h
    obtain ⟨votes, hv, h⟩ := bind_eq_ok.1 h
    cases h
    exact ⟨c, r, votes, ha, hc, hr, hreferences, rfl, rfl, .inr hv⟩
  · rw [if_neg hp] at h
    cases h
    exact ⟨c, r, [], ha, hc, hr, hreferences, rfl, rfl, .inl rfl⟩

theorem plan_ok (hs : l.state.disciplines.All fun id d => d.id = id)
    (h : op.plan l.head l.state = .ok plan) :
    (∃ disciplines used, plan.review =
      { op.review l.state l.head.time disciplines with expertiseUsed := used }) ∧
    l.state.accounts.contains op.author = true ∧ l.state.contents.contains op.content = true ∧
      ContentVotePlan.CastsAll plan.votes (plan.record l) := by
  obtain ⟨c, r, votes, ha, hc, -, -, hreview, hvotes, hv⟩ := plan_admits h
  refine ⟨⟨_, _, hreview⟩, ha, SortedMap.contains_of_get? hc, ?_⟩
  rw [hvotes]
  rcases hv with rfl | hv
  · exact .nil
  · exact castsAll_planVotes hs ha (SortedMap.nodup_keys _) hv rfl rfl (fun _ _ => rfl) (fun _ _ => rfl)
      fun _ _ => rfl

/-- Each vote of a review is planned on the stores as they are before all of them. -/
theorem planVotes_mem {now : Seconds} {active : Nat} {ds : List DisciplineId}
    {votes : List (ContentVotePlan × Amount)} (h : op.planVotes s now active ds = .ok votes) :
    ∀ v ∈ votes, ∃ d token use active, s.expertToken op.author d = .ok token ∧
      token.use s.config wholePercent now = .ok use ∧ v.2 = token.amount ∧
      s.planContentVote now active op.author d op.content wholePercent use = .ok v.1 := by
  induction ds generalizing active votes with
  | nil =>
    cases h
    exact fun _ hv => absurd hv List.not_mem_nil
  | cons d ds ih =>
    obtain ⟨token, htoken, h⟩ := bind_eq_ok.1 h
    obtain ⟨use, huse, h⟩ := bind_eq_ok.1 h
    obtain ⟨p, hp, h⟩ := bind_eq_ok.1 h
    obtain ⟨rest, hr, h⟩ := bind_eq_ok.1 h
    cases h
    exact List.forall_mem_cons.2 ⟨⟨d, token, use, active, htoken, huse, rfl, hp⟩, ih hr⟩

/-- Each vote of a review is good on the stores before all of them, and its author's. -/
theorem casts_planVotes {now : Seconds} {active : Nat} {ds : List DisciplineId}
    {votes : List (ContentVotePlan × Amount)} (h : op.planVotes s now active ds = .ok votes)
    (ha : s.accounts.contains op.author = true) : ∀ v ∈ votes,
      v.1.vote.voter = op.author ∧ ∃ head c d reward, v.1.Casts ⟨s, head⟩ c d reward := by
  intro v hv
  obtain ⟨d, token, use, active, -, -, -, hp⟩ := planVotes_mem h v hv
  have hp : s.planContentVote now (Head.mk now 0 active).activeWeight op.author d op.content
    wholePercent use = .ok v.1 := hp
  obtain ⟨c, d, reward, hcast, hvoter, -⟩ := State.planContentVote_ok ha hp
  exact ⟨hvoter, _, c, d, reward, hcast⟩

/-- The votes of a review are its author's. -/
theorem voter_plan (h : op.plan l.head l.state = .ok plan) :
    ∀ p ∈ plan.votes, p.vote.voter = op.author := by
  obtain ⟨c, r, votes, ha, -, -, -, -, hvotes, hv⟩ := plan_admits h
  intro p hp
  rw [hvotes] at hp
  obtain ⟨v, hv', rfl⟩ := List.mem_map.1 hp
  rcases hv with rfl | hv
  · exact absurd hv' List.not_mem_nil
  · exact (casts_planVotes hv ha v hv').1

end MakeReview

end ResearchLedger
