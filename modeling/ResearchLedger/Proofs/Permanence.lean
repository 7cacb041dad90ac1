import ResearchLedger.Proofs.Directory
import ResearchLedger.Proofs.Founding

/-! What is recorded stays: no request takes a record out of the stores that only grow, votes are never
rewritten, and contents, reviews and totals change in one direction alone. -/
namespace ResearchLedger

open SortedMap

section Maps

variable {κ β α : Type} [KeyOrder κ] [KeyOrder β] {R : α → α → Prop} {m m' m'' : SortedMap κ α}
  {k : κ} {v : α}

/-- Every record of the first map stands in the second, changed at most as `R` allows. -/
def SortedMap.Retains (R : α → α → Prop) (m m' : SortedMap κ α) : Prop :=
  ∀ k, Remains R (m.get? k) (m'.get? k)

namespace SortedMap.Retains

theorem refl (hR : ∀ a, R a a) : Retains R m m := fun _ => .of_eq hR rfl

theorem trans (hR : ∀ a b c, R a b → R b c → R a c) (h : Retains R m m') (h' : Retains R m' m'') :
    Retains R m m'' := fun k => (h k).trans hR (h' k)

variable [DecidableEq κ]

theorem insert (hR : ∀ a, R a a) (hv : ∀ a, m.get? k = some a → R a v) :
    Retains R m (m.insert k v) := by
  intro k' a ha
  rw [get?_insert]
  split
  · subst k'
    exact ⟨v, rfl, hv a ha⟩
  · exact ⟨a, ha, hR a⟩

theorem insert_new (hR : ∀ a, R a a) (hk : m.get? k = none) : Retains R m (m.insert k v) :=
  insert hR fun a ha => by rw [hk] at ha; cases ha

theorem modify {f : α → α} (hR : ∀ a, R a a) (hf : ∀ a, m.get? k = some a → R a (f a)) :
    Retains R m (m.modify k f) := by
  cases hk : m.get? k with
  | none =>
    intro k' a ha
    have hne : k ≠ k' := by rintro rfl; rw [hk] at ha; cases ha
    exact ⟨a, (get?_modify_of_ne hne).trans ha, hR a⟩
  | some v =>
    rw [modify_of_some hk]
    exact insert hR fun a ha => by cases hk.symm.trans ha; exact hf v hk

/-- An entry that a map of maps does not have takes nothing from the others. -/
theorem insert_inner [DecidableEq β] {m : SortedMap κ (SortedMap β α)} {j : β} (hR : ∀ a, R a a)
    (hj : (m.getD k ∅).get? j = none) :
    Retains (Retains R) m (m.insert k ((m.getD k ∅).insert j v)) := by
  refine insert (fun _ => refl hR) fun inner hinner => ?_
  rw [getD_eq, hinner] at hj ⊢
  exact insert_new hR hj

end SortedMap.Retains

end Maps

/-- A content later on: as it was, or no longer active. -/
inductive Content.Later (c : Content) : Content → Prop
  | same : Later c c
  | ended (h : c.activity = .active) : Later c { c with activity := .inactive }

/-- A review later on: only its weights by discipline may differ. -/
def Review.Later (r r' : Review) : Prop :=
  r' = { r with
    rewardWeights := r'.rewardWeights
    curationWeights := r'.curationWeights
    weightModifiers := r'.weightModifiers }

/-- Totals later on: what counts for ever has not become less. -/
structure VoteTotals.Later (t t' : VoteTotals) : Prop where
  weight : t.weight ≤ t'.weight
  researchWeight : t.researchWeight ≤ t'.researchWeight
  curatorsWeight : t.curatorsWeight ≤ t'.curatorsWeight

/-- A discipline later on: its reviews do not weigh less. -/
def Discipline.Later (d d' : Discipline) : Prop := d.activeReviewWeight ≤ d'.activeReviewWeight

/-- Counters later on: no number is given a second time. -/
structure IdCounters.Later (x x' : IdCounters) : Prop where
  group : x.group ≤ x'.group
  research : x.research ≤ x'.research
  content : x.content ≤ x'.content
  review : x.review ≤ x'.review
  grant : x.grant ≤ x'.grant
  proposal : x.proposal ≤ x'.proposal
  expiringDelegation : x.expiringDelegation ≤ x'.expiringDelegation

/-- The second state has all that the stores of the first record for ever. -/
structure State.Retains (s s' : State) : Prop where
  accounts : s.accounts.Within s'.accounts
  authorities : s.authorities.Within s'.authorities
  disciplines : SortedMap.Retains Discipline.Later s.disciplines s'.disciplines
  groups : s.groups.Within s'.groups
  groupTokens : SortedMap.Retains Within s.groupTokens s'.groupTokens
  researches : s.researches.Within s'.researches
  contents : SortedMap.Retains Content.Later s.contents s'.contents
  reviews : SortedMap.Retains Review.Later s.reviews s'.reviews
  reviewsByContent : SortedMap.Within s.reviewsByContent s'.reviewsByContent
  votes : SortedMap.Retains (SortedMap.Retains Eq) s.votes s'.votes
  reviewVotes : SortedMap.Retains (SortedMap.Retains Eq) s.reviewVotes s'.reviewVotes
  voteTotals : SortedMap.Retains VoteTotals.Later s.voteTotals s'.voteTotals
  witnesses : s.witnesses.Within s'.witnesses
  proposals : s.proposals.Within s'.proposals
  groupPermlinks : SortedMap.Retains Eq s.groupPermlinks s'.groupPermlinks
  researchPermlinks : SortedMap.Retains Eq s.researchPermlinks s'.researchPermlinks
  contentPermlinks : SortedMap.Retains Eq s.contentPermlinks s'.contentPermlinks
  nextIds : s.nextIds.Later s'.nextIds

variable {s s' s'' : State} {l l' : Ledger} {op : Operation} {config : Config} {genesis : Genesis}

theorem Content.Later.trans (a b c : Content) (h : a.Later b) (h' : b.Later c) : a.Later c := by
  cases h with
  | same => exact h'
  | ended ha =>
    cases h' with
    | same => exact .ended ha
    | ended hb => cases hb

theorem Review.Later.trans (a b c : Review) (h : a.Later b) (h' : b.Later c) : a.Later c := by
  unfold Later at h h' ⊢
  rw [h', h]

namespace VoteTotals.Later

theorem refl (t : VoteTotals) : t.Later t := ⟨le_rfl, le_rfl, le_rfl⟩

theorem trans (t u v : VoteTotals) (h : t.Later u) (h' : u.Later v) : t.Later v :=
  ⟨h.1.trans h'.1, h.2.trans h'.2, h.3.trans h'.3⟩

/-- A vote adds to the totals. -/
theorem raise (t : VoteTotals) (tokens reward curator : Nat) (active : Bool) :
    t.Later (t.raise tokens reward curator active) :=
  ⟨Nat.le_add_right .., Nat.le_add_right .., Nat.le_add_right ..⟩

end VoteTotals.Later

namespace IdCounters.Later

theorem refl (x : IdCounters) : x.Later x := ⟨le_rfl, le_rfl, le_rfl, le_rfl, le_rfl, le_rfl, le_rfl⟩

theorem trans {x y z : IdCounters} (h : x.Later y) (h' : y.Later z) : x.Later z where
  group := h.group.trans h'.group
  research := h.research.trans h'.research
  content := h.content.trans h'.content
  review := h.review.trans h'.review
  grant := h.grant.trans h'.grant
  proposal := h.proposal.trans h'.proposal
  expiringDelegation := h.expiringDelegation.trans h'.expiringDelegation

end IdCounters.Later

namespace State.Retains

theorem refl (s : State) : s.Retains s where
  accounts := .refl
  authorities := .refl
  disciplines := .refl fun _ => le_rfl
  groups := .refl
  groupTokens := .refl fun _ => .refl
  researches := .refl
  contents := .refl fun _ => .same
  reviews := .refl fun _ => rfl
  reviewsByContent := .refl
  votes := .refl fun _ => .refl fun _ => rfl
  reviewVotes := .refl fun _ => .refl fun _ => rfl
  voteTotals := .refl .refl
  witnesses := .refl
  proposals := .refl
  groupPermlinks := .refl fun _ => rfl
  researchPermlinks := .refl fun _ => rfl
  contentPermlinks := .refl fun _ => rfl
  nextIds := .refl _

theorem trans (h : s.Retains s') (h' : s'.Retains s'') : s.Retains s'' where
  accounts := h.accounts.trans h'.accounts
  authorities := h.authorities.trans h'.authorities
  disciplines := h.disciplines.trans (fun _ _ _ => Nat.le_trans) h'.disciplines
  groups := h.groups.trans h'.groups
  groupTokens := h.groupTokens.trans (fun _ _ _ => .trans) h'.groupTokens
  researches := h.researches.trans h'.researches
  contents := h.contents.trans Content.Later.trans h'.contents
  reviews := h.reviews.trans Review.Later.trans h'.reviews
  reviewsByContent := h.reviewsByContent.trans h'.reviewsByContent
  votes := h.votes.trans (fun _ _ _ => .trans fun _ _ _ => Eq.trans) h'.votes
  reviewVotes := h.reviewVotes.trans (fun _ _ _ => .trans fun _ _ _ => Eq.trans) h'.reviewVotes
  voteTotals := h.voteTotals.trans VoteTotals.Later.trans h'.voteTotals
  witnesses := h.witnesses.trans h'.witnesses
  proposals := h.proposals.trans h'.proposals
  groupPermlinks := h.groupPermlinks.trans (fun _ _ _ => Eq.trans) h'.groupPermlinks
  researchPermlinks := h.researchPermlinks.trans (fun _ _ _ => Eq.trans) h'.researchPermlinks
  contentPermlinks := h.contentPermlinks.trans (fun _ _ _ => Eq.trans) h'.contentPermlinks
  nextIds := h.nextIds.trans h'.nextIds

end State.Retains

namespace ContentVotePlan

variable {p : ContentVotePlan} {c : Content} {d : Discipline} {reward : Nat}

/-- A vote is a new record, and it adds to its totals. -/
theorem Casts.retains (h : p.Casts l c d reward) (hd : d.id = p.key.2) :
    l.state.Retains (p.commit l).state := by
  have hid : p.discipline.id = p.key.2 := by rw [h.raised]; exact hd
  refine { State.Retains.refl l.state with disciplines := ?_, votes := ?_, voteTotals := ?_ }
  · rw [disciplines_commit, hid]
    refine .insert (fun _ => le_rfl) fun e he => ?_
    cases h.discipline.symm.trans he
    rw [h.raised]
    exact le_refl d.activeReviewWeight
  · rw [votes_commit]
    exact .insert_inner (fun _ => rfl) h.fresh
  · rw [voteTotals_commit]
    refine .insert .refl fun t ht => ?_
    rw [h.totals, State.totalsBefore, ht]
    exact .raise ..

theorem CastsAll.retains {ps : List ContentVotePlan} (h : CastsAll ps l) (hs : l.state.Linked) :
    l.state.Retains (ps.foldl (fun l p => p.commit l) l).state := by
  induction h with
  | nil => exact .refl _
  | cons h _ ih => exact (h.retains (hs.disciplines _ _ h.discipline)).trans (ih (h.linked hs))

end ContentVotePlan

theorem VoteForReview.retains {op : VoteForReview} {plan : VoteForReview.Plan} {now : Seconds}
    (h : op.plan now s = .ok plan) (hs : s.Linked) : s.Retains (plan.commit now s) := by
  obtain ⟨r, d, reward, hc⟩ := plan_casts h
  refine { State.Retains.refl s with disciplines := ?_, reviews := ?_, reviewVotes := ?_ }
  · refine .insert (fun _ => le_rfl) fun e he => ?_
    rw [hc.discipline_id hs] at he
    cases hc.discipline.symm.trans he
    rw [hc.raised]
    exact Nat.le_add_right ..
  · refine .insert (fun _ => rfl) fun e he => ?_
    rw [hc.review_id hs] at he
    cases hc.review.symm.trans he
    rw [hc.revised]
    rfl
  · refine .insert_inner (fun _ => rfl) ?_
    rw [hc.key.1, hc.key.2, hc.voter]
    exact hc.fresh

theorem MakeReview.retains {op : MakeReview} {plan : MakeReview.Plan} (hs : l.state.Linked)
    (h : op.plan l.head l.state = .ok plan) : l.state.Retains (plan.commit l).state := by
  obtain ⟨⟨_, _, hreview⟩, -, -, hv⟩ := plan_ok hs.disciplines h
  have hid : plan.review.id = l.state.nextIds.review := by rw [hreview]; rfl
  have hrecord : l.state.Retains (plan.record l).state :=
    { State.Retains.refl l.state with
      reviews := .insert_new (fun _ => rfl) (by rw [hid]; exact hs.review_none)
      reviewsByContent := .insert
      nextIds := { IdCounters.Later.refl l.state.nextIds with review := Nat.le_succ _ } }
  exact hrecord.trans (hv.retains (MakeReview.record_linked hs h))

theorem CreateGroup.retains {op : CreateGroup} {u : Unit} (h : op.check s = .ok u) :
    s.Retains (op.commit s) :=
  { State.Retains.refl s with
    groups := .insert
    groupTokens := .insert (fun _ => .refl) fun holders hk => by
      rw [getD_eq, hk]
      exact .insert
    groupPermlinks := .insert_new (fun _ => rfl) (contains_eq_false_iff.1 (check_ok h).2)
    nextIds := { IdCounters.Later.refl s.nextIds with group := Nat.le_succ _ } }

theorem CreateResearch.retains {op : CreateResearch} {u : Unit} (now : Seconds)
    (h : op.check s = .ok u) : s.Retains (op.commit now s) :=
  { State.Retains.refl s with
    researches := .insert
    researchPermlinks := .insert_new (fun _ => rfl) (contains_eq_false_iff.1 (check_ok h).2.1)
    nextIds := { IdCounters.Later.refl s.nextIds with research := Nat.le_succ _ } }

theorem CreateContent.retains {op : CreateContent} {u : Unit} (now : Seconds) (hs : s.Linked)
    (h : op.check s = .ok u) : s.Retains (op.commit now s) :=
  { State.Retains.refl s with
    contents := .insert_new (fun _ => .same) hs.content_none
    contentPermlinks := .insert_new (fun _ => rfl) (contains_eq_false_iff.1 (check_ok h).2.1)
    nextIds := { IdCounters.Later.refl s.nextIds with content := Nat.le_succ _ } }

theorem DelegateCommonTokens.Plan.nextIds_later (plan : Plan) (s : State) :
    s.nextIds.Later (plan.commit s).nextIds := by
  obtain ⟨_, _, delegation, _, _, expiring⟩ := plan
  cases expiring with
  | none => cases delegation <;> exact .refl _
  | some =>
    have hnext : s.nextIds.Later
        { s.nextIds with expiringDelegation := s.nextIds.expiringDelegation + 1 } :=
      { IdCounters.Later.refl s.nextIds with expiringDelegation := Nat.le_succ _ }
    cases delegation <;> exact hnext

namespace Operation.Effect

theorem authorities_within (h : op.Effect l l') :
    l.state.authorities.Within l'.state.authorities := by
  cases op with
  | accountCreate op =>
    cases h
    dsimp only
    rw [AccountCreate.authorities_commit]
    exact .insert
  | accountUpdate op =>
    cases h
    intro n hn
    refine contains_modify.trans ?_
    cases op.owner with
    | none => exact hn
    | some owner =>
      dsimp only
      rw [State.authorities_replaceOwner]
      exact contains_modify.trans hn
  | recoverAccount op =>
    cases h
    dsimp only
    rw [RecoverAccount.authorities_commit]
    exact .modify
  | _ => cases h.footprint; exact .refl

theorem proposals_within (h : op.Effect l l') : l.state.proposals.Within l'.state.proposals := by
  cases op with
  | createProposal => cases h; exact .insert
  | voteForProposal => cases h; exact .modify
  | _ => cases h.footprint; exact .refl

theorem retains (h : op.Effect l l') (hs : l.state.Linked) : l.state.Retains l'.state := by
  have hd := h.directory
  have ha := h.authorities_within
  have hp := h.proposals_within
  have hb := State.Retains.refl l.state
  cases op with
  | voteForContent =>
    cases h with | voteForContent hplan =>
    obtain ⟨_, d, _, hc, -⟩ := VoteForContent.plan_ok hplan
    exact hc.retains (hs.disciplines _ _ hc.discipline)
  | voteForReview => cases h with | voteForReview hplan => exact VoteForReview.retains hplan hs
  | makeReview => cases h with | makeReview hplan => exact MakeReview.retains hs hplan
  | createGroup => cases h with | createGroup hcheck => exact CreateGroup.retains hcheck
  | createResearch => cases h with | createResearch hcheck => exact CreateResearch.retains _ hcheck
  | createContent => cases h with | createContent hcheck => exact CreateContent.retains _ hs hcheck
  | delegateCommonTokens =>
    have hn : l.state.nextIds.Later l'.state.nextIds := by
      cases h with | @delegateCommonTokens _ plan _ => exact plan.nextIds_later l.state
    cases h.footprint
    exact { hb with accounts := hd.account, nextIds := hn }
  | createGrant =>
    cases h
    exact { hb with
      accounts := hd.account
      nextIds := { IdCounters.Later.refl l.state.nextIds with grant := Nat.le_succ _ } }
  | createProposal =>
    cases h
    exact { hb with
      proposals := hp
      nextIds := { IdCounters.Later.refl l.state.nextIds with proposal := Nat.le_succ _ } }
  | _ =>
    cases h.footprint
    exact { hb with
      accounts := hd.account, authorities := ha, researches := hd.research
      witnesses := hd.witness, proposals := hp }

end Operation.Effect

theorem Ledger.retains_deactivate (l : Ledger) (content : ContentId) :
    l.state.Retains (l.deactivate content).state := by
  refine deactivate_preserves (P := fun l' => l.state.Retains l'.state) ?_ ?_
  · intro l₁ d t ht h
    refine h.trans { State.Retains.refl l₁.state with disciplines := ?_, voteTotals := ?_ }
    · exact .modify (fun _ => le_rfl) fun _ _ => le_rfl
    · refine .insert .refl fun t' ht' => ?_
      cases ht.symm.trans ht'
      exact ⟨le_rfl, le_rfl, le_rfl⟩
  · refine { State.Retains.refl l.state with contents := .modify (fun _ => .same) fun c _ => ?_ }
    cases ha : c.activity with
    | active => exact .ended ha
    | inactive =>
      rw [← ha]
      exact .same

theorem Upkeep.proposals_within (h : Upkeep l l') :
    l.state.proposals.Within l'.state.proposals := by
  cases h with
  | proposals now =>
    intro id hid
    obtain ⟨p, hp⟩ := contains_iff.1 hid
    exact contains_iff.2 ⟨_, get?_mapValues.trans (by rw [hp]; rfl)⟩
  | grant _ h =>
    obtain ⟨_, _, _, rfl⟩ := State.processGrant_footprint h
    exact .refl
  | partners =>
    obtain ⟨_, _, he⟩ := State.changePartners_footprint l.state l.head.time
    rw [he]
    exact .refl
  | returns =>
    obtain ⟨_, _, he⟩ := State.returnDelegations_footprint l.state l.head.time
    rw [he]
    exact .refl
  | deactivation content =>
    obtain ⟨_, _, _, _, he⟩ := l.deactivate_footprint content
    rw [he]
    exact .refl
  | _ => exact .refl

theorem Upkeep.retains (h : Upkeep l l') : l.state.Retains l'.state := by
  have hd := h.directory
  have hp := h.proposals_within
  cases h.footprint with
  | deactivation content => exact l.retains_deactivate content
  | rest =>
    exact { State.Retains.refl l.state with
      accounts := hd.account, groups := hd.group, proposals := hp }

theorem Change.retains (h : Change l l') (hs : l.state.Linked) : l.state.Retains l'.state := by
  have hd := h.directory
  cases h with
  | operation h => exact h.retains hs
  | @reward _ plan =>
    obtain ⟨_, _, _, he⟩ := State.applyReward_footprint l.state l.head.time plan
    rw [he] at hd ⊢
    exact { State.Retains.refl l.state with accounts := hd.account, groups := hd.group }
  | payment h =>
    obtain ⟨_, _, _, rfl⟩ := LedgerM.payPowerDown_footprint h
    exact { State.Retains.refl l.state with accounts := hd.account, witnesses := hd.witness }
  | upkeep h => exact h.retains

/-- From a reachable ledger on, whatever is asked of it and whether it is granted or refused, no account,
authority, discipline, group, research, content, review, vote, witness, proposal or index entry is ever
removed; votes stay as they were cast, a content at most ceases to be active, a review changes in its
weights alone, and the totals, the weights of reviews and the counters never fall. -/
theorem Ledger.Reachable.records_stay (h : l.Reachable config genesis) {steps : List Step}
    (hsteps : ∀ step ∈ steps, step.Storable) :
    l.state.Retains (l.after steps).state ∧ ∀ l' ∈ l.visited steps, l.state.Retains l'.state := by
  obtain ⟨hend, hvisited⟩ := visited_invariant
    (P := fun l' => l'.state.Linked ∧ l.state.Retains l'.state) hsteps
    (fun _ _ hc hl => ⟨hc.linked hl.1, hl.2.trans (hc.retains hl.1)⟩) ⟨h.linked, .refl _⟩
  exact ⟨hend.2, fun l' hl' => (hvisited l' hl').2⟩

namespace Sample

/-- The content that alice has published and voted for ceases to be active; her vote stays. -/
theorem expired_stays :
    published.state.Retains (published.after [.endBlock 1209600]).state ∧
      (published.state.contents.get? 0).map (·.activity) = some .active ∧
      ((published.after [.endBlock 1209600]).state.contents.get? 0).map (·.activity) =
        some .inactive ∧
      (published.state.vote? alice 0 0).map (·.tokens) = some 1 ∧
      (published.after [.endBlock 1209600]).state.vote? alice 0 0 =
        published.state.vote? alice 0 0 :=
  ⟨(Ledger.Reachable.records_stay published_reachable (by decide)).1, by decide +kernel, by decide +kernel,
    by decide +kernel, by decide +kernel⟩

end Sample

end ResearchLedger
