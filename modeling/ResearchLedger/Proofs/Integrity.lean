import ResearchLedger.Proofs.PlacedRuns

/-! Referential integrity: every record of a reachable ledger stands in its place, and the indexes say
exactly what the records say. -/
namespace ResearchLedger

open SortedMap

/-- An index and the records that carry a key: the index leads from a key to the records with this key,
to all of them and to no others. -/
def Inverts {ι κ α : Type} [KeyOrder κ] (index : ι → κ → Prop) (key : α → ι) (m : SortedMap κ α) :
    Prop := ∀ i k, index i k ↔ ∃ a, m.get? k = some a ∧ key a = i

namespace Inverts

variable {ι κ α : Type} [KeyOrder κ] {index index' : ι → κ → Prop} {key : α → ι}
  {m : SortedMap κ α} {k : κ} {a : α}

theorem empty (h : ∀ i k, ¬ index i k) : Inverts index key (∅ : SortedMap κ α) := fun i k =>
  ⟨fun hk => absurd hk (h i k), fun ⟨_, ha, _⟩ => by simp at ha⟩

variable [DecidableEq κ]

/-- A new record comes into the index under its key. -/
theorem insert (h : Inverts index key m) (hk : m.get? k = none)
    (hi : ∀ i k', index' i k' ↔ (i = key a ∧ k' = k) ∨ index i k') :
    Inverts index' key (m.insert k a) := by
  intro i k'
  rw [hi, h, get?_insert]
  by_cases he : k = k'
  · subst he
    simp [hk, eq_comm]
  · simp [he, Ne.symm he]

/-- A record is changed and keeps its key. -/
theorem modify {f : α → α} (h : Inverts index key m) (hf : ∀ a, key (f a) = key a) :
    Inverts index key (m.modify k f) := by
  intro i k'
  rw [h, get?_modify]
  split
  · subst k'
    simp [hf]
  · rfl

/-- A record is replaced by one with the same key. -/
theorem replace {b : α} (h : Inverts index key m) (hm : m.get? k = some a) (hb : key b = key a) :
    Inverts index key (m.insert k b) := by
  intro i k'
  rw [h, get?_insert]
  split
  · subst k'
    simp [hm, hb]
  · rfl

/-- In an index that is a map, the new record has a key of its own. -/
theorem insert_map [KeyOrder ι] [DecidableEq ι] {index : SortedMap ι κ}
    (h : Inverts (fun i k => index.get? i = some k) key m) (hk : m.get? k = none)
    (hi : index.contains (key a) = false) :
    Inverts (fun i k' => (index.insert (key a) k).get? i = some k') key (m.insert k a) := by
  refine h.insert hk fun i k' => ?_
  have hnone : index.get? (key a) = none := by simpa [contains] using hi
  rw [get?_insert]
  by_cases he : key a = i
  · subst he
    simp [hnone, eq_comm]
  · simp [he, Ne.symm he]

end Inverts

/-- The indexes of a state lead to its records: from the permlinks to the groups, researches and
contents, and from a content to its reviews. -/
structure State.Indexed (s : State) : Prop where
  groups : Inverts (fun permlink id => s.groupPermlinks.get? permlink = some id)
    ResearchGroup.permlink s.groups
  researches : Inverts (fun k id => s.researchPermlinks.get? k = some id)
    (fun r => (r.group, r.permlink)) s.researches
  contents : Inverts (fun k id => s.contentPermlinks.get? k = some id)
    (fun c => (c.research, c.permlink)) s.contents
  reviews : Inverts (fun content id => s.reviewsByContent.contains (content, id) = true)
    Review.content s.reviews

variable {config : Config} {genesis : Genesis} {s s' : State} {l l' : Ledger} {op : Operation}

theorem MakeReview.indexed {op : MakeReview} {plan : MakeReview.Plan}
    (h : op.plan l.head l.state = .ok plan) (hl : l.state.Linked) (hi : l.state.Indexed) :
    (plan.commit l).state.Indexed := by
  obtain ⟨_, _, _, -, -, -, -, hreview, -, -⟩ := plan_admits h
  have hid : plan.review.id = l.state.nextIds.review := by rw [hreview]; rfl
  have hrecord : (plan.record l).state.Indexed :=
    { hi with
      reviews := by
        refine hi.reviews.insert (by rw [hid]; exact hl.review_none) fun content id => ?_
        change (SortedSet.add _ _).contains _ = true ↔ _
        unfold SortedSet.add
        rw [contains_insert, eq_comm, Prod.mk.injEq] }
  unfold Plan.commit
  obtain ⟨_, _, _, _, _, he⟩ := ContentVotePlan.foldl_commit plan.votes (plan.record l)
  change (plan.votes.foldl (fun l p => p.commit l) (plan.record l)).state.Indexed
  rw [he]
  exact { hrecord with }

theorem VoteForReview.indexed {op : VoteForReview} {plan : VoteForReview.Plan} {now : Seconds}
    (h : op.plan now s = .ok plan) (hl : s.Linked) (hi : s.Indexed) : (plan.commit now s).Indexed := by
  obtain ⟨r, _, _, hc⟩ := plan_casts h
  have hcontent : plan.review.content = r.content := by rw [hc.revised]
  have hreviews := hi.reviews.replace hc.review hcontent
  rw [← hc.review_id hl] at hreviews
  exact { hi with reviews := hreviews }

theorem TransferResearchTokens.indexed (op : TransferResearchTokens) (hi : s.Indexed) :
    (op.commit s).Indexed := by
  rw [commit_eq]
  refine { hi with researches := ?_ }
  dsimp only
  split
  · exact hi.researches.modify fun _ => rfl
  · exact hi.researches

theorem Operation.Effect.indexed (h : op.Effect l l') (hl : l.state.Linked) (hi : l.state.Indexed) :
    l'.state.Indexed := by
  cases op with
  | createGroup op =>
    cases h with | createGroup h =>
    exact { hi with groups := hi.groups.insert_map hl.group_none (CreateGroup.check_ok h).2 }
  | createResearch op =>
    cases h with | createResearch h =>
    exact { hi with
      researches := hi.researches.insert_map (a := op.research l.head.time l.state) hl.research_none
        (CreateResearch.check_ok h).2.1 }
  | createContent op =>
    cases h with | createContent h =>
    exact { hi with
      contents := hi.contents.insert_map (a := op.content l.head.time l.state) hl.content_none
        (CreateContent.check_ok h).2.1 }
  | makeReview => cases h with | makeReview h => exact MakeReview.indexed h hl hi
  | voteForReview => cases h with | voteForReview h => exact VoteForReview.indexed h hl hi
  | transferResearchTokens op => cases h; exact op.indexed hi
  | _ => cases h.footprint; exact { hi with }

namespace State.Indexed

theorem creditGroup {g : GroupId} {x : Amount} (hi : s.Indexed) : (s.creditGroup g x).Indexed :=
  { hi with groups := hi.groups.modify fun _ => rfl }

theorem applyReward (hi : s.Indexed) (now : Seconds) (p : RewardPlan) :
    (s.applyReward now p).Indexed :=
  applyReward_preserves (fun _ _ _ hs => { hs with }) (fun _ _ _ hs => hs.creditGroup)
    (fun _ _ _ _ _ hs => { hs with }) hi

theorem afterShares {block : Nat} {id : GrantId} {g : Grant} {shares : SortedMap GroupId Amount}
    (hi : s.Indexed) : (s.afterShares block id g shares).Indexed :=
  afterShares_preserves (fun _ _ _ hs => hs.creditGroup) (fun _ _ hs => { hs with })
    (fun _ hs => { hs with }) (fun _ _ hs => { hs with }) hi

end State.Indexed

theorem Upkeep.indexed (h : Upkeep l l') (hi : l.state.Indexed) : l'.state.Indexed := by
  cases h with
  | grant _ h =>
    obtain rfl | ⟨shares, -, rfl⟩ := State.processGrant_ok h
    · exact hi
    · exact hi.afterShares
  | partners =>
    obtain ⟨_, _, he⟩ := State.changePartners_footprint l.state l.head.time
    rw [he]
    exact { hi with }
  | returns =>
    obtain ⟨_, _, he⟩ := State.returnDelegations_footprint l.state l.head.time
    rw [he]
    exact { hi with }
  | deactivation content =>
    refine Ledger.deactivate_preserves (P := fun l => l.state.Indexed)
      (fun _ _ _ _ hi => { hi with }) ?_
    exact { hi with contents := hi.contents.modify fun _ => rfl }
  | _ => exact { hi with }

theorem Change.indexed (h : Change l l') (hl : l.state.Linked) (hi : l.state.Indexed) :
    l'.state.Indexed := by
  cases h with
  | operation h => exact h.indexed hl hi
  | reward => exact hi.applyReward _ _
  | payment h =>
    obtain ⟨_, _, _, rfl⟩ := LedgerM.payPowerDown_footprint h
    exact { hi with }
  | upkeep h => exact h.indexed hi

theorem State.Indexed.ofGenesis (h : State.ofGenesis config genesis = .ok s) : s.Indexed := by
  refine State.ofGenesis_invariant h (fun _ => ?_) fun s s' h hi => by cases h <;> exact { hi with }
  constructor <;> exact .empty fun _ _ h => by simp [State.empty, contains] at h

/-- In every ledger that a genesis leads to, each record stands under the key that it carries, below
the counter of its kind, and names only what exists; the contents that it refers to are older; accounts
and authorities come in pairs; and the indexes invert the permlinks and the contents of reviews. -/
theorem Ledger.Reachable.integrity (h : l.Reachable config genesis) :
    l.state.Placed l.state.directory ∧ l.state.Indexed := by
  refine ⟨h.placed, ?_⟩
  refine (h.invariant (P := fun l => l.state.Linked ∧ l.state.Indexed) (fun l₀ h₀ => ?_)
    fun _ _ hc hl => ⟨hc.linked hl.1, hc.indexed hl.1 hl.2⟩).2
  exact ⟨.ofGenesis (ofGenesis_ok h₀).1, .ofGenesis (ofGenesis_ok h₀).1⟩

namespace Sample

/-- After the publication bob reviews the content, and alice opens a proposal in her group. -/
def review : List Step :=
  publish ++ [.operation (.makeReview ⟨bob, 0, "Sound", true, [], []⟩),
    .operation (.createProposal ⟨alice, 0, "Go on", 600000⟩)]

def reviewed : Ledger := (founded 1 300 20).after review

theorem reviewed_integrity : reviewed.state.contentPermlinks.get? (0, "content") = some 0 ∧
    reviewed.state.reviewsByContent.contains (0, 0) = true ∧
    (reviewed.state.reviews.get? 0).map Review.author = some bob ∧
    reviewed.state.proposals.contains 0 = true ∧
    reviewed.state.Placed reviewed.state.directory ∧ reviewed.state.Indexed :=
  have h := @Ledger.Reachable.integrity {} (founders 1 300 20) reviewed
    ⟨founded 1 300 20, review, rfl, by decide, rfl⟩
  ⟨by decide +kernel, by decide +kernel, by decide +kernel, by decide +kernel, h.1, h.2⟩

end Sample

end ResearchLedger
