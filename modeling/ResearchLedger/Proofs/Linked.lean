import ResearchLedger.Proofs.Records

/-! References lead to records: identifiers agree with keys, counters are ahead, nothing dangles. -/
namespace ResearchLedger

variable {s s' : State} {l l' : Ledger} {n : AccountName} {events : List Event}

/-- Every record stands under its own key, below the counter, and refers to records that exist. -/
structure State.Linked (s : State) : Prop where
  accounts : s.accounts.All fun n a => a.name = n
  disciplines : s.disciplines.All fun id d => d.id = id
  groups : s.groups.All fun id _ => id < s.nextIds.group
  researches : s.researches.All fun id r =>
    r.id = id ∧ id < s.nextIds.research ∧ s.groups.contains r.group = true
  contents : s.contents.All fun id c => c.id = id ∧ id < s.nextIds.content ∧
    s.researches.contains c.research = true ∧ ∀ x ∈ c.references, s.contents.contains x = true
  reviews : s.reviews.All fun id r =>
    r.id = id ∧ id < s.nextIds.review ∧ s.accounts.contains r.author = true
  grants : s.grants.All fun id g => id < s.nextIds.grant ∧ s.accounts.contains g.owner = true
  voteTotals : s.voteTotals.All fun k _ =>
    s.contents.contains k.1 = true ∧ s.disciplines.contains k.2 = true
  votes : s.votes.All fun k vs => s.voteTotals.contains k = true ∧
    vs.All fun n v => v.voter = n ∧ s.accounts.contains n = true
  reviewVotes : s.reviewVotes.All fun k vs => s.reviews.contains k.1 = true ∧
    vs.All fun n v => v.voter = n ∧ s.accounts.contains n = true
  researchTokens : s.researchTokens.All fun id hs => s.researches.contains id = true ∧
    hs.All fun n _ => s.accounts.contains n = true
  withdrawRoutes : s.withdrawRoutes.All fun _ rs =>
    rs.All fun t r => r.target = t ∧ s.accounts.contains t = true

namespace State.Linked

/-- Links survive when accounts are added or changed under their names. -/
theorem withAccounts {accounts : SortedMap AccountName Account} (h : s.Linked)
    (hw : s.accounts.Within accounts) (hn : accounts.All fun n a => a.name = n) :
    Linked { s with accounts } where
  accounts := hn
  disciplines := h.disciplines
  groups := h.groups
  researches := h.researches
  contents := h.contents
  reviews := h.reviews.mono fun _ _ h => ⟨h.1, h.2.1, hw _ h.2.2⟩
  grants := h.grants.mono fun _ _ h => ⟨h.1, hw _ h.2⟩
  voteTotals := h.voteTotals
  votes := h.votes.mono fun _ _ h => ⟨h.1, h.2.mono fun _ _ h => ⟨h.1, hw _ h.2⟩⟩
  reviewVotes := h.reviewVotes.mono fun _ _ h => ⟨h.1, h.2.mono fun _ _ h => ⟨h.1, hw _ h.2⟩⟩
  researchTokens := h.researchTokens.mono fun _ _ h => ⟨h.1, h.2.mono fun _ _ h => hw _ h⟩
  withdrawRoutes := h.withdrawRoutes.mono fun _ _ h => h.mono fun _ _ h => ⟨h.1, hw _ h.2⟩

theorem keepsNames {accounts : SortedMap AccountName Account} (h : s.Linked)
    (hk : KeepsNames s.accounts accounts) : Linked { s with accounts } := by
  refine h.withAccounts hk.within fun n a ha => ?_
  obtain ⟨b, hb, hn⟩ := hk.exists_of_get? ha
  exact hn.trans (h.accounts n b hb)

/-- Links survive when groups are changed in place. -/
theorem withGroups {groups : SortedMap GroupId ResearchGroup} (h : s.Linked)
    (hg : ∀ id, groups.contains id = s.groups.contains id) : Linked { s with groups } where
  accounts := h.accounts
  disciplines := h.disciplines
  groups := by
    intro id g hid
    obtain ⟨g', hg'⟩ := SortedMap.contains_iff.1 ((hg id).symm.trans (SortedMap.contains_of_get? hid))
    exact h.groups id g' hg'
  researches := h.researches.mono fun _ _ h => ⟨h.1, h.2.1, (hg _).trans h.2.2⟩
  contents := h.contents
  reviews := h.reviews
  grants := h.grants
  voteTotals := h.voteTotals
  votes := h.votes
  reviewVotes := h.reviewVotes
  researchTokens := h.researchTokens
  withdrawRoutes := h.withdrawRoutes

theorem name_eq {a : Account} (h : s.Linked) (ha : s.accounts.get? n = some a) : a.name = n :=
  h.accounts n a ha

theorem content_none (h : s.Linked) : s.contents.get? s.nextIds.content = none :=
  h.contents.get?_eq_none fun _ hc => Nat.lt_irrefl _ hc.2.1

theorem research_none (h : s.Linked) : s.researches.get? s.nextIds.research = none :=
  h.researches.get?_eq_none fun _ hr => Nat.lt_irrefl _ hr.2.1

theorem group_none (h : s.Linked) : s.groups.get? s.nextIds.group = none :=
  h.groups.get?_eq_none fun _ hg => Nat.lt_irrefl _ hg

theorem review_none (h : s.Linked) : s.reviews.get? s.nextIds.review = none :=
  h.reviews.get?_eq_none fun _ hr => Nat.lt_irrefl _ hr.2.1

theorem grant_none (h : s.Linked) : s.grants.get? s.nextIds.grant = none :=
  h.grants.get?_eq_none fun _ hg => Nat.lt_irrefl _ hg.1

end State.Linked

end ResearchLedger
