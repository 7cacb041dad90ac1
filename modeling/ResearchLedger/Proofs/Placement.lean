import ResearchLedger.Proofs.Directory

/-! Records in their place: each carries the key under which it is stored, and names only what stands in
a directory. -/
namespace ResearchLedger

variable {d d' : Directory} {n m : AccountName}

/-- The accounts that an authority names exist. -/
def Authority.Known (d : Directory) (a : Authority) : Prop := ∀ n ∈ a.namedAccounts, d.account n

structure Account.Placed (d : Directory) (n : AccountName) (a : Account) : Prop where
  name : a.name = n
  proxy : ∀ m ∈ a.proxy, d.account m
  recoveryPartner : ∀ m ∈ a.recoveryPartner, d.account m

structure AccountAuthority.Placed (d : Directory) (n : AccountName) (a : AccountAuthority) : Prop where
  account : a.account = n
  owner : a.owner.Known d
  active : a.active.Known d
  posting : a.posting.Known d

structure ReplacedOwner.Placed (d : Directory) (n : AccountName) (h : ReplacedOwner) : Prop where
  account : h.account = n
  authority : h.authority.Known d

structure RecoveryRequest.Placed (d : Directory) (n : AccountName) (r : RecoveryRequest) : Prop where
  account : r.account = n
  known : d.account n
  newOwner : r.newOwner.Known d

structure PartnerChange.Placed (d : Directory) (n : AccountName) (c : PartnerChange) : Prop where
  account : c.account = n
  known : d.account n
  partner : d.account c.partner

structure WithdrawRoute.Placed (d : Directory) (n m : AccountName) (r : WithdrawRoute) : Prop where
  source : r.source = n
  target : r.target = m
  known : d.account m

structure Delegation.Placed (d : Directory) (k : AccountName × AccountName) (x : Delegation) : Prop where
  delegator : x.delegator = k.1
  delegatee : x.delegatee = k.2
  known : d.account k.1 ∧ d.account k.2

structure ExpiringDelegation.Placed (d : Directory) (k : Seconds × Nat) (x : ExpiringDelegation) :
    Prop where
  expiration : x.expiration = k.1
  delegator : d.account x.delegator

structure ExpertToken.Placed (d : Directory) (n : AccountName) (id : DisciplineId) (t : ExpertToken) :
    Prop where
  account : t.account = n
  discipline : t.discipline = id
  known : d.discipline id

structure Vote.Placed (d : Directory) (k : ContentId × DisciplineId) (n : AccountName) (v : Vote) :
    Prop where
  content : v.content = k.1
  discipline : v.discipline = k.2
  voter : v.voter = n
  known : d.account n
  research : d.research v.research

structure ReviewVote.Placed (d : Directory) (k : ReviewId × DisciplineId) (n : AccountName)
    (v : ReviewVote) : Prop where
  review : v.review = k.1
  discipline : v.discipline = k.2
  voter : v.voter = n
  known : d.account n

structure VoteTotals.Placed (d : Directory) (k : ContentId × DisciplineId) (t : VoteTotals) : Prop where
  content : t.content = k.1
  discipline : t.discipline = k.2
  known : d.content k.1 ∧ d.discipline k.2
  research : d.research t.research

structure Discipline.Placed (d : Directory) (k : DisciplineId) (x : Discipline) : Prop where
  id : x.id = k
  parent : ∀ p ∈ x.parent, d.discipline p

structure Research.Placed (d : Directory) (k : ResearchId) (r : Research) : Prop where
  id : r.id = k
  group : d.group r.group
  disciplines : r.disciplines.All fun x _ => d.discipline x

/-- The references of a content are older than the content itself. -/
structure Content.Placed (d : Directory) (k : ContentId) (c : Content) : Prop where
  id : c.id = k
  research : d.research c.research
  authors : ∀ n ∈ c.authors, d.account n
  references : ∀ x ∈ c.references, d.content x ∧ x < k

structure Review.Placed (d : Directory) (k : ReviewId) (r : Review) : Prop where
  id : r.id = k
  content : d.content r.content
  author : d.account r.author
  references : ∀ x ∈ r.references, d.content x
  disciplines : r.disciplines.All fun x _ => d.discipline x
  rewardWeights : r.rewardWeights.All fun x _ => d.discipline x
  curationWeights : r.curationWeights.All fun x _ => d.discipline x
  weightModifiers : r.weightModifiers.All fun x _ => d.discipline x
  expertiseUsed : r.expertiseUsed.All fun x _ => d.discipline x

structure Witness.Placed (d : Directory) (n : AccountName) (w : Witness) : Prop where
  owner : w.owner = n
  known : d.account n

structure Grant.Placed (d : Directory) (k : GrantId) (g : Grant) : Prop where
  id : g.id = k
  owner : d.account g.owner
  discipline : d.discipline g.discipline

structure Proposal.Placed (d : Directory) (k : ProposalId) (p : Proposal) : Prop where
  id : p.id = k
  group : d.group p.group
  creator : d.account p.creator
  voters : p.voters.All fun n _ => d.account n

/-! A record stays in its place when the directory grows. -/

section

variable (hd : d.Within d')
include hd

theorem Authority.Known.mono {a : Authority} (h : a.Known d) : a.Known d' :=
  fun n hn => hd.account n (h n hn)

theorem Account.Placed.mono {a : Account} (h : a.Placed d n) : a.Placed d' n :=
  { h with
    proxy := fun m hm => hd.account m (h.proxy m hm)
    recoveryPartner := fun m hm => hd.account m (h.recoveryPartner m hm) }

theorem AccountAuthority.Placed.mono {a : AccountAuthority} (h : a.Placed d n) : a.Placed d' n :=
  ⟨h.account, h.owner.mono hd, h.active.mono hd, h.posting.mono hd⟩

theorem ReplacedOwner.Placed.mono {x : ReplacedOwner} (h : x.Placed d n) : x.Placed d' n :=
  ⟨h.account, h.authority.mono hd⟩

theorem RecoveryRequest.Placed.mono {r : RecoveryRequest} (h : r.Placed d n) : r.Placed d' n :=
  ⟨h.account, hd.account _ h.known, h.newOwner.mono hd⟩

theorem PartnerChange.Placed.mono {c : PartnerChange} (h : c.Placed d n) : c.Placed d' n :=
  ⟨h.account, hd.account _ h.known, hd.account _ h.partner⟩

theorem WithdrawRoute.Placed.mono {r : WithdrawRoute} (h : r.Placed d n m) : r.Placed d' n m :=
  ⟨h.source, h.target, hd.account _ h.known⟩

theorem Delegation.Placed.mono {k : AccountName × AccountName} {x : Delegation} (h : x.Placed d k) :
    x.Placed d' k :=
  ⟨h.delegator, h.delegatee, hd.account _ h.known.1, hd.account _ h.known.2⟩

theorem ExpiringDelegation.Placed.mono {k : Seconds × Nat} {x : ExpiringDelegation}
    (h : x.Placed d k) : x.Placed d' k :=
  ⟨h.expiration, hd.account _ h.delegator⟩

theorem ExpertToken.Placed.mono {k : DisciplineId} {t : ExpertToken} (h : t.Placed d n k) :
    t.Placed d' n k :=
  ⟨h.account, h.discipline, hd.discipline _ h.known⟩

theorem Vote.Placed.mono {k : ContentId × DisciplineId} {v : Vote} (h : v.Placed d k n) :
    v.Placed d' k n :=
  { h with known := hd.account _ h.known, research := hd.research _ h.research }

theorem ReviewVote.Placed.mono {k : ReviewId × DisciplineId} {v : ReviewVote} (h : v.Placed d k n) :
    v.Placed d' k n :=
  { h with known := hd.account _ h.known }

theorem VoteTotals.Placed.mono {k : ContentId × DisciplineId} {t : VoteTotals} (h : t.Placed d k) :
    t.Placed d' k :=
  { h with
    known := ⟨hd.content _ h.known.1, hd.discipline _ h.known.2⟩
    research := hd.research _ h.research }

theorem Discipline.Placed.mono {k : DisciplineId} {x : Discipline} (h : x.Placed d k) :
    x.Placed d' k :=
  ⟨h.id, fun p hp => hd.discipline p (h.parent p hp)⟩

theorem Research.Placed.mono {k : ResearchId} {r : Research} (h : r.Placed d k) : r.Placed d' k :=
  ⟨h.id, hd.group _ h.group, h.disciplines.mono fun x _ => hd.discipline x⟩

theorem Content.Placed.mono {k : ContentId} {c : Content} (h : c.Placed d k) : c.Placed d' k :=
  { h with
    research := hd.research _ h.research
    authors := fun n hn => hd.account n (h.authors n hn)
    references := fun x hx => ⟨hd.content x (h.references x hx).1, (h.references x hx).2⟩ }

theorem Review.Placed.mono {k : ReviewId} {r : Review} (h : r.Placed d k) : r.Placed d' k where
  id := h.id
  content := hd.content _ h.content
  author := hd.account _ h.author
  references := fun x hx => hd.content x (h.references x hx)
  disciplines := h.disciplines.mono fun x _ => hd.discipline x
  rewardWeights := h.rewardWeights.mono fun x _ => hd.discipline x
  curationWeights := h.curationWeights.mono fun x _ => hd.discipline x
  weightModifiers := h.weightModifiers.mono fun x _ => hd.discipline x
  expertiseUsed := h.expertiseUsed.mono fun x _ => hd.discipline x

theorem Witness.Placed.mono {w : Witness} (h : w.Placed d n) : w.Placed d' n :=
  ⟨h.owner, hd.account _ h.known⟩

theorem Grant.Placed.mono {k : GrantId} {g : Grant} (h : g.Placed d k) : g.Placed d' k :=
  ⟨h.id, hd.account _ h.owner, hd.discipline _ h.discipline⟩

theorem Proposal.Placed.mono {k : ProposalId} {p : Proposal} (h : p.Placed d k) : p.Placed d' k :=
  ⟨h.id, hd.group _ h.group, hd.account _ h.creator, h.voters.mono fun n _ => hd.account n⟩

end

/-- Every record of a state stands in its place, below the counter of its kind, and names only what
stands in the directory. -/
structure State.Placed (d : Directory) (s : State) : Prop where
  accounts : s.accounts.All (Account.Placed d)
  authorities : s.authorities.All (AccountAuthority.Placed d)
  paired : ∀ n, s.authorities.contains n = s.accounts.contains n
  ownerHistory : s.ownerHistory.All fun n hs => d.account n ∧ ∀ h ∈ hs, h.Placed d n
  recoveryRequests : s.recoveryRequests.All (RecoveryRequest.Placed d)
  partnerChanges : s.partnerChanges.All (PartnerChange.Placed d)
  withdrawRoutes : s.withdrawRoutes.All fun n rs => d.account n ∧ rs.All (WithdrawRoute.Placed d n)
  delegations : s.delegations.All (Delegation.Placed d)
  expiringDelegations : s.expiringDelegations.All fun k x =>
    k.2 < s.nextIds.expiringDelegation ∧ x.Placed d k
  expertTokens : s.expertTokens.All fun n ts => d.account n ∧ ts.All (ExpertToken.Placed d n)
  votes : s.votes.All fun k vs => d.content k.1 ∧ d.discipline k.2 ∧ vs.All (Vote.Placed d k)
  reviewVotes : s.reviewVotes.All fun k vs =>
    d.review k.1 ∧ d.discipline k.2 ∧ vs.All (ReviewVote.Placed d k)
  voteTotals : s.voteTotals.All (VoteTotals.Placed d)
  common : d.discipline commonDiscipline
  disciplines : s.disciplines.All (Discipline.Placed d)
  groups : s.groups.All fun id g => id < s.nextIds.group ∧ g.id = id
  groupTokens : s.groupTokens.All fun id hs => d.group id ∧ hs.All fun n _ => d.account n
  researches : s.researches.All fun id r => id < s.nextIds.research ∧ r.Placed d id
  researchTokens : s.researchTokens.All fun id hs => d.research id ∧ hs.All fun n _ => d.account n
  contents : s.contents.All fun id c => id < s.nextIds.content ∧ c.Placed d id
  reviews : s.reviews.All fun id r => id < s.nextIds.review ∧ r.Placed d id
  witnesses : s.witnesses.All (Witness.Placed d)
  witnessVotes : s.witnessVotes.All fun n ws => d.account n ∧ ws.All fun w _ => d.witness w
  grants : s.grants.All fun id g => id < s.nextIds.grant ∧ g.Placed d id
  proposals : s.proposals.All fun id p => id < s.nextIds.proposal ∧ p.Placed d id

/-- What an account says of others, with its name. -/
def Account.ties (a : Account) : AccountName × Option AccountName × Option AccountName :=
  (a.name, a.proxy, a.recoveryPartner)

theorem Account.Placed.of_ties {a b : Account} (h : a.Placed d n) (hb : b.ties = a.ties) :
    b.Placed d n := by
  obtain ⟨hname, hrest⟩ := Prod.mk.inj hb
  obtain ⟨hproxy, hpartner⟩ := Prod.mk.inj hrest
  exact ⟨hname.trans h.name, hproxy ▸ h.proxy, hpartner ▸ h.recoveryPartner⟩

namespace State.Placed

variable {s : State} {x : DisciplineId} {now : Seconds} {amount : Amount}

theorem mono (h : s.Placed d) (hd : d.Within d') : s.Placed d' where
  accounts := h.accounts.mono fun _ _ h => h.mono hd
  authorities := h.authorities.mono fun _ _ h => h.mono hd
  paired := h.paired
  ownerHistory := h.ownerHistory.mono fun _ _ h =>
    ⟨hd.account _ h.1, fun x hx => (h.2 x hx).mono hd⟩
  recoveryRequests := h.recoveryRequests.mono fun _ _ h => h.mono hd
  partnerChanges := h.partnerChanges.mono fun _ _ h => h.mono hd
  withdrawRoutes := h.withdrawRoutes.mono fun _ _ h =>
    ⟨hd.account _ h.1, h.2.mono fun _ _ h => h.mono hd⟩
  delegations := h.delegations.mono fun _ _ h => h.mono hd
  expiringDelegations := h.expiringDelegations.mono fun _ _ h => ⟨h.1, h.2.mono hd⟩
  expertTokens := h.expertTokens.mono fun _ _ h =>
    ⟨hd.account _ h.1, h.2.mono fun _ _ h => h.mono hd⟩
  votes := h.votes.mono fun _ _ h =>
    ⟨hd.content _ h.1, hd.discipline _ h.2.1, h.2.2.mono fun _ _ h => h.mono hd⟩
  reviewVotes := h.reviewVotes.mono fun _ _ h =>
    ⟨hd.review _ h.1, hd.discipline _ h.2.1, h.2.2.mono fun _ _ h => h.mono hd⟩
  voteTotals := h.voteTotals.mono fun _ _ h => h.mono hd
  common := hd.discipline _ h.common
  disciplines := h.disciplines.mono fun _ _ h => h.mono hd
  groups := h.groups
  groupTokens := h.groupTokens.mono fun _ _ h =>
    ⟨hd.group _ h.1, h.2.mono fun n _ => hd.account n⟩
  researches := h.researches.mono fun _ _ h => ⟨h.1, h.2.mono hd⟩
  researchTokens := h.researchTokens.mono fun _ _ h =>
    ⟨hd.research _ h.1, h.2.mono fun n _ => hd.account n⟩
  contents := h.contents.mono fun _ _ h => ⟨h.1, h.2.mono hd⟩
  reviews := h.reviews.mono fun _ _ h => ⟨h.1, h.2.mono hd⟩
  witnesses := h.witnesses.mono fun _ _ h => h.mono hd
  witnessVotes := h.witnessVotes.mono fun _ _ h =>
    ⟨hd.account _ h.1, h.2.mono fun w _ => hd.witness w⟩
  grants := h.grants.mono fun _ _ h => ⟨h.1, h.2.mono hd⟩
  proposals := h.proposals.mono fun _ _ h => ⟨h.1, h.2.mono hd⟩

theorem withAccounts {accounts : SortedMap AccountName Account} (h : s.Placed d)
    (hk : Keeps Account.ties s.accounts accounts) : Placed d { s with accounts } := by
  refine { h with accounts := fun n a ha => ?_, paired := fun n => (h.paired n).trans hk.contains.symm }
  obtain ⟨b, hb, hties⟩ := hk.exists_of_get? ha
  exact (h.accounts n b hb).of_ties hties

theorem modifyAccount {f : Account → Account} (h : s.Placed d)
    (hf : ∀ a, a.Placed d n → (f a).Placed d n) : (s.modifyAccount n f).Placed d :=
  { h with
    accounts := h.accounts.modify hf
    paired := fun m => (h.paired m).trans SortedMap.contains_modify.symm }

/-- A new account and its authorities come together. -/
theorem insertAccount {a : Account} {b : AccountAuthority} (h : s.Placed d) (ha : a.Placed d n)
    (hb : b.Placed d n) : Placed d { s with
      accounts := s.accounts.insert n a
      authorities := s.authorities.insert n b } := by
  refine { h with
    accounts := h.accounts.insert ha
    authorities := h.authorities.insert hb
    paired := fun m => ?_ }
  rw [Bool.eq_iff_iff, SortedMap.contains_insert, SortedMap.contains_insert]
  exact or_congr_right (Bool.eq_iff_iff.1 (h.paired m))

theorem credit (h : s.Placed d) : (s.credit n amount).Placed d :=
  h.modifyAccount fun _ ha => { ha with }

theorem debit (h : s.Placed d) : (s.debit n amount).Placed d :=
  h.modifyAccount fun _ ha => { ha with }

theorem applyProxyEffects (h : s.Placed d) (e : ProxyEffects) : (s.applyProxyEffects e).Placed d := by
  have hk : Keeps Account.ties s.accounts (s.applyProxyEffects e).accounts :=
    applyProxyEffects_keeps (fun _ _ => rfl) e
  rw [applyProxyEffects_eq] at hk ⊢
  exact { h.withAccounts hk with
    witnesses := SortedMap.All.foldl_modify (fun _ _ _ _ hw => ⟨hw.owner, hw.known⟩) h.witnesses }

theorem creditExpertise (h : s.Placed d) (hn : d.account n) (hx : d.discipline x) :
    (s.creditExpertise n x amount now).Placed d := by
  have htokens : (s.expertTokens.getD n ∅).All (ExpertToken.Placed d n) :=
    (h.expertTokens.getD_of ⟨hn, .empty⟩).2
  have htoken : ((s.expertTokens.getD n ∅).getD x (.fresh n x now)).Placed d n x :=
    htokens.getD_of ⟨rfl, rfl, hx⟩
  exact { h with expertTokens := h.expertTokens.insert ⟨hn, htokens.insert { htoken with }⟩ }

theorem foldl_creditExpertise {α : Type} {name : α → AccountName} {x : α → DisciplineId}
    {amount : α → Amount} {xs : List α} (hxs : ∀ e ∈ xs, d.account (name e) ∧ d.discipline (x e))
    (h : s.Placed d) :
    (xs.foldl (fun s e => s.creditExpertise (name e) (x e) (amount e) now) s).Placed d := by
  induction xs generalizing s with
  | nil => exact h
  | cons e xs ih =>
    rw [List.forall_mem_cons] at hxs
    exact ih hxs.2 (h.creditExpertise hxs.1.1 hxs.1.2)

theorem spendPower {remaining : Nat} (h : s.Placed d) : (s.spendPower n x remaining now).Placed d :=
  { h with
    expertTokens := h.expertTokens.modify fun _ ht => ⟨ht.1, ht.2.modify fun _ ht => { ht with }⟩ }

theorem debitExpertise (h : s.Placed d) : (s.debitExpertise n x amount).Placed d :=
  { h with
    expertTokens := h.expertTokens.modify fun _ ht => ⟨ht.1, ht.2.modify fun _ ht => { ht with }⟩ }

/-- An owner authority that is replaced by a known one goes into the history. -/
theorem replaceOwner {owner : Authority} (h : s.Placed d) (hn : d.account n) (ho : owner.Known d) :
    (s.replaceOwner now n owner).Placed d := by
  have hpaired : ∀ m, (s.replaceOwner now n owner).authorities.contains m = s.accounts.contains m := by
    intro m
    rw [authorities_replaceOwner, SortedMap.contains_modify]
    exact h.paired m
  unfold State.replaceOwner at hpaired ⊢
  cases ha : s.authorities.get? n with
  | none => exact h
  | some a =>
    rw [ha] at hpaired
    have hold := h.authorities n a ha
    have hhistory : ∀ x ∈ s.ownerHistory.getD n [], x.Placed d n :=
      (h.ownerHistory.getD_of ⟨hn, fun _ hx => absurd hx List.not_mem_nil⟩).2
    refine { h with
      authorities := h.authorities.insert { hold with owner := ho }
      paired := hpaired
      ownerHistory := h.ownerHistory.insert ⟨hn, fun x hx => ?_⟩ }
    rcases List.mem_append.1 hx with hx | hx
    · exact hhistory x hx
    · obtain rfl := List.mem_singleton.1 hx
      exact ⟨rfl, hold.owner⟩

end State.Placed

end ResearchLedger
