import ResearchLedger.Proofs.BlockPayments
import ResearchLedger.Proofs.Decoding
import ResearchLedger.Proofs.StateLayout

/-! What a state stores stays within the ranges in which it is stored: the records, and the small
changes that the operations are made of. -/
namespace ResearchLedger

open SortedMap

variable {s : State} {n : AccountName} {a : Account} {d : DisciplineId} {x : Amount} {now t : Seconds}

section Maps

variable {κ α β : Type} [KeyOrder κ] {m : SortedMap κ α} {p : κ → α → Prop}

theorem SortedMap.All.filter {f : κ → α → Bool} (h : m.All p) : (m.filter f).All p := by
  intro k v hv
  rw [get?_filter] at hv
  exact h k v (Option.filter_eq_some_iff.1 hv).1

theorem SortedMap.All.mapValues {f : κ → α → β} {q : κ → β → Prop} (h : m.All p)
    (hf : ∀ k v, p k v → q k (f k v)) : (m.mapValues f).All q := by
  intro k v hv
  rw [get?_mapValues] at hv
  obtain ⟨w, hw, rfl⟩ := Option.map_eq_some_iff.1 hv
  exact hf k w (h k w hw)

end Maps

namespace Amount

theorem fits_clamp (x : Amount) : (clamp x).Fits := by
  unfold Fits clamp
  split
  · decide
  · split
    · decide
    · constructor <;> lia

theorem Fits.of_nonneg (h₀ : 0 ≤ x) (h : x ≤ Amount.max) : x.Fits := ⟨le_trans (by decide) h₀, h⟩

end Amount

theorem Seconds.after_le (t d : Seconds) : t.after d ≤ maxWord := Nat.min_le_right _ _

theorem Asset.InRange.primary (h : x.Fits) : (Asset.primary x).InRange :=
  ⟨h, show Symbol.primary.code ≤ maxWord by decide⟩

theorem ExpertToken.InRange.fresh (hd : d ≤ maxWord) (ht : now ≤ maxWord) :
    (ExpertToken.fresh n d now).InRange :=
  ⟨hd, show Amount.Fits 0 by decide, show wholePercent ≤ maxWord16 by decide, ht⟩

/-- The fields of an account that are in range by themselves. Its stake, what is lent of it and what
a power-down takes of it bound each other, and nothing bounds what it has borrowed. -/
structure Account.Stored (a : Account) : Prop where
  balance : a.balance.InRange
  rate : a.powerDown.rate ≤ Amount.max
  next : a.powerDown.next ≤ maxWord
  total : a.powerDown.total ≤ Amount.max
  withdrawn : 0 ≤ a.powerDown.withdrawn
  withdrawRoutes : a.withdrawRoutes ≤ maxWord16
  proxied : ∀ i (hi : i < maxProxyDepth), Amount.Fits a.proxied[i]
  witnessesVotedFor : a.witnessesVotedFor ≤ maxWord16
  votingPower : a.votingPower ≤ maxWord16
  lastVoteTime : a.lastVoteTime ≤ maxWord
  lastRecovery : a.lastRecovery ≤ maxWord
  created : a.created ≤ maxWord

namespace Account.Stored

theorem fresh (n : AccountName) (k : PublicKey) (h : now ≤ maxWord) : (Account.fresh n k now).Stored where
  balance := .primary (by decide)
  rate := Amount.max_nonneg
  next := le_refl _
  total := Amount.max_nonneg
  withdrawn := le_refl _
  withdrawRoutes := Nat.zero_le _
  proxied i hi := by
    unfold Account.fresh
    rw [Vector.getElem_replicate]
    decide
  witnessesVotedFor := Nat.zero_le _
  votingPower := show wholePercent ≤ maxWord16 by decide
  lastVoteTime := h
  lastRecovery := Nat.zero_le _
  created := h

theorem credit (h : a.Stored) : (a.credit x).Stored :=
  { h with balance := ⟨Amount.fits_clamp _, h.balance.symbol⟩ }

theorem debit (h : a.Stored) : (a.debit x).Stored :=
  { h with balance := ⟨Amount.fits_clamp _, h.balance.symbol⟩ }

theorem addProxied (h : a.Stored) (slots : Vector Amount maxProxyDepth) : (a.addProxied slots).Stored :=
  { h with
    proxied := fun i hi => by
      unfold Account.addProxied
      rw [Vector.getElem_zipWith]
      exact Amount.fits_clamp _ }

theorem afterPayment {interval : Seconds} (h : a.Stored) (h₀ : 0 ≤ x) :
    (a.afterPayment x interval).Stored := by
  have hw := Int.add_nonneg h.withdrawn h₀
  unfold Account.afterPayment
  dsimp only
  split
  · exact { h with rate := Amount.max_nonneg, next := le_refl maxWord, withdrawn := hw }
  · exact { h with next := Seconds.after_le _ _, withdrawn := hw }

end Account.Stored

/-- All that a state stores is in range, but for what other invariants tell of its accounts, of the
percentages of its routes and of the tokens of its researches. -/
structure State.Stored (s : State) : Prop where
  config : s.config.InRange
  accounts : s.accounts.All fun _ a => a.Stored
  authorities : s.authorities.All fun _ a => a.InRange
  ownerHistory : s.ownerHistory.All fun _ history => ∀ r ∈ history, r.InRange
  recoveryRequests : s.recoveryRequests.All fun _ r => r.InRange
  partnerChanges : s.partnerChanges.All fun _ c => c.InRange
  delegations : s.delegations.All fun _ d => d.InRange
  expiringDelegations : s.expiringDelegations.All fun k e =>
    k.1 ≤ maxWord ∧ k.2 ≤ maxWord ∧ e.InRange
  expertTokens : s.expertTokens.All fun _ ts => ts.All fun d t => d ≤ maxWord ∧ t.InRange
  votes : s.votes.All fun k vs => k.1 ≤ maxWord ∧ k.2 ≤ maxWord ∧ vs.All fun _ v => v.InRange
  reviewVotes : s.reviewVotes.All fun k vs =>
    k.1 ≤ maxWord ∧ k.2 ≤ maxWord ∧ vs.All fun _ v => v.InRange
  voteTotals : s.voteTotals.All fun k t => k.1 ≤ maxWord ∧ k.2 ≤ maxWord ∧ t.InRange
  disciplines : s.disciplines.All fun id d => id ≤ maxWord ∧ d.InRange
  groups : s.groups.All fun id g => id ≤ maxWord ∧ g.InRange
  groupTokens : s.groupTokens.All fun id hs => id ≤ maxWord ∧ hs.All fun _ n => n ≤ maxWord32
  researches : s.researches.All fun id r => id ≤ maxWord ∧ r.InRange
  contents : s.contents.All fun id c => id ≤ maxWord ∧ c.InRange
  reviews : s.reviews.All fun id r => id ≤ maxWord ∧ r.InRange
  reviewsByContent : s.reviewsByContent.All fun k _ => k.1 ≤ maxWord ∧ k.2 ≤ maxWord
  groupPermlinks : s.groupPermlinks.All fun _ id => id ≤ maxWord
  researchPermlinks : s.researchPermlinks.All fun k id => k.1 ≤ maxWord ∧ id ≤ maxWord
  contentPermlinks : s.contentPermlinks.All fun k id => k.1 ≤ maxWord ∧ id ≤ maxWord
  witnesses : s.witnesses.All fun _ w => w.InRange
  grants : s.grants.All fun id g => id ≤ maxWord ∧ g.InRange
  proposals : s.proposals.All fun id p => id ≤ maxWord ∧ p.InRange

namespace State.Stored

theorem modifyAccount {f : Account → Account} (h : s.Stored)
    (hf : ∀ a, s.accounts.get? n = some a → a.Stored → (f a).Stored) : (s.modifyAccount n f).Stored :=
  { h with accounts := h.accounts.modify_of fun a ha => hf a ha (h.accounts n a ha) }

theorem credit (h : s.Stored) : (s.credit n x).Stored := h.modifyAccount fun _ _ ha => ha.credit

theorem debit (h : s.Stored) : (s.debit n x).Stored := h.modifyAccount fun _ _ ha => ha.debit

theorem stake (h : s.Stored) : (s.modifyAccount n (·.stake x)).Stored :=
  h.modifyAccount fun _ _ ha => { ha with }

theorem modifyExpertToken {f : ExpertToken → ExpertToken} (h : s.Stored)
    (hf : ∀ t, t.InRange → (f t).InRange) : (s.modifyExpertToken n d f).Stored :=
  { h with expertTokens := h.expertTokens.modify fun _ ts =>
      ts.modify fun t ht => ⟨ht.1, hf t ht.2⟩ }

theorem debitExpertise (h : s.Stored) (h₀ : 0 ≤ x) : (s.debitExpertise n d x).Stored :=
  h.modifyExpertToken fun t ht =>
    have hle : max (t.amount - x) 0 ≤ Amount.max :=
      max_le ((Int.sub_le_self _ h₀).trans ht.amount.2) Amount.max_nonneg
    { ht with amount := .of_nonneg (le_max_right _ _) hle }

theorem spendPower {power : Nat} (h : s.Stored) (hp : power ≤ wholePercent) (ht : now ≤ maxWord) :
    (s.spendPower n d power now).Stored :=
  h.modifyExpertToken fun _ h =>
    { h with votingPower := hp.trans (by decide), lastVoteTime := ht }

theorem creditExpertise (h : s.Stored) (hd : d ≤ maxWord) (ht : now ≤ maxWord) :
    (s.creditExpertise n d x now).Stored := by
  have hts : (s.expertTokens.getD n ∅).All fun d t => d ≤ maxWord ∧ t.InRange :=
    h.expertTokens.getD
  refine { h with expertTokens := h.expertTokens.insert (hts.insert ⟨hd, ?_⟩) }
  have hold : ((s.expertTokens.getD n ∅).getD d (.fresh n d now)).InRange :=
    (hts.getD_of ⟨hd, .fresh hd ht⟩).2
  exact { hold with amount := Amount.fits_clamp _ }

theorem foldl_creditExpertise {α : Type} {name : α → AccountName} {discipline : α → DisciplineId}
    {amount : α → Amount} {xs : List α} (h : s.Stored) (hd : ∀ x ∈ xs, discipline x ≤ maxWord)
    (ht : now ≤ maxWord) : (xs.foldl (fun s x =>
      s.creditExpertise (name x) (discipline x) (amount x) now) s).Stored := by
  induction xs generalizing s with
  | nil => exact h
  | cons x xs ih =>
    rw [List.forall_mem_cons] at hd
    exact ih (h.creditExpertise hd.1 ht) hd.2

theorem applyProxyEffects (h : s.Stored) (e : ProxyEffects) : (s.applyProxyEffects e).Stored := by
  rw [State.applyProxyEffects_eq]
  exact { h with
    accounts := h.accounts.foldl_modify fun _ _ _ _ ha => ha.addProxied _
    witnesses := h.witnesses.foldl_modify fun _ _ _ _ hw =>
      { hw with votes := Amount.fits_clamp _ } }

theorem creditGroup {g : GroupId} (h : s.Stored) : (s.creditGroup g x).Stored :=
  { h with groups := h.groups.modify fun _ hg => ⟨hg.1, { hg.2 with balance := Amount.fits_clamp _ }⟩ }

theorem replaceOwner {owner : Authority} (h : s.Stored) (ho : owner.InRange) (ht : now ≤ maxWord) :
    (s.replaceOwner now n owner).Stored := by
  unfold State.replaceOwner
  split
  · exact h
  · rename_i a ha
    have hold := h.authorities _ _ ha
    refine { h with
      authorities := h.authorities.insert { hold with owner := ho, lastOwnerUpdate := ht }
      ownerHistory := h.ownerHistory.insert fun r hr => ?_ }
    rcases List.mem_append.1 hr with hr | hr
    · exact h.ownerHistory.getD_of (fun _ hr => absurd hr List.not_mem_nil) r hr
    · rw [List.mem_singleton.1 hr]
      exact ⟨hold.owner, ht⟩

end State.Stored

end ResearchLedger
