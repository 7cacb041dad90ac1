import ResearchLedger.Layout.Record
import ResearchLedger.Proofs.Hexadecimal
import ResearchLedger.Proofs.Layouts
import ResearchLedger.Proofs.Records

/-! The ranges in which the fields of a record are stored: a record within them comes back from its
bytes. -/
namespace ResearchLedger

open Layout Layout.Carries

theorem AccountName.carries (n : AccountName) : AccountName.layout.Carries n :=
  refine (string n.text) (dif_pos n.valid)

theorem PublicKey.carries (k : PublicKey) : PublicKey.layout.Carries k :=
  refine (string k.toHex) k.ofText?_toHex

theorem ContentType.carries (t : ContentType) : ContentType.layout.Carries t :=
  choice (by cases t <;> decide) (word32 (by cases t <;> decide))

theorem ActivityState.carries (a : ActivityState) : ActivityState.layout.Carries a :=
  choice (by cases a <;> decide) (word32 (by cases a <;> decide))

theorem ProposalStatus.carries (p : ProposalStatus) : ProposalStatus.layout.Carries p :=
  choice (by cases p <;> decide) (word32 (by cases p <;> decide))

structure Asset.InRange (a : Asset) : Prop where
  amount : a.amount.Fits
  symbol : a.symbol.code ≤ maxWord

theorem Asset.InRange.carries {a : Asset} (h : a.InRange) : Asset.layout.Carries a :=
  (integer64 h.amount).bind <| (word h.symbol).last rfl

structure Authority.InRange (a : Authority) : Prop where
  threshold : a.threshold ≤ maxWord32
  accounts : a.accounts.All fun _ weight => weight ≤ maxWord16
  keys : a.keys.All fun _ weight => weight ≤ maxWord16

theorem Authority.InRange.carries {a : Authority} (h : a.InRange) : Authority.layout.Carries a := by
  unfold Carries Authority.layout
  simp only [List.append_assoc]
  exact (word32 h.threshold).bind <|
    (map (h.accounts.mono fun n _ hw => ⟨n.carries, word16 hw⟩)).bind <|
    (map (h.keys.mono fun k _ hw => ⟨k.carries, word16 hw⟩)).last rfl

structure ChainProperties.InRange (p : ChainProperties) : Prop where
  accountCreationFee : p.accountCreationFee.InRange
  maximumBlockSize : p.maximumBlockSize ≤ maxWord32

theorem ChainProperties.InRange.carries {p : ChainProperties} (h : p.InRange) :
    ChainProperties.layout.Carries p := by
  unfold Carries ChainProperties.layout
  exact h.accountCreationFee.carries.bind <| (word32 h.maximumBlockSize).last rfl

structure Config.InRange (c : Config) : Prop where
  voteRegeneration : c.voteRegeneration ≤ maxWord
  reverseAuctionWindow : c.reverseAuctionWindow ≤ maxWord
  votePowerCostDivisor : Amount.Fits c.votePowerCostDivisor
  withdrawIntervals : c.withdrawIntervals ≤ maxWord32
  withdrawIntervalSeconds : c.withdrawIntervalSeconds ≤ maxWord
  maxWithdrawRoutes : c.maxWithdrawRoutes ≤ maxWord16
  maxWitnessVotes : c.maxWitnessVotes ≤ maxWord16
  maxWitnessUrlLength : c.maxWitnessUrlLength ≤ maxWord
  ownerUpdateLimit : c.ownerUpdateLimit ≤ maxWord
  recoveryRequestLifetime : c.recoveryRequestLifetime ≤ maxWord
  ownerRecoveryPeriod : c.ownerRecoveryPeriod ≤ maxWord
  delegationReturnPeriod : c.delegationReturnPeriod ≤ maxWord
  contentActivityWindow : c.contentActivityWindow ≤ maxWord
  proposalMinLifetime : c.proposalMinLifetime ≤ maxWord
  proposalMaxLifetime : c.proposalMaxLifetime ≤ maxWord
  minAccountCreationFee : c.minAccountCreationFee.Fits
  powerDownFloorMultiplier : Amount.Fits c.powerDownFloorMultiplier
  referencesShare : c.referencesShare ≤ maxWord16
  curatorsShare : c.curatorsShare ≤ maxWord16
  reviewVotersShare : c.reviewVotersShare ≤ maxWord16

theorem Config.InRange.carries {c : Config} (h : c.InRange) : Config.layout.Carries c := by
  unfold Carries Config.layout
  simp only [List.append_assoc]
  exact (word h.voteRegeneration).bind <| (word h.reverseAuctionWindow).bind <|
    (integer64 h.votePowerCostDivisor).bind <| (word32 h.withdrawIntervals).bind <|
    (word h.withdrawIntervalSeconds).bind <| (word16 h.maxWithdrawRoutes).bind <|
    (word16 h.maxWitnessVotes).bind <| (word h.maxWitnessUrlLength).bind <|
    (word h.ownerUpdateLimit).bind <| (word h.recoveryRequestLifetime).bind <|
    (word h.ownerRecoveryPeriod).bind <| (word h.delegationReturnPeriod).bind <|
    (word h.contentActivityWindow).bind <| (word h.proposalMinLifetime).bind <|
    (word h.proposalMaxLifetime).bind <| (integer64 h.minAccountCreationFee).bind <|
    (integer64 h.powerDownFloorMultiplier).bind <| (word16 h.referencesShare).bind <|
    (word16 h.curatorsShare).bind <| (word16 h.reviewVotersShare).bind <|
    c.registrar.carries.last rfl

theorem Config.InRange.default : ({} : Config).InRange := by constructor <;> decide

structure PowerDown.InRange (p : PowerDown) : Prop where
  rate : p.rate.Fits
  next : p.next ≤ maxWord
  total : p.total.Fits
  withdrawn : p.withdrawn.Fits

theorem PowerDown.InRange.carries {p : PowerDown} (h : p.InRange) : PowerDown.layout.Carries p := by
  unfold Carries PowerDown.layout
  simp only [List.append_assoc]
  exact (integer64 h.rate).bind <| (word h.next).bind <| (integer64 h.total).bind <|
    (integer64 h.withdrawn).last rfl

structure Account.InRange (a : Account) : Prop where
  balance : a.balance.InRange
  commonTokens : a.commonTokens.Fits
  delegated : a.delegated.Fits
  received : a.received.Fits
  powerDown : a.powerDown.InRange
  withdrawRoutes : a.withdrawRoutes ≤ maxWord16
  proxied : ∀ i (hi : i < maxProxyDepth), Amount.Fits a.proxied[i]
  witnessesVotedFor : a.witnessesVotedFor ≤ maxWord16
  votingPower : a.votingPower ≤ maxWord16
  lastVoteTime : a.lastVoteTime ≤ maxWord
  lastRecovery : a.lastRecovery ≤ maxWord
  created : a.created ≤ maxWord

theorem Account.InRange.carries {a : Account} (h : a.InRange) : Account.layout.Carries a := by
  unfold Carries Account.layout
  simp only [List.append_assoc]
  exact a.name.carries.bind <| a.memoKey.carries.bind <| (string a.metadata).bind <|
    h.balance.carries.bind <| (integer64 h.commonTokens).bind <| (integer64 h.delegated).bind <|
    (integer64 h.received).bind <| h.powerDown.carries.bind <| (word16 h.withdrawRoutes).bind <|
    (option fun n _ => n.carries).bind <|
    (vector (by decide) fun i hi => integer64 (h.proxied i hi)).bind <|
    (word16 h.witnessesVotedFor).bind <| (word16 h.votingPower).bind <|
    (word h.lastVoteTime).bind <| (option fun n _ => n.carries).bind <|
    (word h.lastRecovery).bind <| (bool a.canVote).bind <| (bool a.mined).bind <|
    (word h.created).last rfl

structure AccountAuthority.InRange (a : AccountAuthority) : Prop where
  owner : a.owner.InRange
  active : a.active.InRange
  posting : a.posting.InRange
  lastOwnerUpdate : a.lastOwnerUpdate ≤ maxWord

theorem AccountAuthority.InRange.carries {a : AccountAuthority} (h : a.InRange) :
    AccountAuthority.layout.Carries a := by
  unfold Carries AccountAuthority.layout
  simp only [List.append_assoc]
  exact a.account.carries.bind <| h.owner.carries.bind <| h.active.carries.bind <|
    h.posting.carries.bind <| (word h.lastOwnerUpdate).last rfl

structure ReplacedOwner.InRange (r : ReplacedOwner) : Prop where
  authority : r.authority.InRange
  lastValid : r.lastValid ≤ maxWord

theorem ReplacedOwner.InRange.carries {r : ReplacedOwner} (h : r.InRange) :
    ReplacedOwner.layout.Carries r := by
  unfold Carries ReplacedOwner.layout
  simp only [List.append_assoc]
  exact r.account.carries.bind <| h.authority.carries.bind <| (word h.lastValid).last rfl

structure RecoveryRequest.InRange (r : RecoveryRequest) : Prop where
  newOwner : r.newOwner.InRange
  expires : r.expires ≤ maxWord

theorem RecoveryRequest.InRange.carries {r : RecoveryRequest} (h : r.InRange) :
    RecoveryRequest.layout.Carries r := by
  unfold Carries RecoveryRequest.layout
  simp only [List.append_assoc]
  exact r.account.carries.bind <| h.newOwner.carries.bind <| (word h.expires).last rfl

structure PartnerChange.InRange (c : PartnerChange) : Prop where
  effective : c.effective ≤ maxWord

theorem PartnerChange.InRange.carries {c : PartnerChange} (h : c.InRange) :
    PartnerChange.layout.Carries c := by
  unfold Carries PartnerChange.layout
  simp only [List.append_assoc]
  exact c.account.carries.bind <| c.partner.carries.bind <| (word h.effective).last rfl

structure WithdrawRoute.InRange (r : WithdrawRoute) : Prop where
  percent : r.percent ≤ maxWord16

theorem WithdrawRoute.InRange.carries {r : WithdrawRoute} (h : r.InRange) :
    WithdrawRoute.layout.Carries r := by
  unfold Carries WithdrawRoute.layout
  simp only [List.append_assoc]
  exact r.source.carries.bind <| r.target.carries.bind <| (word16 h.percent).bind <|
    (bool r.asCommonTokens).last rfl

structure Delegation.InRange (d : Delegation) : Prop where
  amount : d.amount.Fits
  since : d.since ≤ maxWord

theorem Delegation.InRange.carries {d : Delegation} (h : d.InRange) :
    Delegation.layout.Carries d := by
  unfold Carries Delegation.layout
  simp only [List.append_assoc]
  exact d.delegator.carries.bind <| d.delegatee.carries.bind <| (integer64 h.amount).bind <|
    (word h.since).last rfl

structure ExpiringDelegation.InRange (e : ExpiringDelegation) : Prop where
  amount : e.amount.Fits
  expiration : e.expiration ≤ maxWord

theorem ExpiringDelegation.InRange.carries {e : ExpiringDelegation} (h : e.InRange) :
    ExpiringDelegation.layout.Carries e := by
  unfold Carries ExpiringDelegation.layout
  simp only [List.append_assoc]
  exact e.delegator.carries.bind <| (integer64 h.amount).bind <| (word h.expiration).last rfl

structure ExpertToken.InRange (t : ExpertToken) : Prop where
  discipline : t.discipline ≤ maxWord
  amount : t.amount.Fits
  votingPower : t.votingPower ≤ maxWord16
  lastVoteTime : t.lastVoteTime ≤ maxWord

theorem ExpertToken.InRange.carries {t : ExpertToken} (h : t.InRange) :
    ExpertToken.layout.Carries t := by
  unfold Carries ExpertToken.layout
  simp only [List.append_assoc]
  exact t.account.carries.bind <| (word h.discipline).bind <| (integer64 h.amount).bind <|
    (word16 h.votingPower).bind <| (word h.lastVoteTime).last rfl

structure Vote.InRange (v : Vote) : Prop where
  discipline : v.discipline ≤ maxWord
  research : v.research ≤ maxWord
  content : v.content ≤ maxWord
  percent : -0x8000 ≤ v.percent ∧ v.percent ≤ 0x7FFF
  weight : v.weight ≤ maxWord
  usedPower : v.usedPower ≤ maxWord16
  tokens : v.tokens ≤ maxWord
  time : v.time ≤ maxWord

theorem Vote.InRange.carries {v : Vote} (h : v.InRange) : Vote.layout.Carries v := by
  unfold Carries Vote.layout
  simp only [List.append_assoc]
  exact v.voter.carries.bind <| (word h.discipline).bind <| (word h.research).bind <|
    (word h.content).bind <| (integer16 h.percent.1 h.percent.2).bind <| (word h.weight).bind <|
    (word16 h.usedPower).bind <| (word h.tokens).bind <| (word h.time).last rfl

structure ReviewVote.InRange (v : ReviewVote) : Prop where
  discipline : v.discipline ≤ maxWord
  review : v.review ≤ maxWord
  percent : -0x8000 ≤ v.percent ∧ v.percent ≤ 0x7FFF
  weight : v.weight ≤ maxWord
  usedPower : v.usedPower ≤ maxWord16
  tokens : v.tokens ≤ maxWord
  time : v.time ≤ maxWord

theorem ReviewVote.InRange.carries {v : ReviewVote} (h : v.InRange) :
    ReviewVote.layout.Carries v := by
  unfold Carries ReviewVote.layout
  simp only [List.append_assoc]
  exact v.voter.carries.bind <| (word h.discipline).bind <| (word h.review).bind <|
    (integer16 h.percent.1 h.percent.2).bind <| (word h.weight).bind <| (word16 h.usedPower).bind <|
    (word h.tokens).bind <| (word h.time).last rfl

structure VoteTotals.InRange (t : VoteTotals) : Prop where
  content : t.content ≤ maxWord
  discipline : t.discipline ≤ maxWord
  research : t.research ≤ maxWord
  weight : t.weight ≤ maxWord
  activeWeight : t.activeWeight ≤ maxWord
  researchWeight : t.researchWeight ≤ maxWord
  activeResearchWeight : t.activeResearchWeight ≤ maxWord
  curatorsWeight : t.curatorsWeight ≤ maxWord
  activeCuratorsWeight : t.activeCuratorsWeight ≤ maxWord

theorem VoteTotals.InRange.carries {t : VoteTotals} (h : t.InRange) :
    VoteTotals.layout.Carries t := by
  unfold Carries VoteTotals.layout
  simp only [List.append_assoc]
  exact (word h.content).bind <| (word h.discipline).bind <| (word h.research).bind <|
    (word h.weight).bind <| (word h.activeWeight).bind <| (word h.researchWeight).bind <|
    (word h.activeResearchWeight).bind <| (word h.curatorsWeight).bind <|
    (word h.activeCuratorsWeight).last rfl

structure Discipline.InRange (d : Discipline) : Prop where
  id : d.id ≤ maxWord
  parent : ∀ x ∈ d.parent, x ≤ maxWord
  activeWeight : d.activeWeight ≤ maxWord
  activeResearchWeight : d.activeResearchWeight ≤ maxWord
  activeReviewWeight : d.activeReviewWeight ≤ maxWord

theorem Discipline.InRange.carries {d : Discipline} (h : d.InRange) :
    Discipline.layout.Carries d := by
  unfold Carries Discipline.layout
  simp only [List.append_assoc]
  exact (word h.id).bind <| (option fun x hx => word (h.parent x hx)).bind <|
    (string d.name).bind <| (word h.activeWeight).bind <| (word h.activeResearchWeight).bind <|
    (word h.activeReviewWeight).last rfl

structure ResearchGroup.InRange (g : ResearchGroup) : Prop where
  id : g.id ≤ maxWord
  quorumPercent : g.quorumPercent ≤ maxWord16
  totalTokens : g.totalTokens ≤ maxWord32
  balance : g.balance.Fits

theorem ResearchGroup.InRange.carries {g : ResearchGroup} (h : g.InRange) :
    ResearchGroup.layout.Carries g := by
  unfold Carries ResearchGroup.layout
  simp only [List.append_assoc]
  exact (word h.id).bind <| (string g.name).bind <| (string g.permlink).bind <|
    (string g.description).bind <| (word16 h.quorumPercent).bind <| (word32 h.totalTokens).bind <|
    (integer64 h.balance).last rfl

structure Research.InRange (r : Research) : Prop where
  id : r.id ≤ maxWord
  group : r.group ≤ maxWord
  ownedTokens : r.ownedTokens ≤ maxWord16
  reviewSharePercent : r.reviewSharePercent ≤ maxWord16
  disciplines : r.disciplines.All fun d _ => d ≤ maxWord
  created : r.created ≤ maxWord

theorem Research.InRange.carries {r : Research} (h : r.InRange) : Research.layout.Carries r := by
  unfold Carries Research.layout
  simp only [List.append_assoc]
  exact (word h.id).bind <| (word h.group).bind <| (string r.title).bind <|
    (string r.abstractText).bind <| (string r.permlink).bind <| (word16 h.ownedTokens).bind <|
    (word16 h.reviewSharePercent).bind <| (set fun d u hd => word (h.disciplines d u hd)).bind <|
    (word h.created).last rfl

structure Content.InRange (c : Content) : Prop where
  id : c.id ≤ maxWord
  research : c.research ≤ maxWord
  references : ∀ x ∈ c.references, x ≤ maxWord
  created : c.created ≤ maxWord
  activityEnd : c.activityEnd ≤ maxWord

theorem Content.InRange.carries {c : Content} (h : c.InRange) : Content.layout.Carries c := by
  unfold Carries Content.layout
  simp only [List.append_assoc]
  exact (word h.id).bind <| (word h.research).bind <| c.type.carries.bind <|
    (string c.title).bind <| (string c.text).bind <| (string c.permlink).bind <|
    (list fun n _ => n.carries).bind <| (list fun x hx => word (h.references x hx)).bind <|
    (list fun x _ => string x).bind <| (word h.created).bind <| c.activity.carries.bind <|
    (word h.activityEnd).last rfl

structure Review.InRange (r : Review) : Prop where
  id : r.id ≤ maxWord
  content : r.content ≤ maxWord
  disciplines : r.disciplines.All fun d _ => d ≤ maxWord
  references : ∀ x ∈ r.references, x ≤ maxWord
  created : r.created ≤ maxWord
  rewardWeights : r.rewardWeights.All fun d weight => d ≤ maxWord ∧ weight ≤ maxWord
  curationWeights : r.curationWeights.All fun d weight => d ≤ maxWord ∧ weight ≤ maxWord
  weightModifiers : r.weightModifiers.All fun d factor => d ≤ maxWord ∧ factor ≤ maxWord32
  expertiseUsed : r.expertiseUsed.All fun d amount => d ≤ maxWord ∧ amount.Fits

theorem Review.InRange.carries {r : Review} (h : r.InRange) : Review.layout.Carries r := by
  unfold Carries Review.layout
  simp only [List.append_assoc]
  exact (word h.id).bind <| (word h.content).bind <| r.author.carries.bind <|
    (string r.text).bind <| (bool r.isPositive).bind <|
    (set fun d u hd => word (h.disciplines d u hd)).bind <|
    (list fun x hx => word (h.references x hx)).bind <| (list fun x _ => string x).bind <|
    (word h.created).bind <|
    (map (h.rewardWeights.mono fun _ _ hw => ⟨word hw.1, word hw.2⟩)).bind <|
    (map (h.curationWeights.mono fun _ _ hw => ⟨word hw.1, word hw.2⟩)).bind <|
    (map (h.weightModifiers.mono fun _ _ hw => ⟨word hw.1, word32 hw.2⟩)).bind <|
    (map (h.expertiseUsed.mono fun _ _ hw => ⟨word hw.1, integer64 hw.2⟩)).last rfl

structure Witness.InRange (w : Witness) : Prop where
  properties : w.properties.InRange
  votes : w.votes.Fits
  created : w.created ≤ maxWord

theorem Witness.InRange.carries {w : Witness} (h : w.InRange) : Witness.layout.Carries w := by
  unfold Carries Witness.layout
  simp only [List.append_assoc]
  exact w.owner.carries.bind <| (string w.url).bind <| w.signingKey.carries.bind <|
    h.properties.carries.bind <| (integer64 h.votes).bind <| (word h.created).last rfl

structure Grant.InRange (g : Grant) : Prop where
  id : g.id ≤ maxWord
  discipline : g.discipline ≤ maxWord
  amount : g.amount.Fits
  perBlock : g.perBlock.Fits
  startBlock : g.startBlock ≤ maxWord
  endBlock : g.endBlock ≤ maxWord

theorem Grant.InRange.carries {g : Grant} (h : g.InRange) : Grant.layout.Carries g := by
  unfold Carries Grant.layout
  simp only [List.append_assoc]
  exact (word h.id).bind <| g.owner.carries.bind <| (word h.discipline).bind <|
    (integer64 h.amount).bind <| (integer64 h.perBlock).bind <| (word h.startBlock).bind <|
    (word h.endBlock).last rfl

structure Proposal.InRange (p : Proposal) : Prop where
  id : p.id ≤ maxWord
  group : p.group ≤ maxWord
  quorumPercent : p.quorumPercent ≤ maxWord16
  totalVoted : p.totalVoted ≤ maxWord32
  created : p.created ≤ maxWord
  expiration : p.expiration ≤ maxWord

theorem Proposal.InRange.carries {p : Proposal} (h : p.InRange) : Proposal.layout.Carries p := by
  unfold Carries Proposal.layout
  simp only [List.append_assoc]
  exact (word h.id).bind <| (word h.group).bind <| p.creator.carries.bind <| (string p.data).bind <|
    (word16 h.quorumPercent).bind <| p.status.carries.bind <| (set fun n _ _ => n.carries).bind <|
    (word32 h.totalVoted).bind <| (word h.created).bind <| (word h.expiration).last rfl

structure IdCounters.InRange (c : IdCounters) : Prop where
  group : c.group ≤ maxWord
  research : c.research ≤ maxWord
  content : c.content ≤ maxWord
  review : c.review ≤ maxWord
  grant : c.grant ≤ maxWord
  proposal : c.proposal ≤ maxWord
  expiringDelegation : c.expiringDelegation ≤ maxWord

theorem IdCounters.InRange.carries {c : IdCounters} (h : c.InRange) :
    IdCounters.layout.Carries c := by
  unfold Carries IdCounters.layout
  simp only [List.append_assoc]
  exact (word h.group).bind <| (word h.research).bind <| (word h.content).bind <|
    (word h.review).bind <| (word h.grant).bind <| (word h.proposal).bind <|
    (word h.expiringDelegation).last rfl

end ResearchLedger
