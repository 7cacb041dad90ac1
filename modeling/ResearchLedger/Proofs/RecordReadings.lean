import ResearchLedger.Proofs.Readings
import ResearchLedger.Proofs.StateLayout

/-! Whatever is read as a record, or as a whole state, is within the ranges in which it is stored. -/
namespace ResearchLedger

open Layout.Ensures

theorem AccountName.ensures : AccountName.layout.Ensures fun _ => True := by
  refine string.refine fun text n _ h => ⟨trivial, ?_⟩
  unfold ofString? at h
  split at h
  · cases h
    exact Nat.le_refl _
  · cases h

theorem PublicKey.ensures : PublicKey.layout.Ensures fun _ => True := by
  refine string.refine fun text key _ h => ⟨trivial, ?_⟩
  have hle := utf8ByteSize_toHex_le h
  have hlen (s : String) : (Layout.string.write s).length = 8 + s.utf8ByteSize := by
    change (Layout.word.write _ ++ s.toUTF8.data.toList).length = _
    rw [List.length_append]
    rfl
  rw [hlen, hlen]
  omega

theorem Asset.ensures : Asset.layout.Ensures InRange :=
  integer64.record fun _ amount => word.next fun _ symbol => .done ⟨amount, symbol⟩ rfl

theorem Authority.ensures : Authority.layout.Ensures InRange :=
  word32.record fun _ threshold => (AccountName.ensures.map word16).next fun _ accounts =>
    (PublicKey.ensures.map word16).next fun _ keys =>
      .done ⟨threshold, accounts.mono fun _ _ h => h.2, keys.mono fun _ _ h => h.2⟩ rfl

theorem Config.ensures : Config.layout.Ensures InRange :=
  word.record fun _ voteRegeneration => word.next fun _ reverseAuctionWindow =>
    integer64.next fun _ votePowerCostDivisor => word32.next fun _ withdrawIntervals =>
    word.next fun _ withdrawIntervalSeconds => word16.next fun _ maxWithdrawRoutes =>
    word16.next fun _ maxWitnessVotes => word.next fun _ maxWitnessUrlLength =>
    word.next fun _ ownerUpdateLimit => word.next fun _ recoveryRequestLifetime =>
    word.next fun _ ownerRecoveryPeriod => word.next fun _ delegationReturnPeriod =>
    word.next fun _ contentActivityWindow => word.next fun _ proposalMinLifetime =>
    word.next fun _ proposalMaxLifetime => integer64.next fun _ minAccountCreationFee =>
    integer64.next fun _ powerDownFloorMultiplier => word16.next fun _ referencesShare =>
    word16.next fun _ curatorsShare => word16.next fun _ reviewVotersShare =>
    AccountName.ensures.next fun _ _ => .done
      { voteRegeneration, reverseAuctionWindow, votePowerCostDivisor, withdrawIntervals,
        withdrawIntervalSeconds, maxWithdrawRoutes, maxWitnessVotes, maxWitnessUrlLength,
        ownerUpdateLimit, recoveryRequestLifetime, ownerRecoveryPeriod, delegationReturnPeriod,
        contentActivityWindow, proposalMinLifetime, proposalMaxLifetime, minAccountCreationFee,
        powerDownFloorMultiplier, referencesShare, curatorsShare, reviewVotersShare } rfl

theorem PowerDown.ensures : PowerDown.layout.Ensures InRange :=
  integer64.record fun _ rate => word.next fun _ next => integer64.next fun _ total =>
    integer64.next fun _ withdrawn => .done ⟨rate, next, total, withdrawn⟩ rfl

theorem Account.ensures : Account.layout.Ensures InRange :=
  AccountName.ensures.record fun _ _ => PublicKey.ensures.next fun _ _ => string.next fun _ _ =>
    Asset.ensures.next fun _ balance => integer64.next fun _ commonTokens =>
    integer64.next fun _ delegated => integer64.next fun _ received =>
    PowerDown.ensures.next fun _ powerDown => word16.next fun _ withdrawRoutes =>
    AccountName.ensures.option.next fun _ _ => (integer64.vector maxProxyDepth).next fun _ proxied =>
    word16.next fun _ witnessesVotedFor => word16.next fun _ votingPower =>
    word.next fun _ lastVoteTime => AccountName.ensures.option.next fun _ _ =>
    word.next fun _ lastRecovery => bool.next fun _ _ => bool.next fun _ _ =>
    word.next fun _ created => .done
      { balance, commonTokens, delegated, received, powerDown, withdrawRoutes, proxied,
        witnessesVotedFor, votingPower, lastVoteTime, lastRecovery, created } rfl

theorem AccountAuthority.ensures : AccountAuthority.layout.Ensures InRange :=
  AccountName.ensures.record fun _ _ => Authority.ensures.next fun _ owner =>
    Authority.ensures.next fun _ active => Authority.ensures.next fun _ posting =>
    word.next fun _ lastOwnerUpdate => .done ⟨owner, active, posting, lastOwnerUpdate⟩ rfl

theorem ReplacedOwner.ensures : ReplacedOwner.layout.Ensures InRange :=
  AccountName.ensures.record fun _ _ => Authority.ensures.next fun _ authority =>
    word.next fun _ lastValid => .done ⟨authority, lastValid⟩ rfl

theorem RecoveryRequest.ensures : RecoveryRequest.layout.Ensures InRange :=
  AccountName.ensures.record fun _ _ => Authority.ensures.next fun _ newOwner =>
    word.next fun _ expires => .done ⟨newOwner, expires⟩ rfl

theorem PartnerChange.ensures : PartnerChange.layout.Ensures InRange :=
  AccountName.ensures.record fun _ _ => AccountName.ensures.next fun _ _ =>
    word.next fun _ effective => .done ⟨effective⟩ rfl

theorem WithdrawRoute.ensures : WithdrawRoute.layout.Ensures InRange :=
  AccountName.ensures.record fun _ _ => AccountName.ensures.next fun _ _ =>
    word16.next fun _ percent => bool.next fun _ _ => .done ⟨percent⟩ rfl

theorem Delegation.ensures : Delegation.layout.Ensures InRange :=
  AccountName.ensures.record fun _ _ => AccountName.ensures.next fun _ _ =>
    integer64.next fun _ amount => word.next fun _ since => .done ⟨amount, since⟩ rfl

theorem ExpiringDelegation.ensures : ExpiringDelegation.layout.Ensures InRange :=
  AccountName.ensures.record fun _ _ => integer64.next fun _ amount =>
    word.next fun _ expiration => .done ⟨amount, expiration⟩ rfl

theorem ExpertToken.ensures : ExpertToken.layout.Ensures InRange :=
  AccountName.ensures.record fun _ _ => word.next fun _ discipline =>
    integer64.next fun _ amount => word16.next fun _ votingPower =>
    word.next fun _ lastVoteTime => .done ⟨discipline, amount, votingPower, lastVoteTime⟩ rfl

theorem Vote.ensures : Vote.layout.Ensures InRange :=
  AccountName.ensures.record fun _ _ => word.next fun _ discipline => word.next fun _ research =>
    word.next fun _ content => integer16.next fun _ percent => word.next fun _ weight =>
    word16.next fun _ usedPower => word.next fun _ tokens => word.next fun _ time => .done
      { discipline, research, content, percent, weight, usedPower, tokens, time } rfl

theorem ReviewVote.ensures : ReviewVote.layout.Ensures InRange :=
  AccountName.ensures.record fun _ _ => word.next fun _ discipline => word.next fun _ review =>
    integer16.next fun _ percent => word.next fun _ weight => word16.next fun _ usedPower =>
    word.next fun _ tokens => word.next fun _ time => .done
      { discipline, review, percent, weight, usedPower, tokens, time } rfl

theorem VoteTotals.ensures : VoteTotals.layout.Ensures InRange :=
  word.record fun _ content => word.next fun _ discipline => word.next fun _ research =>
    word.next fun _ weight => word.next fun _ activeWeight => word.next fun _ researchWeight =>
    word.next fun _ activeResearchWeight => word.next fun _ curatorsWeight =>
    word.next fun _ activeCuratorsWeight => .done
      { content, discipline, research, weight, activeWeight, researchWeight, activeResearchWeight,
        curatorsWeight, activeCuratorsWeight } rfl

theorem Discipline.ensures : Discipline.layout.Ensures InRange :=
  word.record fun _ id => word.option.next fun _ parent => string.next fun _ _ =>
    word.next fun _ activeWeight => word.next fun _ activeResearchWeight =>
    word.next fun _ activeReviewWeight => .done
      { id, parent, activeWeight, activeResearchWeight, activeReviewWeight } rfl

theorem ResearchGroup.ensures : ResearchGroup.layout.Ensures InRange :=
  word.record fun _ id => string.next fun _ _ => string.next fun _ _ => string.next fun _ _ =>
    word16.next fun _ quorumPercent => word32.next fun _ totalTokens =>
    integer64.next fun _ balance => .done ⟨id, quorumPercent, totalTokens, balance⟩ rfl

theorem Research.ensures : Research.layout.Ensures InRange :=
  word.record fun _ id => word.next fun _ group => string.next fun _ _ => string.next fun _ _ =>
    string.next fun _ _ => word16.next fun _ ownedTokens =>
    word16.next fun _ reviewSharePercent => word.set.next fun _ disciplines =>
    word.next fun _ created => .done
      { id, group, ownedTokens, reviewSharePercent, disciplines, created } rfl

theorem ContentType.ensures : ContentType.layout.Ensures fun _ => True := choice _

theorem ActivityState.ensures : ActivityState.layout.Ensures fun _ => True := choice _

theorem ProposalStatus.ensures : ProposalStatus.layout.Ensures fun _ => True := choice _

theorem Content.ensures : Content.layout.Ensures InRange :=
  word.record fun _ id => word.next fun _ research => ContentType.ensures.next fun _ _ =>
    string.next fun _ _ => string.next fun _ _ => string.next fun _ _ =>
    AccountName.ensures.list.next fun _ _ => word.list.next fun _ references =>
    string.list.next fun _ _ => word.next fun _ created => ActivityState.ensures.next fun _ _ =>
    word.next fun _ activityEnd => .done { id, research, references, created, activityEnd } rfl

theorem Review.ensures : Review.layout.Ensures InRange :=
  word.record fun _ id => word.next fun _ content => AccountName.ensures.next fun _ _ =>
    string.next fun _ _ => bool.next fun _ _ => word.set.next fun _ disciplines =>
    word.list.next fun _ references => string.list.next fun _ _ => word.next fun _ created =>
    (word.map word).next fun _ rewardWeights => (word.map word).next fun _ curationWeights =>
    (word.map word32).next fun _ weightModifiers =>
    (word.map integer64).next fun _ expertiseUsed => .done
      { id, content, disciplines, references, created, rewardWeights, curationWeights,
        weightModifiers, expertiseUsed } rfl

theorem ChainProperties.ensures : ChainProperties.layout.Ensures InRange :=
  Asset.ensures.record fun _ fee => word32.next fun _ size => .done ⟨fee, size⟩ rfl

theorem Witness.ensures : Witness.layout.Ensures InRange :=
  AccountName.ensures.record fun _ _ => string.next fun _ _ => PublicKey.ensures.next fun _ _ =>
    ChainProperties.ensures.next fun _ properties => integer64.next fun _ votes =>
    word.next fun _ created => .done ⟨properties, votes, created⟩ rfl

theorem Grant.ensures : Grant.layout.Ensures InRange :=
  word.record fun _ id => AccountName.ensures.next fun _ _ => word.next fun _ discipline =>
    integer64.next fun _ amount => integer64.next fun _ perBlock => word.next fun _ startBlock =>
    word.next fun _ endBlock => .done { id, discipline, amount, perBlock, startBlock, endBlock } rfl

theorem Proposal.ensures : Proposal.layout.Ensures InRange :=
  word.record fun _ id => word.next fun _ group => AccountName.ensures.next fun _ _ =>
    string.next fun _ _ => word16.next fun _ quorumPercent => ProposalStatus.ensures.next fun _ _ =>
    AccountName.ensures.set.next fun _ _ => word32.next fun _ totalVoted =>
    word.next fun _ created => word.next fun _ expiration => .done
      { id, group, quorumPercent, totalVoted, created, expiration } rfl

theorem IdCounters.ensures : IdCounters.layout.Ensures InRange :=
  word.record fun _ group => word.next fun _ research => word.next fun _ content =>
    word.next fun _ review => word.next fun _ grant => word.next fun _ proposal =>
    word.next fun _ expiringDelegation => .done
      { group, research, content, review, grant, proposal, expiringDelegation } rfl

/-- Whatever is read as a state is a state that can be stored, in no more bytes than it was read from. -/
theorem State.ensures : State.layout.Ensures InRange := by
  refine Config.ensures.record fun _ config => ?_
  refine (AccountName.ensures.map Account.ensures).next fun _ accounts => ?_
  refine (AccountName.ensures.map AccountAuthority.ensures).next fun _ authorities => ?_
  refine (AccountName.ensures.map ReplacedOwner.ensures.list).next fun _ ownerHistory => ?_
  refine (AccountName.ensures.map RecoveryRequest.ensures).next fun _ recoveryRequests => ?_
  refine (AccountName.ensures.map PartnerChange.ensures).next fun _ partnerChanges => ?_
  refine (AccountName.ensures.map (AccountName.ensures.map WithdrawRoute.ensures)).next
    fun _ withdrawRoutes => ?_
  refine ((AccountName.ensures.pair AccountName.ensures).map Delegation.ensures).next
    fun _ delegations => ?_
  refine ((word.pair word).map ExpiringDelegation.ensures).next fun _ expiringDelegations => ?_
  refine (AccountName.ensures.map (word.map ExpertToken.ensures)).next fun _ expertTokens => ?_
  refine ((word.pair word).map (AccountName.ensures.map Vote.ensures)).next fun _ votes => ?_
  refine ((word.pair word).map (AccountName.ensures.map ReviewVote.ensures)).next
    fun _ reviewVotes => ?_
  refine ((word.pair word).map VoteTotals.ensures).next fun _ voteTotals => ?_
  refine (word.map Discipline.ensures).next fun _ disciplines => ?_
  refine (word.map ResearchGroup.ensures).next fun _ groups => ?_
  refine (word.map (AccountName.ensures.map word32)).next fun _ groupTokens => ?_
  refine (word.map Research.ensures).next fun _ researches => ?_
  refine (word.map Content.ensures).next fun _ contents => ?_
  refine (word.map Review.ensures).next fun _ reviews => ?_
  refine (word.map (AccountName.ensures.map word16)).next fun _ researchTokens => ?_
  refine (word.pair word).set.next fun _ reviewsByContent => ?_
  refine (string.map word).next fun _ groupPermlinks => ?_
  refine ((word.pair string).map word).next fun _ researchPermlinks => ?_
  refine ((word.pair string).map word).next fun _ contentPermlinks => ?_
  refine (AccountName.ensures.map Witness.ensures).next fun _ witnesses => ?_
  refine (AccountName.ensures.map AccountName.ensures.set).next fun _ _ => ?_
  refine (word.map Grant.ensures).next fun _ grants => ?_
  refine (word.map Proposal.ensures).next fun _ proposals => ?_
  refine IdCounters.ensures.next fun _ nextIds => .done ?_ ?_
  · exact {
      config, disciplines, groups, researches, contents, reviews, reviewsByContent, grants, proposals,
      nextIds
      accounts := accounts.mono fun _ _ h => h.2
      authorities := authorities.mono fun _ _ h => h.2
      ownerHistory := ownerHistory.mono fun _ _ h => h.2
      recoveryRequests := recoveryRequests.mono fun _ _ h => h.2
      partnerChanges := partnerChanges.mono fun _ _ h => h.2
      withdrawRoutes := withdrawRoutes.mono fun _ _ h => h.2.mono fun _ _ h => h.2
      delegations := delegations.mono fun _ _ h => h.2
      expiringDelegations := expiringDelegations.mono fun _ _ h => ⟨h.1.1, h.1.2, h.2⟩
      expertTokens := expertTokens.mono fun _ _ h => h.2
      votes := votes.mono fun _ _ h => ⟨h.1.1, h.1.2, h.2.mono fun _ _ h => h.2⟩
      reviewVotes := reviewVotes.mono fun _ _ h => ⟨h.1.1, h.1.2, h.2.mono fun _ _ h => h.2⟩
      voteTotals := voteTotals.mono fun _ _ h => ⟨h.1.1, h.1.2, h.2⟩
      groupTokens := groupTokens.mono fun _ _ h => ⟨h.1, h.2.mono fun _ _ h => h.2⟩
      researchTokens := researchTokens.mono fun _ _ h => ⟨h.1, h.2.mono fun _ _ h => h.2⟩
      groupPermlinks := groupPermlinks.mono fun _ _ h => h.2
      researchPermlinks := researchPermlinks.mono fun _ _ h => ⟨h.1.1, h.2⟩
      contentPermlinks := contentPermlinks.mono fun _ _ h => ⟨h.1.1, h.2⟩
      witnesses := witnesses.mono fun _ _ h => h.2 }
  · simp only [stores, List.flatMap_cons, List.flatMap_nil, List.append_nil, List.append_assoc]
    rfl

end ResearchLedger
