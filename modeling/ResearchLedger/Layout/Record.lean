import ResearchLedger.Json.Record
import ResearchLedger.Layout.Basic
import ResearchLedger.State.Basic
/-!
The records of the ledger as bytes: the fields one after the other. Names and keys are laid out as their
texts.
-/

namespace ResearchLedger

open Layout

namespace AccountName

def layout : Layout AccountName := string.refine text ofString?

end AccountName

namespace PublicKey

def layout : Layout PublicKey := string.refine toHex ofText?

end PublicKey

namespace Asset

def layout : Layout Asset where
  write a := integer64.write a.amount ++ word.write a.symbol.code
  read := return ⟨← integer64.read, ⟨← word.read⟩⟩

end Asset

namespace Authority

def layout : Layout Authority where
  write a :=
    word32.write a.threshold
      ++ (map AccountName.layout word16).write a.accounts
      ++ (map PublicKey.layout word16).write a.keys
  read := return ⟨← word32.read, ← (map AccountName.layout word16).read,
    ← (map PublicKey.layout word16).read⟩

end Authority

namespace Config

def layout : Layout Config where
  write c :=
    word.write c.voteRegeneration ++ word.write c.reverseAuctionWindow
      ++ integer64.write c.votePowerCostDivisor ++ word32.write c.withdrawIntervals
      ++ word.write c.withdrawIntervalSeconds ++ word16.write c.maxWithdrawRoutes
      ++ word16.write c.maxWitnessVotes ++ word.write c.maxWitnessUrlLength
      ++ word.write c.ownerUpdateLimit ++ word.write c.recoveryRequestLifetime
      ++ word.write c.ownerRecoveryPeriod ++ word.write c.delegationReturnPeriod
      ++ word.write c.contentActivityWindow ++ word.write c.proposalMinLifetime
      ++ word.write c.proposalMaxLifetime ++ integer64.write c.minAccountCreationFee
      ++ integer64.write c.powerDownFloorMultiplier ++ word16.write c.referencesShare
      ++ word16.write c.curatorsShare ++ word16.write c.reviewVotersShare
      ++ AccountName.layout.write c.registrar
  read := return ⟨← word.read, ← word.read, ← integer64.read, ← word32.read, ← word.read,
    ← word16.read, ← word16.read, ← word.read, ← word.read, ← word.read, ← word.read, ← word.read,
    ← word.read, ← word.read, ← word.read, ← integer64.read, ← integer64.read, ← word16.read,
    ← word16.read, ← word16.read, ← AccountName.layout.read⟩

end Config

namespace PowerDown

def layout : Layout PowerDown where
  write p :=
    integer64.write p.rate ++ word.write p.next ++ integer64.write p.total ++ integer64.write p.withdrawn
  read := return ⟨← integer64.read, ← word.read, ← integer64.read, ← integer64.read⟩

end PowerDown

namespace Account

def layout : Layout Account where
  write a :=
    AccountName.layout.write a.name ++ PublicKey.layout.write a.memoKey ++ string.write a.metadata
      ++ Asset.layout.write a.balance ++ integer64.write a.commonTokens ++ integer64.write a.delegated
      ++ integer64.write a.received ++ PowerDown.layout.write a.powerDown
      ++ word16.write a.withdrawRoutes ++ (option AccountName.layout).write a.proxy
      ++ (vector integer64 maxProxyDepth).write a.proxied ++ word16.write a.witnessesVotedFor
      ++ word16.write a.votingPower ++ word.write a.lastVoteTime
      ++ (option AccountName.layout).write a.recoveryPartner ++ word.write a.lastRecovery
      ++ bool.write a.canVote ++ bool.write a.mined ++ word.write a.created
  read := return ⟨← AccountName.layout.read, ← PublicKey.layout.read, ← string.read,
    ← Asset.layout.read, ← integer64.read, ← integer64.read, ← integer64.read, ← PowerDown.layout.read,
    ← word16.read, ← (option AccountName.layout).read, ← (vector integer64 maxProxyDepth).read,
    ← word16.read, ← word16.read, ← word.read, ← (option AccountName.layout).read, ← word.read,
    ← bool.read, ← bool.read, ← word.read⟩

end Account

namespace AccountAuthority

def layout : Layout AccountAuthority where
  write a :=
    AccountName.layout.write a.account ++ Authority.layout.write a.owner
      ++ Authority.layout.write a.active ++ Authority.layout.write a.posting
      ++ word.write a.lastOwnerUpdate
  read := return ⟨← AccountName.layout.read, ← Authority.layout.read, ← Authority.layout.read,
    ← Authority.layout.read, ← word.read⟩

end AccountAuthority

namespace ReplacedOwner

def layout : Layout ReplacedOwner where
  write h :=
    AccountName.layout.write h.account ++ Authority.layout.write h.authority
      ++ word.write h.lastValid
  read := return ⟨← AccountName.layout.read, ← Authority.layout.read, ← word.read⟩

end ReplacedOwner

namespace RecoveryRequest

def layout : Layout RecoveryRequest where
  write r :=
    AccountName.layout.write r.account ++ Authority.layout.write r.newOwner ++ word.write r.expires
  read := return ⟨← AccountName.layout.read, ← Authority.layout.read, ← word.read⟩

end RecoveryRequest

namespace PartnerChange

def layout : Layout PartnerChange where
  write c :=
    AccountName.layout.write c.account ++ AccountName.layout.write c.partner
      ++ word.write c.effective
  read := return ⟨← AccountName.layout.read, ← AccountName.layout.read, ← word.read⟩

end PartnerChange

namespace WithdrawRoute

def layout : Layout WithdrawRoute where
  write r :=
    AccountName.layout.write r.source ++ AccountName.layout.write r.target
      ++ word16.write r.percent ++ bool.write r.asCommonTokens
  read := return ⟨← AccountName.layout.read, ← AccountName.layout.read, ← word16.read, ← bool.read⟩

end WithdrawRoute

namespace Delegation

def layout : Layout Delegation where
  write d :=
    AccountName.layout.write d.delegator ++ AccountName.layout.write d.delegatee
      ++ integer64.write d.amount ++ word.write d.since
  read := return ⟨← AccountName.layout.read, ← AccountName.layout.read, ← integer64.read, ← word.read⟩

end Delegation

namespace ExpiringDelegation

def layout : Layout ExpiringDelegation where
  write e := AccountName.layout.write e.delegator ++ integer64.write e.amount ++ word.write e.expiration
  read := return ⟨← AccountName.layout.read, ← integer64.read, ← word.read⟩

end ExpiringDelegation

namespace ExpertToken

def layout : Layout ExpertToken where
  write t :=
    AccountName.layout.write t.account ++ word.write t.discipline ++ integer64.write t.amount
      ++ word16.write t.votingPower ++ word.write t.lastVoteTime
  read := return ⟨← AccountName.layout.read, ← word.read, ← integer64.read, ← word16.read, ← word.read⟩

end ExpertToken

namespace Vote

def layout : Layout Vote where
  write v :=
    AccountName.layout.write v.voter ++ word.write v.discipline ++ word.write v.research
      ++ word.write v.content ++ integer16.write v.percent ++ word.write v.weight
      ++ word16.write v.usedPower ++ word.write v.tokens ++ word.write v.time
  read := return ⟨← AccountName.layout.read, ← word.read, ← word.read, ← word.read,
    ← integer16.read, ← word.read, ← word16.read, ← word.read, ← word.read⟩

end Vote

namespace ReviewVote

def layout : Layout ReviewVote where
  write v :=
    AccountName.layout.write v.voter ++ word.write v.discipline ++ word.write v.review
      ++ integer16.write v.percent ++ word.write v.weight ++ word16.write v.usedPower
      ++ word.write v.tokens ++ word.write v.time
  read := return ⟨← AccountName.layout.read, ← word.read, ← word.read, ← integer16.read,
    ← word.read, ← word16.read, ← word.read, ← word.read⟩

end ReviewVote

namespace VoteTotals

def layout : Layout VoteTotals where
  write t :=
    word.write t.content ++ word.write t.discipline ++ word.write t.research
      ++ word.write t.weight ++ word.write t.activeWeight ++ word.write t.researchWeight
      ++ word.write t.activeResearchWeight ++ word.write t.curatorsWeight
      ++ word.write t.activeCuratorsWeight
  read := return ⟨← word.read, ← word.read, ← word.read, ← word.read, ← word.read, ← word.read,
    ← word.read, ← word.read, ← word.read⟩

end VoteTotals

namespace Discipline

def layout : Layout Discipline where
  write d :=
    word.write d.id ++ (option word).write d.parent ++ string.write d.name
      ++ word.write d.activeWeight ++ word.write d.activeResearchWeight
      ++ word.write d.activeReviewWeight
  read := return ⟨← word.read, ← (option word).read, ← string.read, ← word.read, ← word.read,
    ← word.read⟩

end Discipline

namespace ResearchGroup

def layout : Layout ResearchGroup where
  write g :=
    word.write g.id ++ string.write g.name ++ string.write g.permlink ++ string.write g.description
      ++ word16.write g.quorumPercent ++ word32.write g.totalTokens ++ integer64.write g.balance
  read := return ⟨← word.read, ← string.read, ← string.read, ← string.read, ← word16.read,
    ← word32.read, ← integer64.read⟩

end ResearchGroup

namespace Research

def layout : Layout Research where
  write r :=
    word.write r.id ++ word.write r.group ++ string.write r.title ++ string.write r.abstractText
      ++ string.write r.permlink ++ word16.write r.ownedTokens ++ word16.write r.reviewSharePercent
      ++ (set word).write r.disciplines ++ word.write r.created
  read := return ⟨← word.read, ← word.read, ← string.read, ← string.read, ← string.read,
    ← word16.read, ← word16.read, ← (set word).read, ← word.read⟩

end Research

namespace ContentType

def layout : Layout ContentType := choice word32 [announcement, milestone, finalResult, review]

end ContentType

namespace ActivityState

def layout : Layout ActivityState := choice word32 [active, inactive]

end ActivityState

namespace Content

def layout : Layout Content where
  write c :=
    word.write c.id ++ word.write c.research ++ ContentType.layout.write c.type
      ++ string.write c.title ++ string.write c.text ++ string.write c.permlink
      ++ (list AccountName.layout).write c.authors ++ (list word).write c.references
      ++ (list string).write c.externalReferences ++ word.write c.created
      ++ ActivityState.layout.write c.activity ++ word.write c.activityEnd
  read := return ⟨← word.read, ← word.read, ← ContentType.layout.read, ← string.read,
    ← string.read, ← string.read, ← (list AccountName.layout).read, ← (list word).read,
    ← (list string).read, ← word.read, ← ActivityState.layout.read, ← word.read⟩

end Content

namespace Review

def layout : Layout Review where
  write r :=
    word.write r.id ++ word.write r.content ++ AccountName.layout.write r.author
      ++ string.write r.text ++ bool.write r.isPositive ++ (set word).write r.disciplines
      ++ (list word).write r.references ++ (list string).write r.externalReferences
      ++ word.write r.created ++ (map word word).write r.rewardWeights
      ++ (map word word).write r.curationWeights ++ (map word word32).write r.weightModifiers
      ++ (map word integer64).write r.expertiseUsed
  read := return ⟨← word.read, ← word.read, ← AccountName.layout.read, ← string.read, ← bool.read,
    ← (set word).read, ← (list word).read, ← (list string).read, ← word.read,
    ← (map word word).read, ← (map word word).read, ← (map word word32).read,
    ← (map word integer64).read⟩

end Review

namespace ChainProperties

def layout : Layout ChainProperties where
  write p := Asset.layout.write p.accountCreationFee ++ word32.write p.maximumBlockSize
  read := return ⟨← Asset.layout.read, ← word32.read⟩

end ChainProperties

namespace Witness

def layout : Layout Witness where
  write w :=
    AccountName.layout.write w.owner ++ string.write w.url ++ PublicKey.layout.write w.signingKey
      ++ ChainProperties.layout.write w.properties ++ integer64.write w.votes ++ word.write w.created
  read := return ⟨← AccountName.layout.read, ← string.read, ← PublicKey.layout.read,
    ← ChainProperties.layout.read, ← integer64.read, ← word.read⟩

end Witness

namespace Grant

def layout : Layout Grant where
  write g :=
    word.write g.id ++ AccountName.layout.write g.owner ++ word.write g.discipline
      ++ integer64.write g.amount ++ integer64.write g.perBlock ++ word.write g.startBlock
      ++ word.write g.endBlock
  read := return ⟨← word.read, ← AccountName.layout.read, ← word.read, ← integer64.read,
    ← integer64.read, ← word.read, ← word.read⟩

end Grant

namespace ProposalStatus

def layout : Layout ProposalStatus := choice word32 [active, approved, expired]

end ProposalStatus

namespace Proposal

def layout : Layout Proposal where
  write p :=
    word.write p.id ++ word.write p.group ++ AccountName.layout.write p.creator
      ++ string.write p.data ++ word16.write p.quorumPercent ++ ProposalStatus.layout.write p.status
      ++ (set AccountName.layout).write p.voters ++ word32.write p.totalVoted
      ++ word.write p.created ++ word.write p.expiration
  read := return ⟨← word.read, ← word.read, ← AccountName.layout.read, ← string.read,
    ← word16.read, ← ProposalStatus.layout.read, ← (set AccountName.layout).read, ← word32.read,
    ← word.read, ← word.read⟩

end Proposal

namespace IdCounters

def layout : Layout IdCounters where
  write c :=
    word.write c.group ++ word.write c.research ++ word.write c.content ++ word.write c.review
      ++ word.write c.grant ++ word.write c.proposal ++ word.write c.expiringDelegation
  read := return ⟨← word.read, ← word.read, ← word.read, ← word.read, ← word.read, ← word.read,
    ← word.read⟩

end IdCounters

end ResearchLedger
