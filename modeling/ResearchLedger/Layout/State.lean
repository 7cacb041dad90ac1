import ResearchLedger.Layout.Record
/-!
The stores of the ledger as bytes.
-/

namespace ResearchLedger

open Layout

namespace State

def accountsLayout : Layout (SortedMap AccountName Account) := map AccountName.layout Account.layout

def authoritiesLayout : Layout (SortedMap AccountName AccountAuthority) :=
  map AccountName.layout AccountAuthority.layout

def ownerHistoryLayout : Layout (SortedMap AccountName (List ReplacedOwner)) :=
  map AccountName.layout (list ReplacedOwner.layout)

def recoveryRequestsLayout : Layout (SortedMap AccountName RecoveryRequest) :=
  map AccountName.layout RecoveryRequest.layout

def partnerChangesLayout : Layout (SortedMap AccountName PartnerChange) :=
  map AccountName.layout PartnerChange.layout

def withdrawRoutesLayout : Layout (SortedMap AccountName (SortedMap AccountName WithdrawRoute)) :=
  map AccountName.layout (map AccountName.layout WithdrawRoute.layout)

def delegationsLayout : Layout (SortedMap (AccountName × AccountName) Delegation) :=
  map (pair AccountName.layout AccountName.layout) Delegation.layout

def expiringDelegationsLayout : Layout (SortedMap (Seconds × Nat) ExpiringDelegation) :=
  map (pair word word) ExpiringDelegation.layout

def expertTokensLayout : Layout (SortedMap AccountName (SortedMap DisciplineId ExpertToken)) :=
  map AccountName.layout (map word ExpertToken.layout)

def votesLayout : Layout (SortedMap (ContentId × DisciplineId) (SortedMap AccountName Vote)) :=
  map (pair word word) (map AccountName.layout Vote.layout)

def reviewVotesLayout :
    Layout (SortedMap (ReviewId × DisciplineId) (SortedMap AccountName ReviewVote)) :=
  map (pair word word) (map AccountName.layout ReviewVote.layout)

def voteTotalsLayout : Layout (SortedMap (ContentId × DisciplineId) VoteTotals) :=
  map (pair word word) VoteTotals.layout

def disciplinesLayout : Layout (SortedMap DisciplineId Discipline) := map word Discipline.layout

def groupsLayout : Layout (SortedMap GroupId ResearchGroup) := map word ResearchGroup.layout

def groupTokensLayout : Layout (SortedMap GroupId (SortedMap AccountName Nat)) :=
  map word (map AccountName.layout word32)

def researchesLayout : Layout (SortedMap ResearchId Research) := map word Research.layout

def contentsLayout : Layout (SortedMap ContentId Content) := map word Content.layout

def reviewsLayout : Layout (SortedMap ReviewId Review) := map word Review.layout

def researchTokensLayout : Layout (SortedMap ResearchId (SortedMap AccountName Nat)) :=
  map word (map AccountName.layout word16)

def reviewsByContentLayout : Layout (SortedSet (ContentId × ReviewId)) := set (pair word word)

def groupPermlinksLayout : Layout (SortedMap String GroupId) := map string word

def researchPermlinksLayout : Layout (SortedMap (GroupId × String) ResearchId) :=
  map (pair word string) word

def contentPermlinksLayout : Layout (SortedMap (ResearchId × String) ContentId) :=
  map (pair word string) word

def witnessesLayout : Layout (SortedMap AccountName Witness) := map AccountName.layout Witness.layout

def witnessVotesLayout : Layout (SortedMap AccountName (SortedSet AccountName)) :=
  map AccountName.layout (set AccountName.layout)

def grantsLayout : Layout (SortedMap GrantId Grant) := map word Grant.layout

def proposalsLayout : Layout (SortedMap ProposalId Proposal) := map word Proposal.layout

/-- Each store's name with its bytes, in the order in which they make up the state. -/
def stores (s : State) : List (String × List UInt8) :=
  [("accounts", accountsLayout.write s.accounts),
    ("authorities", authoritiesLayout.write s.authorities),
    ("owner_history", ownerHistoryLayout.write s.ownerHistory),
    ("recovery_requests", recoveryRequestsLayout.write s.recoveryRequests),
    ("change_recovery_requests", partnerChangesLayout.write s.partnerChanges),
    ("withdraw_routes", withdrawRoutesLayout.write s.withdrawRoutes),
    ("delegations", delegationsLayout.write s.delegations),
    ("expiring_delegations", expiringDelegationsLayout.write s.expiringDelegations),
    ("expert_tokens", expertTokensLayout.write s.expertTokens),
    ("votes", votesLayout.write s.votes),
    ("review_votes", reviewVotesLayout.write s.reviewVotes),
    ("total_votes", voteTotalsLayout.write s.voteTotals),
    ("disciplines", disciplinesLayout.write s.disciplines),
    ("research_groups", groupsLayout.write s.groups),
    ("group_tokens", groupTokensLayout.write s.groupTokens),
    ("researches", researchesLayout.write s.researches),
    ("research_contents", contentsLayout.write s.contents),
    ("reviews", reviewsLayout.write s.reviews),
    ("research_tokens", researchTokensLayout.write s.researchTokens),
    ("reviews_by_content", reviewsByContentLayout.write s.reviewsByContent),
    ("group_permlinks", groupPermlinksLayout.write s.groupPermlinks),
    ("research_permlinks", researchPermlinksLayout.write s.researchPermlinks),
    ("content_permlinks", contentPermlinksLayout.write s.contentPermlinks),
    ("witnesses", witnessesLayout.write s.witnesses),
    ("witness_votes", witnessVotesLayout.write s.witnessVotes),
    ("grants", grantsLayout.write s.grants),
    ("proposals", proposalsLayout.write s.proposals),
    ("next_ids", IdCounters.layout.write s.nextIds)]

/-- The whole state: its parameters, then its stores. -/
def layout : Layout State where
  write s := Config.layout.write s.config ++ s.stores.flatMap (·.2)
  read := return ⟨← Config.layout.read, ← accountsLayout.read, ← authoritiesLayout.read,
    ← ownerHistoryLayout.read, ← recoveryRequestsLayout.read, ← partnerChangesLayout.read,
    ← withdrawRoutesLayout.read, ← delegationsLayout.read, ← expiringDelegationsLayout.read,
    ← expertTokensLayout.read, ← votesLayout.read, ← reviewVotesLayout.read,
    ← voteTotalsLayout.read, ← disciplinesLayout.read, ← groupsLayout.read,
    ← groupTokensLayout.read, ← researchesLayout.read, ← contentsLayout.read,
    ← reviewsLayout.read, ← researchTokensLayout.read, ← reviewsByContentLayout.read,
    ← groupPermlinksLayout.read, ← researchPermlinksLayout.read, ← contentPermlinksLayout.read,
    ← witnessesLayout.read, ← witnessVotesLayout.read, ← grantsLayout.read,
    ← proposalsLayout.read, ← IdCounters.layout.read⟩

end State

end ResearchLedger
