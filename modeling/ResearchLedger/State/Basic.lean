import ResearchLedger.Account.Basic
import ResearchLedger.CommonTokens.Basic
import ResearchLedger.Config.Basic
import ResearchLedger.Expertise.Basic
import ResearchLedger.Grant.Basic
import ResearchLedger.Proposal.Basic
import ResearchLedger.Recovery.Basic
import ResearchLedger.Research.Basic
import ResearchLedger.Voting.Basic
import ResearchLedger.Witness.Basic
/-!
The state of the ledger: its stores, the head of the chain, and look-up in the stores.
-/

namespace ResearchLedger

/-- The next free identifiers. -/
structure IdCounters where
  group : GroupId := 0
  research : ResearchId := 0
  content : ContentId := 0
  review : ReviewId := 0
  grant : GrantId := 0
  proposal : ProposalId := 0
  expiringDelegation : Nat := 0
deriving DecidableEq

/-- All stores of the ledger. Records refer to each other by name and identifier only. -/
structure State where
  config : Config
  accounts : SortedMap AccountName Account := ∅
  authorities : SortedMap AccountName AccountAuthority := ∅
  /-- The replaced owner authorities of each account, the oldest first. -/
  ownerHistory : SortedMap AccountName (List ReplacedOwner) := ∅
  recoveryRequests : SortedMap AccountName RecoveryRequest := ∅
  partnerChanges : SortedMap AccountName PartnerChange := ∅
  /-- The routes of each account by their target. -/
  withdrawRoutes : SortedMap AccountName (SortedMap AccountName WithdrawRoute) := ∅
  /-- The delegations by delegator and delegatee. -/
  delegations : SortedMap (AccountName × AccountName) Delegation := ∅
  /-- The delegations on their way back, by expiration and number. -/
  expiringDelegations : SortedMap (Seconds × Nat) ExpiringDelegation := ∅
  expertTokens : SortedMap AccountName (SortedMap DisciplineId ExpertToken) := ∅
  votes : SortedMap (ContentId × DisciplineId) (SortedMap AccountName Vote) := ∅
  reviewVotes : SortedMap (ReviewId × DisciplineId) (SortedMap AccountName ReviewVote) := ∅
  voteTotals : SortedMap (ContentId × DisciplineId) VoteTotals := ∅
  disciplines : SortedMap DisciplineId Discipline := ∅
  groups : SortedMap GroupId ResearchGroup := ∅
  groupTokens : SortedMap GroupId (SortedMap AccountName Nat) := ∅
  researches : SortedMap ResearchId Research := ∅
  contents : SortedMap ContentId Content := ∅
  reviews : SortedMap ReviewId Review := ∅
  researchTokens : SortedMap ResearchId (SortedMap AccountName Nat) := ∅
  reviewsByContent : SortedSet (ContentId × ReviewId) := ∅
  groupPermlinks : SortedMap String GroupId := ∅
  researchPermlinks : SortedMap (GroupId × String) ResearchId := ∅
  contentPermlinks : SortedMap (ResearchId × String) ContentId := ∅
  witnesses : SortedMap AccountName Witness := ∅
  /-- The witnesses that each account votes for. -/
  witnessVotes : SortedMap AccountName (SortedSet AccountName) := ∅
  grants : SortedMap GrantId Grant := ∅
  proposals : SortedMap ProposalId Proposal := ∅
  nextIds : IdCounters := {}
deriving DecidableEq

/-- The head of the chain. -/
structure Head where
  time : Seconds
  block : Nat
  /-- The total active weight of all disciplines. -/
  activeWeight : Nat
deriving DecidableEq

namespace Head

/-- The head at a time and block, before any vote. -/
def start (time : Seconds) (block : Nat) : Head := ⟨time, block, 0⟩

/-- The head one block and some seconds later. -/
def advance (h : Head) (seconds : Seconds) : Head :=
  { h with time := h.time.after seconds, block := Nat.min (h.block + 1) maxWord }

end Head

namespace State

/-- The state with no other discipline than the common one. -/
def empty (config : Config) : State where
  config
  disciplines :=
    SortedMap.insert ∅ commonDiscipline (Discipline.fresh commonDiscipline none "Common")

/-- The empty state under valid parameters. -/
def ofConfig (config : Config) : Except LedgerError State :=
  match config.validate with
  | .ok () => .ok (empty config)
  | .error fault => .error (.invalidConfig fault)

/-- The value of an option, or an error. -/
def found {α : Type} (a : Option α) (e : LedgerError) : Except LedgerError α :=
  match a with
  | some a => .ok a
  | none => .error e

variable (s : State)

def account (name : AccountName) : Except LedgerError Account :=
  found (s.accounts.get? name) (.accountNotFound name)

def authority (name : AccountName) : Except LedgerError AccountAuthority :=
  found (s.authorities.get? name) (.accountNotFound name)

/-- Refuses a name that no account has. -/
def checkAccount (name : AccountName) : Except LedgerError Unit := do
  let _ ← s.account name

/-- Refuses an authority that names an unknown account. -/
def checkAuthority (a : Authority) : Except LedgerError Unit :=
  a.namedAccounts.forM s.checkAccount

def expertToken? (account : AccountName) (discipline : DisciplineId) : Option ExpertToken :=
  (s.expertTokens.get? account).bind (·.get? discipline)

def expertToken (account : AccountName) (discipline : DisciplineId) : Except LedgerError ExpertToken :=
  found (s.expertToken? account discipline) (.expertTokenNotFound account discipline)

/-- The expert tokens of an account by discipline. -/
def expertTokensOf (account : AccountName) : List ExpertToken :=
  (s.expertTokens.getD account ∅).values

def discipline (id : DisciplineId) : Except LedgerError Discipline :=
  found (s.disciplines.get? id) (.disciplineNotFound id)

def group (id : GroupId) : Except LedgerError ResearchGroup :=
  found (s.groups.get? id) (.researchGroupNotFound id)

def research (id : ResearchId) : Except LedgerError Research :=
  found (s.researches.get? id) (.researchNotFound id)

def content (id : ContentId) : Except LedgerError Content :=
  found (s.contents.get? id) (.contentNotFound id)

def review (id : ReviewId) : Except LedgerError Review :=
  found (s.reviews.get? id) (.reviewNotFound id)

def witness (owner : AccountName) : Except LedgerError Witness :=
  found (s.witnesses.get? owner) (.witnessNotFound owner)

def grant (id : GrantId) : Except LedgerError Grant :=
  found (s.grants.get? id) (.grantNotFound id)

def proposal (id : ProposalId) : Except LedgerError Proposal :=
  found (s.proposals.get? id) (.proposalNotFound id)

def vote? (voter : AccountName) (discipline : DisciplineId) (content : ContentId) : Option Vote :=
  (s.votes.get? (content, discipline)).bind (·.get? voter)

def reviewVote? (voter : AccountName) (discipline : DisciplineId) (review : ReviewId) :
    Option ReviewVote :=
  (s.reviewVotes.get? (review, discipline)).bind (·.get? voter)

def voteTotals? (content : ContentId) (discipline : DisciplineId) : Option VoteTotals :=
  s.voteTotals.get? (content, discipline)

/-- The totals of the contents with votes in a discipline. -/
def votedIn (discipline : DisciplineId) : List (ContentId × VoteTotals) :=
  (s.voteTotals.entries.filter (·.1.2 == discipline)).map (fun e => (e.1.1, e.2))

def delegation? (delegator delegatee : AccountName) : Option Delegation :=
  s.delegations.get? (delegator, delegatee)

/-- The group tokens that an account holds. -/
def groupTokensOf (group : GroupId) (account : AccountName) : Nat :=
  (s.groupTokens.getD group ∅).getD account 0

/-- The research tokens that an account holds. -/
def researchTokensOf (research : ResearchId) (account : AccountName) : Nat :=
  (s.researchTokens.getD research ∅).getD account 0

/-- The witnesses that an account votes for, by name. -/
def witnessesVotedBy (voter : AccountName) : List AccountName :=
  SortedSet.toList (s.witnessVotes.getD voter ∅)

/-- The reviews of a content in the order in which they were made. -/
def reviewsOf (content : ContentId) : List Review :=
  (s.reviewsByContent.keys.filter (·.1 == content)).filterMap (fun k => s.reviews.get? k.2)

/-- The liquid balance of an account, or zero. -/
def balanceOf (name : AccountName) : Amount :=
  match s.accounts.get? name with
  | some a => a.balance.amount
  | none => 0

/-- The total active weight of the disciplines, if it fits. -/
def activeWeight : Except LedgerError Nat :=
  s.disciplines.values.foldlM
    (fun sum d =>
      if maxWord < sum + d.activeWeight then .error (.overflow .activeDisciplinesWeight)
      else .ok (sum + d.activeWeight))
    0

variable {s}

/-- Changes an account, if it exists. -/
def modifyAccount (s : State) (name : AccountName) (f : Account → Account) : State :=
  { s with accounts := s.accounts.modify name f }

end State

/-- The stores together with the head of the chain. -/
structure Ledger where
  state : State
  head : Head
deriving DecidableEq

/-- A computation on a ledger that may fail; what it changed before it failed stays changed. -/
abbrev LedgerM := ExceptT LedgerError (StateM Ledger)

namespace LedgerM

/-- Runs a computation, and on failure restores the ledger from before it. -/
def atomically {α : Type} (x : LedgerM α) : LedgerM α := fun l =>
  match x l with
  | (.error e, _) => (.error e, l)
  | r => r

/-- Changes the stores. -/
def modifyState (f : State → State) : LedgerM Unit :=
  modify (fun l => { l with state := f l.state })

/-- Makes a step for each member of a list, and collects what is reported. -/
def collect {α ε : Type} (step : α → LedgerM (List ε)) : List α → LedgerM (List ε)
  | [] => return []
  | a :: as => do
    let reports ← step a
    return reports ++ (← collect step as)

end LedgerM

end ResearchLedger
