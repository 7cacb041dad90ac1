import ResearchLedger.Operation.Basic
import ResearchLedger.State.Basic
/-!
Research groups, their researches, the contents these publish, and the tokens by which they are
owned.
-/

namespace ResearchLedger

/-- Whether a text may name a group, research or content in links. -/
def isPermlink (s : String) : Bool :=
  let cs := s.toList
  !cs.isEmpty && cs.length < 256 && cs.all (fun c => c.isLower || c.isDigit || c == '-')

/-- Refuses a text that is no permlink. -/
def checkPermlink (s : String) : Except LedgerError Unit :=
  if isPermlink s then .ok () else .error (.invalidPermlink s)

namespace State

/-- Refuses an account that holds no token of the group. -/
def checkMember (s : State) (group : GroupId) (account : AccountName) : Except LedgerError Unit := do
  let _ ← s.group group
  if s.groupTokensOf group account = 0 then throw (.notGroupMember account group)

/-- Refuses a content that does not exist. -/
def checkContent (s : State) (id : ContentId) : Except LedgerError Unit := do
  let _ ← s.content id

end State

namespace CreateGroup

variable (op : CreateGroup)

def check (s : State) : Except LedgerError Unit := do
  s.checkAccount op.creator
  checkPermlink op.permlink
  if op.quorumPercent = 0 ∨ wholePercent < op.quorumPercent then
    throw (.invalidPercent op.quorumPercent)
  if s.groupPermlinks.contains op.permlink then throw (.duplicatePermlink op.permlink)

/-- The new group; its tokens make up a whole. -/
def group (s : State) : ResearchGroup :=
  ⟨s.nextIds.group, op.name, op.permlink, op.description, op.quorumPercent, wholePercent, 0⟩

/-- The creator holds all tokens of the new group. -/
def commit (s : State) : State :=
  let g := op.group s
  { s with
    nextIds := { s.nextIds with group := s.nextIds.group + 1 }
    groupPermlinks := s.groupPermlinks.insert g.permlink g.id
    groupTokens :=
      s.groupTokens.insert g.id ((s.groupTokens.getD g.id ∅).insert op.creator g.totalTokens)
    groups := s.groups.insert g.id g }

end CreateGroup

namespace CreateResearch

variable (op : CreateResearch)

def check (s : State) : Except LedgerError Unit := do
  s.checkMember op.group op.creator
  checkPermlink op.permlink
  if s.researchPermlinks.contains (op.group, op.permlink) then
    throw (.duplicatePermlink op.permlink)
  if wholePercent - s.config.referencesShare - s.config.curatorsShare < op.reviewSharePercent then
    throw (.invalidPercent op.reviewSharePercent)
  if op.disciplines.isEmpty then throw (.invalidOperation .researchWithoutDiscipline)
  op.disciplines.forM (fun d => do let _ ← s.discipline d)

/-- The new research; the group owns all its tokens. -/
def research (now : Seconds) (s : State) : Research where
  id := s.nextIds.research
  group := op.group
  title := op.title
  abstractText := op.abstractText
  permlink := op.permlink
  ownedTokens := wholePercent
  reviewSharePercent := op.reviewSharePercent
  disciplines := SortedSet.ofKeys op.disciplines
  created := now

def commit (now : Seconds) (s : State) : State :=
  let r := op.research now s
  { s with
    nextIds := { s.nextIds with research := s.nextIds.research + 1 }
    researchPermlinks := s.researchPermlinks.insert (r.group, r.permlink) r.id
    researches := s.researches.insert r.id r }

end CreateResearch

namespace CreateContent

variable (op : CreateContent)

def check (s : State) : Except LedgerError Unit := do
  let r ← s.research op.research
  s.checkMember r.group op.creator
  checkPermlink op.permlink
  if s.contentPermlinks.contains (op.research, op.permlink) then
    throw (.duplicatePermlink op.permlink)
  if op.authors.isEmpty then throw (.invalidOperation .contentWithoutAuthor)
  op.authors.forM s.checkAccount
  op.references.forM s.checkContent

/-- The new content, active for its window; an author named twice counts once. -/
def content (now : Seconds) (s : State) : Content where
  id := s.nextIds.content
  research := op.research
  type := op.type
  title := op.title
  text := op.text
  permlink := op.permlink
  authors := op.authors.eraseDups
  references := op.references
  externalReferences := op.externalReferences
  created := now
  activity := .active
  activityEnd := now.after s.config.contentActivityWindow

def commit (now : Seconds) (s : State) : State :=
  let c := op.content now s
  { s with
    nextIds := { s.nextIds with content := s.nextIds.content + 1 }
    contentPermlinks := s.contentPermlinks.insert (c.research, c.permlink) c.id
    contents := s.contents.insert c.id c }

end CreateContent

namespace TransferResearchTokens

variable (op : TransferResearchTokens)

/-- The tokens that the source has to give: the group's own to a member, else the sender's. -/
def available (s : State) (r : Research) : Except LedgerError Nat := do
  if op.fromGroup then
    s.checkMember r.group op.sender
    return r.ownedTokens
  else
    if op.sender = op.receiver then throw (.invalidOperation .researchTokensToSelf)
    return s.researchTokensOf op.research op.sender

def check (s : State) : Except LedgerError Unit := do
  if op.amount = 0 then throw .nonPositiveAmount
  if wholePercent < op.amount then throw (.invalidPercent op.amount)
  let r ← s.research op.research
  s.checkAccount op.sender
  s.checkAccount op.receiver
  let available ← op.available s r
  if available < op.amount then throw (.insufficientResearchTokens op.amount available)

/-- The holdings after the sender has given the tokens; an empty holding is dropped. -/
def takeFrom (holders : SortedMap AccountName Nat) : SortedMap AccountName Nat :=
  match holders.get? op.sender with
  | none => holders
  | some held =>
    if held - op.amount = 0 then holders.erase op.sender
    else holders.insert op.sender (held - op.amount)

def commit (s : State) : State :=
  let holders := s.researchTokens.getD op.research ∅
  let (s, holders) :=
    if op.fromGroup then
      ({ s with
        researches := s.researches.modify op.research
          (fun r => { r with ownedTokens := r.ownedTokens - op.amount }) }, holders)
    else (s, op.takeFrom holders)
  let holders := holders.insert op.receiver (holders.getD op.receiver 0 + op.amount)
  { s with researchTokens := s.researchTokens.insert op.research holders }

end TransferResearchTokens

end ResearchLedger
