import ResearchLedger.Json.Parser
import ResearchLedger.Json.Printer
import ResearchLedger.Json.Record
import ResearchLedger.Operation.Basic
/-!
Operations as JSON: an object whose only member is named for the operation's kind and holds its
fields.
-/

namespace ResearchLedger

open Json (required withDefault)

namespace AccountCreate

def toJson (op : AccountCreate) : Json :=
  .object [
    ("fee", op.fee.toJson),
    ("creator", op.creator.toJson),
    ("new_account_name", op.name.toJson),
    ("owner", op.owner.toJson),
    ("active", op.active.toJson),
    ("posting", op.posting.toJson),
    ("memo_key", op.memoKey.toJson),
    ("json_metadata", .string op.metadata)]

def ofJson? (j : Json) : Option AccountCreate := do
  let [fee, creator, name, owner, active, posting, memoKey, metadata] ← j.fields?
    ["fee", "creator", "new_account_name", "owner", "active", "posting", "memo_key",
      "json_metadata"] | none
  return {
    fee := ← required Asset.ofJson? fee
    creator := ← required AccountName.ofJson? creator
    name := ← required AccountName.ofJson? name
    owner := ← required Authority.ofJson? owner
    active := ← required Authority.ofJson? active
    posting := ← required Authority.ofJson? posting
    memoKey := ← required PublicKey.ofJson? memoKey
    metadata := ← withDefault "" Json.string? metadata }

end AccountCreate

namespace AccountUpdate

def toJson (op : AccountUpdate) : Json :=
  .object [
    ("account", op.account.toJson),
    ("owner", .ofOption Authority.toJson op.owner),
    ("active", .ofOption Authority.toJson op.active),
    ("posting", .ofOption Authority.toJson op.posting),
    ("memo_key", op.memoKey.toJson),
    ("json_metadata", .string op.metadata)]

def ofJson? (j : Json) : Option AccountUpdate := do
  let [account, owner, active, posting, memoKey, metadata] ← j.fields?
    ["account", "owner", "active", "posting", "memo_key", "json_metadata"] | none
  return {
    account := ← required AccountName.ofJson? account
    owner := ← withDefault none (Json.option? Authority.ofJson?) owner
    active := ← withDefault none (Json.option? Authority.ofJson?) active
    posting := ← withDefault none (Json.option? Authority.ofJson?) posting
    memoKey := ← required PublicKey.ofJson? memoKey
    metadata := ← withDefault "" Json.string? metadata }

end AccountUpdate

namespace Transfer

def toJson (op : Transfer) : Json :=
  .object [
    ("from", op.sender.toJson),
    ("to", op.recipient.toJson),
    ("amount", op.amount.toJson),
    ("memo", .string op.memo)]

def ofJson? (j : Json) : Option Transfer := do
  let [sender, recipient, amount, memo] ← j.fields? ["from", "to", "amount", "memo"] | none
  return {
    sender := ← required AccountName.ofJson? sender
    recipient := ← required AccountName.ofJson? recipient
    amount := ← required Asset.ofJson? amount
    memo := ← withDefault "" Json.string? memo }

end Transfer

namespace TransferToCommonTokens

def toJson (op : TransferToCommonTokens) : Json :=
  .object [
    ("from", op.sender.toJson),
    ("to", .ofOption AccountName.toJson op.recipient),
    ("amount", op.amount.toJson)]

def ofJson? (j : Json) : Option TransferToCommonTokens := do
  let [sender, recipient, amount] ← j.fields? ["from", "to", "amount"] | none
  return {
    sender := ← required AccountName.ofJson? sender
    recipient := ← withDefault none (Json.option? AccountName.ofJson?) recipient
    amount := ← required Asset.ofJson? amount }

end TransferToCommonTokens

namespace WithdrawCommonTokens

def toJson (op : WithdrawCommonTokens) : Json :=
  .object [("account", op.account.toJson), ("total_common_tokens_amount", .int op.total)]

def ofJson? (j : Json) : Option WithdrawCommonTokens := do
  let [account, total] ← j.fields? ["account", "total_common_tokens_amount"] | none
  return {
    account := ← required AccountName.ofJson? account
    total := ← required Json.amount? total }

end WithdrawCommonTokens

namespace SetWithdrawRoute

def toJson (op : SetWithdrawRoute) : Json :=
  .object [
    ("from_account", op.source.toJson),
    ("to_account", op.target.toJson),
    ("percent", .nat op.percent),
    ("auto_common_token", .bool op.asCommonTokens)]

def ofJson? (j : Json) : Option SetWithdrawRoute := do
  let [source, target, percent, asCommonTokens] ←
    j.fields? ["from_account", "to_account", "percent", "auto_common_token"] | none
  return {
    source := ← required AccountName.ofJson? source
    target := ← required AccountName.ofJson? target
    percent := ← required Json.word16? percent
    asCommonTokens := ← required Json.bool? asCommonTokens }

end SetWithdrawRoute

namespace DelegateCommonTokens

def toJson (op : DelegateCommonTokens) : Json :=
  .object [
    ("delegator", op.delegator.toJson),
    ("delegatee", op.delegatee.toJson),
    ("common_tokens", .int op.amount)]

def ofJson? (j : Json) : Option DelegateCommonTokens := do
  let [delegator, delegatee, amount] ←
    j.fields? ["delegator", "delegatee", "common_tokens"] | none
  return {
    delegator := ← required AccountName.ofJson? delegator
    delegatee := ← required AccountName.ofJson? delegatee
    amount := ← required Json.amount? amount }

end DelegateCommonTokens

namespace SetWitnessProxy

def toJson (op : SetWitnessProxy) : Json :=
  .object [("account", op.account.toJson), ("proxy", .ofOption AccountName.toJson op.proxy)]

def ofJson? (j : Json) : Option SetWitnessProxy := do
  let [account, proxy] ← j.fields? ["account", "proxy"] | none
  return {
    account := ← required AccountName.ofJson? account
    proxy := ← withDefault none (Json.option? AccountName.ofJson?) proxy }

end SetWitnessProxy

namespace WitnessUpdate

def toJson (op : WitnessUpdate) : Json :=
  .object [
    ("owner", op.owner.toJson),
    ("url", .string op.url),
    ("block_signing_key", op.signingKey.toJson),
    ("props", op.properties.toJson)]

def ofJson? (j : Json) : Option WitnessUpdate := do
  let [owner, url, signingKey, properties] ←
    j.fields? ["owner", "url", "block_signing_key", "props"] | none
  return {
    owner := ← required AccountName.ofJson? owner
    url := ← required Json.string? url
    signingKey := ← required PublicKey.ofJson? signingKey
    properties := ← withDefault {} ChainProperties.ofJson? properties }

end WitnessUpdate

namespace WitnessVote

def toJson (op : WitnessVote) : Json :=
  .object [
    ("account", op.account.toJson),
    ("witness", op.witness.toJson),
    ("approve", .bool op.approve)]

def ofJson? (j : Json) : Option WitnessVote := do
  let [account, witness, approve] ← j.fields? ["account", "witness", "approve"] | none
  return {
    account := ← required AccountName.ofJson? account
    witness := ← required AccountName.ofJson? witness
    approve := ← required Json.bool? approve }

end WitnessVote

namespace RequestRecovery

def toJson (op : RequestRecovery) : Json :=
  .object [
    ("recovery_account", op.partner.toJson),
    ("account_to_recover", op.account.toJson),
    ("new_owner_authority", op.newOwner.toJson)]

def ofJson? (j : Json) : Option RequestRecovery := do
  let [partner, account, newOwner] ←
    j.fields? ["recovery_account", "account_to_recover", "new_owner_authority"] | none
  return {
    partner := ← required AccountName.ofJson? partner
    account := ← required AccountName.ofJson? account
    newOwner := ← required Authority.ofJson? newOwner }

end RequestRecovery

namespace RecoverAccount

def toJson (op : RecoverAccount) : Json :=
  .object [
    ("account_to_recover", op.account.toJson),
    ("new_owner_authority", op.newOwner.toJson),
    ("recent_owner_authority", op.recentOwner.toJson)]

def ofJson? (j : Json) : Option RecoverAccount := do
  let [account, newOwner, recentOwner] ←
    j.fields? ["account_to_recover", "new_owner_authority", "recent_owner_authority"] | none
  return {
    account := ← required AccountName.ofJson? account
    newOwner := ← required Authority.ofJson? newOwner
    recentOwner := ← required Authority.ofJson? recentOwner }

end RecoverAccount

namespace ChangeRecoveryPartner

def toJson (op : ChangeRecoveryPartner) : Json :=
  .object [
    ("account_to_recover", op.account.toJson),
    ("new_recovery_account", op.partner.toJson)]

def ofJson? (j : Json) : Option ChangeRecoveryPartner := do
  let [account, partner] ← j.fields? ["account_to_recover", "new_recovery_account"] | none
  return {
    account := ← required AccountName.ofJson? account
    partner := ← required AccountName.ofJson? partner }

end ChangeRecoveryPartner

/-- The signed percentage of a vote, a number of 16 bits. -/
def Json.votePercent? : Json → Option Int := Json.int? (-0x8000) 0x7FFF

namespace VoteForContent

def toJson (op : VoteForContent) : Json :=
  .object [
    ("voter", op.voter.toJson),
    ("discipline_id", .nat op.discipline),
    ("weight", .int op.weight),
    ("research_id", .nat op.research),
    ("research_content_id", .nat op.content)]

def ofJson? (j : Json) : Option VoteForContent := do
  let [voter, discipline, weight, research, content] ←
    j.fields? ["voter", "discipline_id", "weight", "research_id", "research_content_id"] | none
  return {
    voter := ← required AccountName.ofJson? voter
    discipline := ← required Json.word? discipline
    weight := ← required Json.votePercent? weight
    research := ← required Json.word? research
    content := ← required Json.word? content }

end VoteForContent

namespace VoteForReview

def toJson (op : VoteForReview) : Json :=
  .object [
    ("voter", op.voter.toJson),
    ("discipline_id", .nat op.discipline),
    ("weight", .int op.weight),
    ("review_id", .nat op.review)]

def ofJson? (j : Json) : Option VoteForReview := do
  let [voter, discipline, weight, review] ←
    j.fields? ["voter", "discipline_id", "weight", "review_id"] | none
  return {
    voter := ← required AccountName.ofJson? voter
    discipline := ← required Json.word? discipline
    weight := ← required Json.votePercent? weight
    review := ← required Json.word? review }

end VoteForReview

namespace MakeReview

def toJson (op : MakeReview) : Json :=
  .object [
    ("author", op.author.toJson),
    ("research_content_id", .nat op.content),
    ("content", .string op.text),
    ("is_positive", .bool op.isPositive),
    ("references", .ofList .nat op.references),
    ("external_references", .ofList .string op.externalReferences)]

def ofJson? (j : Json) : Option MakeReview := do
  let [author, content, text, isPositive, references, externalReferences] ← j.fields?
    ["author", "research_content_id", "content", "is_positive", "references",
      "external_references"] | none
  return {
    author := ← required AccountName.ofJson? author
    content := ← required Json.word? content
    text := ← required Json.string? text
    isPositive := ← required Json.bool? isPositive
    references := ← withDefault [] (Json.list? Json.word?) references
    externalReferences := ← withDefault [] (Json.list? Json.string?) externalReferences }

end MakeReview

namespace CreateGroup

def toJson (op : CreateGroup) : Json :=
  .object [
    ("creator", op.creator.toJson),
    ("name", .string op.name),
    ("permlink", .string op.permlink),
    ("description", .string op.description),
    ("quorum_percent", .nat op.quorumPercent)]

def ofJson? (j : Json) : Option CreateGroup := do
  let [creator, name, permlink, description, quorumPercent] ←
    j.fields? ["creator", "name", "permlink", "description", "quorum_percent"] | none
  return {
    creator := ← required AccountName.ofJson? creator
    name := ← required Json.string? name
    permlink := ← required Json.string? permlink
    description := ← withDefault "" Json.string? description
    quorumPercent := ← required Json.word16? quorumPercent }

end CreateGroup

namespace CreateResearch

def toJson (op : CreateResearch) : Json :=
  .object [
    ("creator", op.creator.toJson),
    ("research_group_id", .nat op.group),
    ("title", .string op.title),
    ("abstract_text", .string op.abstractText),
    ("permlink", .string op.permlink),
    ("review_share_in_percent", .nat op.reviewSharePercent),
    ("disciplines", .ofList .nat op.disciplines)]

def ofJson? (j : Json) : Option CreateResearch := do
  let [creator, group, title, abstractText, permlink, reviewSharePercent, disciplines] ← j.fields?
    ["creator", "research_group_id", "title", "abstract_text", "permlink",
      "review_share_in_percent", "disciplines"] | none
  return {
    creator := ← required AccountName.ofJson? creator
    group := ← required Json.word? group
    title := ← required Json.string? title
    abstractText := ← withDefault "" Json.string? abstractText
    permlink := ← required Json.string? permlink
    reviewSharePercent := ← required Json.word16? reviewSharePercent
    disciplines := ← required (Json.list? Json.word?) disciplines }

end CreateResearch

namespace CreateContent

def toJson (op : CreateContent) : Json :=
  .object [
    ("creator", op.creator.toJson),
    ("research_id", .nat op.research),
    ("content_type", op.type.toJson),
    ("title", .string op.title),
    ("content", .string op.text),
    ("permlink", .string op.permlink),
    ("authors", .ofList AccountName.toJson op.authors),
    ("references", .ofList .nat op.references),
    ("external_references", .ofList .string op.externalReferences)]

def ofJson? (j : Json) : Option CreateContent := do
  let [creator, research, type, title, text, permlink, authors, references, externalReferences] ←
    j.fields?
      ["creator", "research_id", "content_type", "title", "content", "permlink", "authors",
        "references", "external_references"] | none
  return {
    creator := ← required AccountName.ofJson? creator
    research := ← required Json.word? research
    type := ← required ContentType.ofJson? type
    title := ← required Json.string? title
    text := ← required Json.string? text
    permlink := ← required Json.string? permlink
    authors := ← required (Json.list? AccountName.ofJson?) authors
    references := ← withDefault [] (Json.list? Json.word?) references
    externalReferences := ← withDefault [] (Json.list? Json.string?) externalReferences }

end CreateContent

namespace TransferResearchTokens

def toJson (op : TransferResearchTokens) : Json :=
  .object [
    ("research_id", .nat op.research),
    ("sender", op.sender.toJson),
    ("receiver", op.receiver.toJson),
    ("amount", .nat op.amount),
    ("from_research_owned", .bool op.fromGroup)]

def ofJson? (j : Json) : Option TransferResearchTokens := do
  let [research, sender, receiver, amount, fromGroup] ←
    j.fields? ["research_id", "sender", "receiver", "amount", "from_research_owned"] | none
  return {
    research := ← required Json.word? research
    sender := ← required AccountName.ofJson? sender
    receiver := ← required AccountName.ofJson? receiver
    amount := ← required Json.word16? amount
    fromGroup := ← withDefault false Json.bool? fromGroup }

end TransferResearchTokens

namespace AddExpertise

def toJson (op : AddExpertise) : Json :=
  .object [
    ("owner", op.owner.toJson),
    ("account_name", op.account.toJson),
    ("disciplines_to_add", .ofList (fun e => .array [.nat e.1, .int e.2]) op.additions)]

def ofJson? (j : Json) : Option AddExpertise := do
  let [owner, account, additions] ←
    j.fields? ["owner", "account_name", "disciplines_to_add"] | none
  return {
    owner := ← required AccountName.ofJson? owner
    account := ← required AccountName.ofJson? account
    additions := ← required (Json.list? (Json.pair? Json.word? Json.amount?)) additions }

end AddExpertise

namespace CreateGrant

def toJson (op : CreateGrant) : Json :=
  .object [
    ("owner", op.owner.toJson),
    ("target_discipline", .nat op.discipline),
    ("amount", op.amount.toJson),
    ("start_block", .nat op.startBlock),
    ("end_block", .nat op.endBlock)]

def ofJson? (j : Json) : Option CreateGrant := do
  let [owner, discipline, amount, startBlock, endBlock] ←
    j.fields? ["owner", "target_discipline", "amount", "start_block", "end_block"] | none
  return {
    owner := ← required AccountName.ofJson? owner
    discipline := ← required Json.word? discipline
    amount := ← required Asset.ofJson? amount
    startBlock := ← required Json.word? startBlock
    endBlock := ← required Json.word? endBlock }

end CreateGrant

namespace CreateProposal

def toJson (op : CreateProposal) : Json :=
  .object [
    ("creator", op.creator.toJson),
    ("research_group_id", .nat op.group),
    ("data", .string op.data),
    ("expiration_time", .nat op.expiration)]

def ofJson? (j : Json) : Option CreateProposal := do
  let [creator, group, data, expiration] ←
    j.fields? ["creator", "research_group_id", "data", "expiration_time"] | none
  return {
    creator := ← required AccountName.ofJson? creator
    group := ← required Json.word? group
    data := ← withDefault "" Json.string? data
    expiration := ← required Json.word? expiration }

end CreateProposal

namespace VoteForProposal

def toJson (op : VoteForProposal) : Json :=
  .object [
    ("voter", op.voter.toJson),
    ("proposal_id", .nat op.proposal),
    ("research_group_id", .nat op.group)]

def ofJson? (j : Json) : Option VoteForProposal := do
  let [voter, proposal, group] ← j.fields? ["voter", "proposal_id", "research_group_id"] | none
  return {
    voter := ← required AccountName.ofJson? voter
    proposal := ← required Json.word? proposal
    group := ← required Json.word? group }

end VoteForProposal

namespace Operation

/-- The fields of an operation. -/
def body : Operation → Json
  | accountCreate op => op.toJson
  | accountUpdate op => op.toJson
  | transfer op => op.toJson
  | transferToCommonTokens op => op.toJson
  | withdrawCommonTokens op => op.toJson
  | setWithdrawRoute op => op.toJson
  | delegateCommonTokens op => op.toJson
  | setWitnessProxy op => op.toJson
  | witnessUpdate op => op.toJson
  | witnessVote op => op.toJson
  | requestRecovery op => op.toJson
  | recoverAccount op => op.toJson
  | changeRecoveryPartner op => op.toJson
  | voteForContent op => op.toJson
  | voteForReview op => op.toJson
  | makeReview op => op.toJson
  | createGroup op => op.toJson
  | createResearch op => op.toJson
  | createContent op => op.toJson
  | transferResearchTokens op => op.toJson
  | addExpertise op => op.toJson
  | createGrant op => op.toJson
  | createProposal op => op.toJson
  | voteForProposal op => op.toJson

def toJson (op : Operation) : Json := .object [(op.name, op.body)]

/-- The operation of a kind with the given fields. -/
def ofBody? (name : String) (j : Json) : Option Operation :=
  match name with
  | "account_create" => accountCreate <$> AccountCreate.ofJson? j
  | "account_update" => accountUpdate <$> AccountUpdate.ofJson? j
  | "transfer" => transfer <$> Transfer.ofJson? j
  | "transfer_to_common_tokens" => transferToCommonTokens <$> TransferToCommonTokens.ofJson? j
  | "withdraw_common_tokens" => withdrawCommonTokens <$> WithdrawCommonTokens.ofJson? j
  | "set_withdraw_common_tokens_route" => setWithdrawRoute <$> SetWithdrawRoute.ofJson? j
  | "delegate_common_tokens" => delegateCommonTokens <$> DelegateCommonTokens.ofJson? j
  | "account_witness_proxy" => setWitnessProxy <$> SetWitnessProxy.ofJson? j
  | "witness_update" => witnessUpdate <$> WitnessUpdate.ofJson? j
  | "account_witness_vote" => witnessVote <$> WitnessVote.ofJson? j
  | "request_account_recovery" => requestRecovery <$> RequestRecovery.ofJson? j
  | "recover_account" => recoverAccount <$> RecoverAccount.ofJson? j
  | "change_recovery_account" => changeRecoveryPartner <$> ChangeRecoveryPartner.ofJson? j
  | "vote" => voteForContent <$> VoteForContent.ofJson? j
  | "vote_for_review" => voteForReview <$> VoteForReview.ofJson? j
  | "make_review" => makeReview <$> MakeReview.ofJson? j
  | "create_research_group" => createGroup <$> CreateGroup.ofJson? j
  | "create_research" => createResearch <$> CreateResearch.ofJson? j
  | "create_research_content" => createContent <$> CreateContent.ofJson? j
  | "transfer_research_tokens" => transferResearchTokens <$> TransferResearchTokens.ofJson? j
  | "add_expertise_tokens" => addExpertise <$> AddExpertise.ofJson? j
  | "create_grant" => createGrant <$> CreateGrant.ofJson? j
  | "create_proposal" => createProposal <$> CreateProposal.ofJson? j
  | "vote_proposal" => voteForProposal <$> VoteForProposal.ofJson? j
  | _ => none

def ofJson? : Json → Option Operation
  | .object [(name, body)] => ofBody? name body
  | _ => none

/-- The text of an operation. -/
def render (op : Operation) : String := op.toJson.render

/-- Reads the text of an operation. -/
def parse (text : String) : Except LedgerError Operation :=
  match (Json.parse? text).bind ofJson? with
  | some op => .ok op
  | none => .error (.invalidOperation .malformed)

end Operation

end ResearchLedger
