import ResearchLedger.Json.Record
import ResearchLedger.Proposal.Basic
/-!
Proposals as JSON.
-/

namespace ResearchLedger

open Json (required)

namespace ProposalStatus

/-- The word for each status. -/
def toWord : ProposalStatus → String
  | active => "active"
  | approved => "approved"
  | expired => "expired"

def ofJson? : Json → Option ProposalStatus :=
  Json.word ([active, approved, expired].map (fun s => (s.toWord, s)))

end ProposalStatus

namespace Proposal

def toJson (p : Proposal) : Json :=
  .object [
    ("id", .nat p.id),
    ("research_group_id", .nat p.group),
    ("creator", p.creator.toJson),
    ("data", .string p.data),
    ("quorum_percent", .nat p.quorumPercent),
    ("status", .string p.status.toWord),
    ("voted_accounts", .ofList AccountName.toJson (SortedSet.toList p.voters)),
    ("total_voted", .nat p.totalVoted),
    ("creation_time", .nat p.created),
    ("expiration_time", .nat p.expiration)]

def ofJson? (j : Json) : Option Proposal := do
  let [id, group, creator, data, quorumPercent, status, voters, totalVoted, created, expiration] ←
    j.fields?
    ["id", "research_group_id", "creator", "data", "quorum_percent", "status", "voted_accounts",
      "total_voted", "creation_time", "expiration_time"] | none
  return {
    id := ← required Json.word? id
    group := ← required Json.word? group
    creator := ← required AccountName.ofJson? creator
    data := ← required Json.string? data
    quorumPercent := ← required Json.word16? quorumPercent
    status := ← required ProposalStatus.ofJson? status
    voters := SortedSet.ofKeys (← required (Json.list? AccountName.ofJson?) voters)
    totalVoted := ← required Json.word32? totalVoted
    created := ← required Json.word? created
    expiration := ← required Json.word? expiration }

end Proposal

end ResearchLedger
