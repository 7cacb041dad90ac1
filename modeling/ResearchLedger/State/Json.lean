import ResearchLedger.Json.Record
import ResearchLedger.State.Basic
/-!
The head of the chain and the next free identifiers as JSON.
-/

namespace ResearchLedger

open Json (required)

namespace Head

def toJson (h : Head) : Json :=
  .object [
    ("time", .nat h.time),
    ("head_block_num", .nat h.block),
    ("total_active_disciplines_reward_weight", .nat h.activeWeight)]

def ofJson? (j : Json) : Option Head := do
  let [time, block, activeWeight] ← j.fields?
    ["time", "head_block_num", "total_active_disciplines_reward_weight"] | none
  return {
    time := ← required Json.word? time
    block := ← required Json.word? block
    activeWeight := ← required Json.word? activeWeight }

end Head

namespace IdCounters

def toJson (c : IdCounters) : Json :=
  .object [
    ("research_group", .nat c.group),
    ("research", .nat c.research),
    ("research_content", .nat c.content),
    ("review", .nat c.review),
    ("grant", .nat c.grant),
    ("proposal", .nat c.proposal),
    ("expiring_delegation", .nat c.expiringDelegation)]

def ofJson? (j : Json) : Option IdCounters := do
  let [group, research, content, review, grant, proposal, expiringDelegation] ← j.fields?
    ["research_group", "research", "research_content", "review", "grant", "proposal",
      "expiring_delegation"] | none
  return {
    group := ← required Json.word? group
    research := ← required Json.word? research
    content := ← required Json.word? content
    review := ← required Json.word? review
    grant := ← required Json.word? grant
    proposal := ← required Json.word? proposal
    expiringDelegation := ← required Json.word? expiringDelegation }

end IdCounters

end ResearchLedger
