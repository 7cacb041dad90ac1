import ResearchLedger.Json.Record
import ResearchLedger.Voting.Basic
/-!
Votes and their totals as JSON.
-/

namespace ResearchLedger

open Json (required)

namespace Vote

def toJson (v : Vote) : Json :=
  .object [
    ("voter", v.voter.toJson),
    ("discipline_id", .nat v.discipline),
    ("research_id", .nat v.research),
    ("research_content_id", .nat v.content),
    ("vote_percent", .int v.percent),
    ("weight", .nat v.weight),
    ("voting_power", .nat v.usedPower),
    ("tokens_amount", .nat v.tokens),
    ("voting_time", .nat v.time)]

end Vote

namespace ReviewVote

def toJson (v : ReviewVote) : Json :=
  .object [
    ("voter", v.voter.toJson),
    ("discipline_id", .nat v.discipline),
    ("review_id", .nat v.review),
    ("vote_percent", .int v.percent),
    ("weight", .nat v.weight),
    ("voting_power", .nat v.usedPower),
    ("tokens_amount", .nat v.tokens),
    ("voting_time", .nat v.time)]

end ReviewVote

namespace VoteTotals

def toJson (t : VoteTotals) : Json :=
  .object [
    ("research_content_id", .nat t.content),
    ("discipline_id", .nat t.discipline),
    ("research_id", .nat t.research),
    ("total_weight", .nat t.weight),
    ("total_active_weight", .nat t.activeWeight),
    ("total_research_reward_weight", .nat t.researchWeight),
    ("total_active_research_reward_weight", .nat t.activeResearchWeight),
    ("total_curators_reward_weight", .nat t.curatorsWeight),
    ("total_active_curators_reward_weight", .nat t.activeCuratorsWeight)]

def ofJson? (j : Json) : Option VoteTotals := do
  let [content, discipline, research, weight, activeWeight, researchWeight, activeResearchWeight,
    curatorsWeight, activeCuratorsWeight] ← j.fields?
    ["research_content_id", "discipline_id", "research_id", "total_weight", "total_active_weight",
      "total_research_reward_weight", "total_active_research_reward_weight",
      "total_curators_reward_weight", "total_active_curators_reward_weight"] | none
  return {
    content := ← required Json.word? content
    discipline := ← required Json.word? discipline
    research := ← required Json.word? research
    weight := ← required Json.word? weight
    activeWeight := ← required Json.word? activeWeight
    researchWeight := ← required Json.word? researchWeight
    activeResearchWeight := ← required Json.word? activeResearchWeight
    curatorsWeight := ← required Json.word? curatorsWeight
    activeCuratorsWeight := ← required Json.word? activeCuratorsWeight }

end VoteTotals

end ResearchLedger
