import ResearchLedger.Expertise.Basic
import ResearchLedger.Json.Record
/-!
Expert tokens as JSON.
-/

namespace ResearchLedger.ExpertToken

open Json (required)

def toJson (t : ExpertToken) : Json :=
  .object [
    ("account", t.account.toJson),
    ("discipline_id", .nat t.discipline),
    ("amount", .int t.amount),
    ("voting_power", .nat t.votingPower),
    ("last_vote_time", .nat t.lastVoteTime)]

def ofJson? (j : Json) : Option ExpertToken := do
  let [account, discipline, amount, votingPower, lastVoteTime] ← j.fields?
    ["account", "discipline_id", "amount", "voting_power", "last_vote_time"] | none
  return {
    account := ← required AccountName.ofJson? account
    discipline := ← required Json.word? discipline
    amount := ← required Json.amount? amount
    votingPower := ← required Json.word16? votingPower
    lastVoteTime := ← required Json.word? lastVoteTime }

end ResearchLedger.ExpertToken
