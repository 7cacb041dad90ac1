import ResearchLedger.Account.Basic
import ResearchLedger.Json.Record
/-!
Accounts and their authorities as JSON.
-/

namespace ResearchLedger

open Json (required withDefault)

namespace Account

def toJson (a : Account) : Json :=
  .object [
    ("name", a.name.toJson),
    ("memo_key", a.memoKey.toJson),
    ("json_metadata", .string a.metadata),
    ("balance", a.balance.toJson),
    ("common_tokens", .int a.commonTokens),
    ("delegated_common_tokens", .int a.delegated),
    ("received_common_tokens", .int a.received),
    ("common_tokens_withdraw_rate", .int a.powerDown.rate),
    ("next_common_tokens_withdrawal", .nat a.powerDown.next),
    ("to_withdraw", .int a.powerDown.total),
    ("withdrawn", .int a.powerDown.withdrawn),
    ("withdraw_routes", .nat a.withdrawRoutes),
    ("proxy", .ofOption AccountName.toJson a.proxy),
    ("proxied_vsf_votes", .ofList .int a.proxied.toList),
    ("witnesses_voted_for", .nat a.witnessesVotedFor),
    ("voting_power", .nat a.votingPower),
    ("last_vote_time", .nat a.lastVoteTime),
    ("recovery_account", .ofOption AccountName.toJson a.recoveryPartner),
    ("last_account_recovery", .nat a.lastRecovery),
    ("can_vote", .bool a.canVote),
    ("mined", .bool a.mined),
    ("created", .nat a.created)]

/-- As many amounts as there are distances of proxies. -/
def proxied? (j : Json) : Option (Vector Amount maxProxyDepth) := do
  let l ← Json.list? Json.amount? j
  if h : l.length = maxProxyDepth then some ⟨l.toArray, by simpa using h⟩ else none

def ofJson? (j : Json) : Option Account := do
  let [name, memoKey, metadata, balance, commonTokens, delegated, received, rate, next, total,
    withdrawn, withdrawRoutes, proxy, proxied, witnessesVotedFor, votingPower, lastVoteTime,
    recoveryPartner, lastRecovery, canVote, mined, created] ← j.fields?
    ["name", "memo_key", "json_metadata", "balance", "common_tokens", "delegated_common_tokens",
      "received_common_tokens", "common_tokens_withdraw_rate", "next_common_tokens_withdrawal",
      "to_withdraw", "withdrawn", "withdraw_routes", "proxy", "proxied_vsf_votes",
      "witnesses_voted_for", "voting_power", "last_vote_time", "recovery_account",
      "last_account_recovery", "can_vote", "mined", "created"] | none
  return {
    name := ← required AccountName.ofJson? name
    memoKey := ← required PublicKey.ofJson? memoKey
    metadata := ← required Json.string? metadata
    balance := ← required Asset.ofJson? balance
    commonTokens := ← required Json.amount? commonTokens
    delegated := ← required Json.amount? delegated
    received := ← required Json.amount? received
    powerDown := {
      rate := ← required Json.amount? rate
      next := ← required Json.word? next
      total := ← required Json.amount? total
      withdrawn := ← required Json.amount? withdrawn }
    withdrawRoutes := ← required Json.word16? withdrawRoutes
    proxy := ← withDefault none (Json.option? AccountName.ofJson?) proxy
    proxied := ← required proxied? proxied
    witnessesVotedFor := ← required Json.word16? witnessesVotedFor
    votingPower := ← required Json.word16? votingPower
    lastVoteTime := ← required Json.word? lastVoteTime
    recoveryPartner := ← withDefault none (Json.option? AccountName.ofJson?) recoveryPartner
    lastRecovery := ← required Json.word? lastRecovery
    canVote := ← required Json.bool? canVote
    mined := ← required Json.bool? mined
    created := ← required Json.word? created }

end Account

namespace AccountAuthority

def toJson (a : AccountAuthority) : Json :=
  .object [
    ("account", a.account.toJson),
    ("owner", a.owner.toJson),
    ("active", a.active.toJson),
    ("posting", a.posting.toJson),
    ("last_owner_update", .nat a.lastOwnerUpdate)]

end AccountAuthority

end ResearchLedger
