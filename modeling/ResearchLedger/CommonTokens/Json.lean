import ResearchLedger.CommonTokens.Basic
import ResearchLedger.Json.Record
/-!
Withdraw routes and delegations as JSON.
-/

namespace ResearchLedger

namespace WithdrawRoute

def toJson (r : WithdrawRoute) : Json :=
  .object [
    ("from_account", r.source.toJson),
    ("to_account", r.target.toJson),
    ("percent", .nat r.percent),
    ("auto_common_token", .bool r.asCommonTokens)]

end WithdrawRoute

namespace Delegation

def toJson (d : Delegation) : Json :=
  .object [
    ("delegator", d.delegator.toJson),
    ("delegatee", d.delegatee.toJson),
    ("common_tokens", .int d.amount),
    ("min_delegation_time", .nat d.since)]

end Delegation

namespace ExpiringDelegation

def toJson (e : ExpiringDelegation) : Json :=
  .object [
    ("delegator", e.delegator.toJson),
    ("common_tokens", .int e.amount),
    ("expiration", .nat e.expiration)]

end ExpiringDelegation

end ResearchLedger
