import ResearchLedger.Event.Json
import ResearchLedger.Reward.Basic
/-!
Reports of reward passes as JSON.
-/

namespace ResearchLedger.RewardReport

def toJson (r : RewardReport) : Json :=
  .object [
    ("budget", .int r.budget),
    ("distributed", .int r.distributed),
    ("unused", .int r.unused),
    ("ops", .ofList Event.toJson r.events)]

end ResearchLedger.RewardReport
