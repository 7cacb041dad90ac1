import ResearchLedger.Grant.Basic
import ResearchLedger.Json.Record
/-!
Grants as JSON.
-/

namespace ResearchLedger.Grant

def toJson (g : Grant) : Json :=
  .object [
    ("id", .nat g.id),
    ("owner", g.owner.toJson),
    ("target_discipline", .nat g.discipline),
    ("amount", .int g.amount),
    ("per_block", .int g.perBlock),
    ("start_block", .nat g.startBlock),
    ("end_block", .nat g.endBlock)]

end ResearchLedger.Grant
