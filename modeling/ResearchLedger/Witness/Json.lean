import ResearchLedger.Json.Record
import ResearchLedger.Witness.Basic
/-!
Witnesses as JSON.
-/

namespace ResearchLedger.Witness

def toJson (w : Witness) : Json :=
  .object [
    ("owner", w.owner.toJson),
    ("url", .string w.url),
    ("signing_key", w.signingKey.toJson),
    ("props", w.properties.toJson),
    ("votes", .int w.votes),
    ("created", .nat w.created)]

end ResearchLedger.Witness
