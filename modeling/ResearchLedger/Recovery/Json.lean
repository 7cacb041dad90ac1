import ResearchLedger.Json.Record
import ResearchLedger.Recovery.Basic
/-!
What is kept for the recovery of accounts as JSON.
-/

namespace ResearchLedger

namespace ReplacedOwner

def toJson (h : ReplacedOwner) : Json :=
  .object [
    ("account", h.account.toJson),
    ("previous_owner_authority", h.authority.toJson),
    ("last_valid_time", .nat h.lastValid)]

end ReplacedOwner

namespace RecoveryRequest

def toJson (r : RecoveryRequest) : Json :=
  .object [
    ("account_to_recover", r.account.toJson),
    ("new_owner_authority", r.newOwner.toJson),
    ("expires", .nat r.expires)]

end RecoveryRequest

namespace PartnerChange

def toJson (c : PartnerChange) : Json :=
  .object [
    ("account_to_recover", c.account.toJson),
    ("recovery_account", c.partner.toJson),
    ("effective_on", .nat c.effective)]

end PartnerChange

end ResearchLedger
