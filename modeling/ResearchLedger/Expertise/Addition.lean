import ResearchLedger.Expertise.Power
import ResearchLedger.Operation.Basic
/-!
Expertise that the registrar adds to an account.
-/

namespace ResearchLedger.AddExpertise

variable (op : AddExpertise)

/-- Refuses one addition: the discipline has to exist, the amount to be positive, and the token as
it stands to have room for it. -/
def checkAddition (s : State) (addition : DisciplineId × Amount) : Except LedgerError Unit := do
  let _ ← s.discipline addition.1
  if addition.2 ≤ 0 then throw .nonPositiveAmount
  let present := match s.expertToken? op.account addition.1 with
    | some t => t.amount
    | none => 0
  if ¬ Amount.Fits (present + addition.2) then throw (.overflow .expertTokenAmount)

def check (s : State) : Except LedgerError Unit := do
  s.checkAccount op.owner
  if op.owner ≠ s.config.registrar then throw .notRegistrar
  s.checkAccount op.account
  op.additions.forM (op.checkAddition s)

def commit (now : Seconds) (s : State) : State :=
  op.additions.foldl (fun s e => s.creditExpertise op.account e.1 e.2 now) s

end ResearchLedger.AddExpertise
