import ResearchLedger.Error
/-!
Proportional parts of an amount, always rounded down. What rounding leaves is not handed on.
-/

namespace ResearchLedger

/-- The part `numerator / denominator` of an amount, rounded down; nothing of nothing, and nothing
if there is no denominator. -/
def share (amount : Amount) (numerator denominator : Nat) : Except LedgerError Amount :=
  if denominator = 0 ∨ amount ≤ 0 then .ok 0
  else
    let product := amount.toNat * numerator
    if maxProduct < product then .error (.overflow .share)
    else match Amount.checked? (product / denominator : Nat) with
      | some part => .ok part
      | none => .error (.overflow .share)

/-- A part of an amount in hundredths of a percent. -/
def percentShare (amount : Amount) (percent : Nat) : Except LedgerError Amount :=
  share amount percent wholePercent

end ResearchLedger
