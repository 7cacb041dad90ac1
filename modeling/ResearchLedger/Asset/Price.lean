import ResearchLedger.Asset.Basic
/-!
Prices: how much of one symbol is exchanged for how much of another.
-/

namespace ResearchLedger

/-- An exchange ratio between two symbols. -/
structure Price where
  base : Asset
  quote : Asset
deriving DecidableEq

namespace Price

/-- Refuses a price within one symbol or with a leg that is not positive. -/
def validate (p : Price) : Except LedgerError Unit := do
  if p.base.symbol = p.quote.symbol then throw (.invalidPrice .sharedSymbol)
  if p.base.amount ≤ 0 ∨ p.quote.amount ≤ 0 then throw (.invalidPrice .nonPositiveLeg)

/-- The price of two legs, if it is valid. -/
def ofLegs (base quote : Asset) : Except LedgerError Price := do
  let p : Price := ⟨base, quote⟩
  p.validate
  return p

/-- Whether both legs are zero. -/
def isNull (p : Price) : Bool := p.base.amount = 0 ∧ p.quote.amount = 0

/-- The asset's leg and the other one. -/
def legs (p : Price) (symbol : Symbol) : Except LedgerError (Asset × Asset) :=
  if symbol = p.base.symbol then .ok (p.base, p.quote)
  else if symbol = p.quote.symbol then .ok (p.quote, p.base)
  else .error (.invalidSymbol p.base.symbol symbol)

/-- The asset exchanged for the other leg's symbol; the amount is rounded toward zero. -/
def convert (p : Price) (a : Asset) : Except LedgerError Asset := do
  let (source, target) ← p.legs a.symbol
  if source.amount ≤ 0 then throw (.invalidPrice .nonPositiveLeg)
  match Amount.checked? ((a.amount * target.amount).tdiv source.amount) with
  | some amount => return ⟨amount, target.symbol⟩
  | none => throw (.overflow .priceConvert)

end Price

end ResearchLedger
