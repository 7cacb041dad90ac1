import ResearchLedger.Error
/-!
Amounts of a symbol. Two assets are added, subtracted or compared only if their symbols agree.
-/

namespace ResearchLedger

/-- An amount in the smallest unit of a symbol. -/
structure Asset where
  amount : Amount
  symbol : Symbol
deriving DecidableEq

namespace Asset

/-- An amount of the primary symbol. -/
def primary (amount : Amount) : Asset := ⟨amount, .primary⟩

/-- No amount of a symbol. -/
def zero (symbol : Symbol) : Asset := ⟨0, symbol⟩

instance : Inhabited Asset := ⟨zero .primary⟩

/-- Whether the asset is of the primary symbol. -/
def isPrimary (a : Asset) : Bool := a.symbol = .primary

/-- Refuses an asset of another symbol. -/
def ensureSymbol (a : Asset) (expected : Symbol) : Except LedgerError Unit :=
  if a.symbol = expected then .ok () else .error (.invalidSymbol expected a.symbol)

/-- The sum of two assets of one symbol. -/
def add (a b : Asset) : Except LedgerError Asset := do
  a.ensureSymbol b.symbol
  match Amount.checked? (a.amount + b.amount) with
  | some amount => return ⟨amount, a.symbol⟩
  | none => throw (.overflow .assetAdd)

/-- The difference of two assets of one symbol. -/
def sub (a b : Asset) : Except LedgerError Asset := do
  a.ensureSymbol b.symbol
  match Amount.checked? (a.amount - b.amount) with
  | some amount => return ⟨amount, a.symbol⟩
  | none => throw (.overflow .assetSub)

/-- The asset with the opposite amount. -/
def neg (a : Asset) : Except LedgerError Asset :=
  match Amount.checked? (-a.amount) with
  | some amount => .ok ⟨amount, a.symbol⟩
  | none => .error (.overflow .assetNeg)

/-- Whether an asset is at least as much as another of the same symbol. -/
def atLeast (a b : Asset) : Except LedgerError Bool := do
  a.ensureSymbol b.symbol
  return decide (b.amount ≤ a.amount)

end Asset

end ResearchLedger
