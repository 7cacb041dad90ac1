import ResearchLedger.Error
/-!
Account names read from text.
-/

namespace ResearchLedger.AccountName

/-- The account name with the given text. -/
def ofText (text : String) : Except LedgerError AccountName :=
  match ofString? text with
  | some name => .ok name
  | none => .error (.invalidAccountName text)

end ResearchLedger.AccountName
