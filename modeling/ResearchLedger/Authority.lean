import ResearchLedger.PublicKey
/-!
Weighted authorities over accounts and keys.
-/

namespace ResearchLedger

/-- Who may act: accounts and keys with weights that have to reach a threshold. -/
structure Authority where
  threshold : Nat
  accounts : SortedMap AccountName Nat
  keys : SortedMap PublicKey Nat
deriving DecidableEq

namespace Authority

instance : Inhabited Authority := ⟨⟨0, ∅, ∅⟩⟩

/-- The authority of one key alone. -/
def ofKey (key : PublicKey) : Authority := ⟨1, ∅, SortedMap.insert ∅ key 1⟩

/-- The authority of one account alone. -/
def ofAccount (account : AccountName) : Authority := ⟨1, SortedMap.insert ∅ account 1, ∅⟩

/-- The weight that all accounts and keys have together. -/
def totalWeight (a : Authority) : Nat := total a.accounts.values + total a.keys.values

/-- An authority is impossible if all its weights together miss the threshold. -/
def isImpossible (a : Authority) : Bool := a.totalWeight < a.threshold

/-- An authority is open if nobody has to sign. -/
def isOpen (a : Authority) : Bool := a.threshold == 0

/-- The accounts that the authority names. -/
def namedAccounts (a : Authority) : List AccountName := a.accounts.keys

end Authority

end ResearchLedger
