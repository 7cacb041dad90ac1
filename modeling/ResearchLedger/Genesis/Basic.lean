import ResearchLedger.Expertise.Power
/-!
The genesis: with which accounts, disciplines and witnesses a ledger begins.
-/

namespace ResearchLedger

/-- An account of the genesis with its only key. -/
structure GenesisAccount where
  name : AccountName
  key : PublicKey
  balance : Amount
  commonTokens : Amount
deriving DecidableEq

/-- A discipline of the genesis. -/
structure GenesisDiscipline where
  id : DisciplineId
  parent : Option DisciplineId
  name : String
deriving DecidableEq

/-- What a ledger begins with. -/
structure Genesis where
  accounts : List GenesisAccount := []
  disciplines : List GenesisDiscipline := []
  witnesses : List AccountName := []
  time : Seconds := 0
deriving DecidableEq

namespace GenesisAccount

/-- The account at the start. -/
def account (g : GenesisAccount) (now : Seconds) : Account :=
  { Account.fresh g.name g.key now with
    balance := .primary g.balance
    commonTokens := g.commonTokens }

/-- The account's authorities: its key alone. -/
def authority (g : GenesisAccount) : AccountAuthority :=
  ⟨g.name, .ofKey g.key, .ofKey g.key, .ofKey g.key, 0⟩

end GenesisAccount

namespace State

/-- Adds a discipline; its parent has to stand before it. A discipline with the same number is
replaced. -/
def addGenesisDiscipline (s : State) (g : GenesisDiscipline) : Except LedgerError State := do
  if let some parent := g.parent then
    let _ ← s.discipline parent
  return { s with disciplines := s.disciplines.insert g.id (.fresh g.id g.parent g.name) }

/-- Adds an account; its stake counts as expertise in the common discipline. -/
def addGenesisAccount (now : Seconds) (s : State) (g : GenesisAccount) : Except LedgerError State := do
  if s.accounts.contains g.name then throw (.accountAlreadyExists g.name)
  if g.balance < 0 ∨ g.commonTokens < 0 then throw .nonPositiveAmount
  let s := { s with
    accounts := s.accounts.insert g.name (g.account now)
    authorities := s.authorities.insert g.name g.authority }
  return if 0 < g.commonTokens then s.creditExpertise g.name commonDiscipline g.commonTokens now else s

/-- Registers an account as a witness that signs with its memo key. -/
def addGenesisWitness (now : Seconds) (s : State) (owner : AccountName) : Except LedgerError State := do
  let a ← s.account owner
  return { s with witnesses := s.witnesses.insert owner (.fresh owner a.memoKey now) }

/-- The state of a genesis. -/
def ofGenesis (config : Config) (g : Genesis) : Except LedgerError State := do
  let s ← ofConfig config
  let s ← g.disciplines.foldlM addGenesisDiscipline s
  let s ← g.accounts.foldlM (addGenesisAccount g.time) s
  g.witnesses.foldlM (addGenesisWitness g.time) s

end State

namespace Ledger

/-- The ledger of a genesis, before its first block. -/
def ofGenesis (config : Config) (g : Genesis) : Except LedgerError Ledger := do
  return ⟨← State.ofGenesis config g, .start g.time 0⟩

/-- An empty ledger at a given head. -/
def ofConfig (config : Config) (head : Head) : Except LedgerError Ledger := do
  return ⟨← State.ofConfig config, head⟩

end Ledger

end ResearchLedger
