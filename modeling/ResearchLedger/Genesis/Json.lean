import ResearchLedger.Genesis.Basic
import ResearchLedger.Json.Record
/-!
A genesis read from JSON. Every list may be missing, and so may amounts and parents.
-/

namespace ResearchLedger

open Json (required withDefault)

namespace GenesisAccount

def ofJson? (j : Json) : Option GenesisAccount := do
  let [name, key, balance, commonTokens] ←
    j.fields? ["name", "key", "balance", "common_tokens"] | none
  return {
    name := ← required AccountName.ofJson? name
    key := ← required PublicKey.ofJson? key
    balance := ← withDefault 0 Json.amount? balance
    commonTokens := ← withDefault 0 Json.amount? commonTokens }

end GenesisAccount

namespace GenesisDiscipline

def ofJson? (j : Json) : Option GenesisDiscipline := do
  let [id, parent, name] ← j.fields? ["id", "parent_id", "name"] | none
  return {
    id := ← required Json.word? id
    parent := ← withDefault none (Json.option? Json.word?) parent
    name := ← required Json.string? name }

end GenesisDiscipline

namespace Genesis

def ofJson? (j : Json) : Option Genesis := do
  let [accounts, disciplines, witnesses, time] ←
    j.fields? ["accounts", "disciplines", "witnesses", "genesis_time"] | none
  return {
    accounts := ← withDefault [] (Json.list? GenesisAccount.ofJson?) accounts
    disciplines := ← withDefault [] (Json.list? GenesisDiscipline.ofJson?) disciplines
    witnesses := ← withDefault [] (Json.list? AccountName.ofJson?) witnesses
    time := ← withDefault 0 Json.word? time }

end Genesis

end ResearchLedger
