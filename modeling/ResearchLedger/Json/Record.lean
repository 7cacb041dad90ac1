import ResearchLedger.Authority
import ResearchLedger.Digest
import ResearchLedger.Json.Basic
import ResearchLedger.Research.Basic
import ResearchLedger.Witness.Basic
/-!
Names, keys, assets, authorities and the other parts of operations as JSON.
-/

namespace ResearchLedger

namespace AccountName

def toJson (n : AccountName) : Json := .string n.text

def ofJson? (j : Json) : Option AccountName := j.string?.bind ofString?

end AccountName

namespace PublicKey

def toJson (k : PublicKey) : Json := .string k.toHex

/-- The key of a stored text, if it is one. -/
def ofText? (s : String) : Option PublicKey := (ofStored s).toOption

def ofJson? (j : Json) : Option PublicKey := j.string?.bind ofText?

end PublicKey

namespace Digest

def toJson (d : Digest) : Json := .string d.toHex

def ofJson? (j : Json) : Option Digest := j.string?.bind ofHex?

end Digest

namespace Asset

def toJson (a : Asset) : Json := .object [("amount", .int a.amount), ("symbol", .nat a.symbol.code)]

def ofJson? (j : Json) : Option Asset := do
  let [amount, symbol] ← j.fields? ["amount", "symbol"] | none
  return ⟨← Json.required Json.amount? amount, ⟨← Json.required Json.word? symbol⟩⟩

end Asset

namespace Authority

def toJson (a : Authority) : Json :=
  .object [
    ("weight_threshold", .nat a.threshold),
    ("account_auths", .ofMap AccountName.text .nat a.accounts),
    ("key_auths", .ofMap PublicKey.toHex .nat a.keys)]

def ofJson? (j : Json) : Option Authority := do
  let [threshold, accounts, keys] ←
    j.fields? ["weight_threshold", "account_auths", "key_auths"] | none
  return {
    threshold := ← Json.required Json.word32? threshold
    accounts := ← Json.required (Json.map? AccountName.ofString? Json.word16?) accounts
    keys := ← Json.required (Json.map? PublicKey.ofText? Json.word16?) keys }

end Authority

namespace ChainProperties

def toJson (p : ChainProperties) : Json :=
  .object [
    ("account_creation_fee", p.accountCreationFee.toJson),
    ("maximum_block_size", .nat p.maximumBlockSize)]

def ofJson? (j : Json) : Option ChainProperties := do
  let [fee, size] ← j.fields? ["account_creation_fee", "maximum_block_size"] | none
  return {
    accountCreationFee := ← Json.required Asset.ofJson? fee
    maximumBlockSize := ← Json.required Json.word32? size }

end ChainProperties

namespace ContentType

/-- The word for each type. -/
def toWord : ContentType → String
  | announcement => "announcement"
  | milestone => "milestone"
  | finalResult => "final_result"
  | review => "review"

def toJson (t : ContentType) : Json := .string t.toWord

def ofJson? : Json → Option ContentType :=
  Json.word ([announcement, milestone, finalResult, review].map (fun t => (t.toWord, t)))

end ContentType

end ResearchLedger
