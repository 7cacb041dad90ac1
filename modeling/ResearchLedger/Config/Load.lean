import ResearchLedger.AccountName.Text
import ResearchLedger.Config.Json
import ResearchLedger.Text.Blank
import ResearchLedger.Toml.Parser
/-!
Where the parameters come from: the defaults, then the section `ledger` of a configuration file, then
variables of the environment.
-/

namespace ResearchLedger

/-- Why parameters could not be loaded. -/
inductive ConfigError where
  /-- The file could not be read. -/
  | unreadable
  | malformed
  | invalid (fault : ConfigFault)
  | notAnInteger (var : String)
  | feeTooLarge
  | invalidRegistrar (error : LedgerError)
deriving DecidableEq

def ConfigError.message : ConfigError → String
  | unreadable => "cannot read the configuration file"
  | malformed => "invalid ledger config TOML"
  | invalid fault => fault.message
  | notAnInteger var => s!"{var} must be an integer"
  | feeTooLarge => "fee too large"
  | invalidRegistrar error => error.message

/-- The variables of an environment. -/
abbrev Environment := SortedMap String String

namespace Environment

/-- Reads a counter: digits with blanks around them, and a plus sign in front at most. -/
def counter? (text : String) : Option Nat := do
  let n ← Decimal.natural? (match Text.trim text.toList with
    | '+' :: s => s
    | s => s)
  if n ≤ maxWord then some n else none

/-- The value of a counter, if the environment sets it. -/
def counter (env : Environment) (var : String) : Except ConfigError (Option Nat) :=
  match env.get? var with
  | none => .ok none
  | some text => match counter? text with
    | some n => .ok (some n)
    | none => .error (.notAnInteger var)

end Environment

namespace Config

/-- The variable that names the configuration file. -/
def fileVar : String := "SCILEDGER_CONFIG_FILE"

/-- Refuses parameters that are not accepted. -/
def checked (c : Config) : Except ConfigError Config :=
  match c.validate with
  | .ok () => .ok c
  | .error fault => .error (.invalid fault)

/-- The parameters of a configuration file; without a section they are the defaults. -/
def ofToml (text : String) : Except ConfigError Config :=
  let config := do
    let [ledger] ← (← Toml.parse? text).fields? ["ledger"] | none
    Json.withDefault default ofJson? ledger
  match config with
  | some c => c.checked
  | none => .error .malformed

/-- The parameters as the environment changes them. -/
def override (c : Config) (env : Environment) : Except ConfigError Config := do
  let voteRegeneration ← env.counter "SCILEDGER_VOTE_REGENERATION_SECONDS"
  let reverseAuctionWindow ← env.counter "SCILEDGER_REVERSE_AUCTION_WINDOW_SECONDS"
  let fee ← env.counter "SCILEDGER_MIN_ACCOUNT_CREATION_FEE"
  if fee.any (Amount.max < ·) then throw .feeTooLarge
  let contentActivityWindow ← env.counter "SCILEDGER_CONTENT_ACTIVITY_WINDOW_SECONDS"
  let registrar ← match env.get? "SCILEDGER_REGISTRAR" with
    | none => pure c.registrar
    | some text =>
      match AccountName.ofText (String.ofList (Text.trim text.toList)) with
      | .ok name => pure name
      | .error e => throw (.invalidRegistrar e)
  return { c with
    voteRegeneration := voteRegeneration.getD c.voteRegeneration
    reverseAuctionWindow := reverseAuctionWindow.getD c.reverseAuctionWindow
    minAccountCreationFee := (fee.map Int.ofNat).getD c.minAccountCreationFee
    contentActivityWindow := contentActivityWindow.getD c.contentActivityWindow
    registrar }

/-- The parameters of a file's text, if it could be read, as the environment changes them. Both the
file's own and the changed parameters have to be accepted. -/
def ofFile (text : Option String) (env : Environment) : Except ConfigError Config := do
  let some text := text | throw .unreadable
  let c ← ofToml text
  let c ← c.override env
  c.checked

/-- The parameters that an environment asks for, where `read` reads files. -/
def load (env : Environment) (read : String → Option String) : Except ConfigError Config :=
  match env.get? fileVar with
  | some path => ofFile (read path) env
  | none => do
    let c ← override {} env
    c.checked

end Config

end ResearchLedger
