import ResearchLedger.Operation.Basic
import ResearchLedger.Proxy
/-!
Registration of witnesses and votes for them.
-/

namespace ResearchLedger

namespace State

/-- The one of two witnesses that stands higher: by votes, then by the smaller name. If neither decides,
it is the second. -/
def higherWitness (a b : Witness) : Witness :=
  if b.votes < a.votes ∨ (a.votes = b.votes ∧ KeyOrder.before a.owner b.owner = true) then a else b

/-- The witness that stands highest. -/
def topWitness (s : State) : Except LedgerError Witness :=
  match s.witnesses.values with
  | [] => .error .noTopWitness
  | w :: ws => .ok (ws.foldl higherWitness w)

end State

namespace WitnessUpdate

variable (op : WitnessUpdate)

def check (s : State) : Except LedgerError Unit := do
  s.checkAccount op.owner
  if s.config.maxWitnessUrlLength < op.url.utf8ByteSize then throw .witnessUrlTooLong
  op.properties.accountCreationFee.ensureSymbol .primary
  if op.properties.accountCreationFee.amount < 0 then throw .nonPositiveAmount

/-- Registers the witness, or renews what is known of it; its votes stay. -/
def commit (now : Seconds) (s : State) : State :=
  let w := s.witnesses.getD op.owner (.fresh op.owner .empty now)
  let w := { w with url := op.url, signingKey := op.signingKey, properties := op.properties }
  { s with witnesses := s.witnesses.insert op.owner w }

end WitnessUpdate

namespace WitnessVote

variable (op : WitnessVote)

/-- The weight of the vote, if it is admitted. -/
def plan (s : State) : Except LedgerError Amount := do
  let voter ← s.account op.account
  if voter.proxy.isSome then throw .proxyIsSet
  let _ ← s.witness op.witness
  let present := (s.witnessVotes.getD op.account ∅).contains op.witness
  if op.approve then
    if !voter.canVote then throw (.votingDeclined op.account)
    if present then throw .witnessVoteExists
    if s.config.maxWitnessVotes ≤ voter.witnessesVotedFor then
      throw (.tooManyWitnessVotes s.config.maxWitnessVotes)
  else if !present then throw .witnessVoteNotFound
  return voter.witnessVoteWeight

/-- Adds or removes the approval and its weight. -/
def commit (weight : Amount) (s : State) : State :=
  let change := if op.approve then weight else -weight
  let s := { s with witnesses := s.witnesses.modify op.witness (·.addVotes change) }
  let s := s.modifyAccount op.account (fun a =>
    { a with
      witnessesVotedFor := if op.approve then a.witnessesVotedFor + 1 else a.witnessesVotedFor - 1 })
  let approved := s.witnessVotes.getD op.account ∅
  if op.approve then
    { s with witnessVotes := s.witnessVotes.insert op.account (SortedSet.add approved op.witness) }
  else
    let approved := approved.erase op.witness
    if approved.isEmpty then { s with witnessVotes := s.witnessVotes.erase op.account }
    else { s with witnessVotes := s.witnessVotes.insert op.account approved }

end WitnessVote

end ResearchLedger
