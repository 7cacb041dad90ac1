import ResearchLedger.Operation.Basic
import ResearchLedger.State.Basic
/-!
Witness proxies. The stake of an account counts for the witnesses that the end of its chain of
proxies approves, and each account on the way keeps count of the stake that passes through it, by
distance.

A change of stake is carried up the chain as a list of deltas: the first is the account's own, the
others those of the stake that passes through it. All changes are gathered before any is written.
-/

namespace ResearchLedger

/-- Changes of stake by distance; the first is the account's own. -/
abbrev ProxyDelta := Vector Amount (maxProxyDepth + 1)

/-- Changes to be made to accounts and witnesses. -/
structure ProxyEffects where
  proxied : SortedMap AccountName (Vector Amount maxProxyDepth) := ∅
  witnessVotes : SortedMap AccountName Amount := ∅

namespace ProxyDelta

/-- A change of the account's own stake. -/
def own (amount : Amount) : ProxyDelta :=
  Vector.ofFn (fun i => if i.val = 0 then amount else 0)

/-- All the stake that votes with an account. -/
def ofAccount (a : Account) : ProxyDelta :=
  Vector.ofFn (fun i => if i.val = 0 then a.commonTokens else a.proxied[i.val - 1]?.getD 0)

/-- The opposite change. -/
def neg (d : ProxyDelta) : ProxyDelta := d.map (fun a => -a)

/-- What the change adds to the counts of the account `depth + 1` proxies up the chain. -/
def slots (d : ProxyDelta) (depth : Nat) : Vector Amount maxProxyDepth :=
  Vector.ofFn (fun i => if depth ≤ i.val then d[i.val - depth]?.getD 0 else 0)

/-- What the change adds to the votes for a witness `depth` proxies up the chain. -/
def votesAt (d : ProxyDelta) (depth : Nat) : Amount :=
  total (d.toList.take (maxProxyDepth - depth + 1))

end ProxyDelta

namespace ProxyEffects

/-- Adds to the counts of an account. -/
def addProxied (e : ProxyEffects) (account : AccountName) (slots : Vector Amount maxProxyDepth) :
    ProxyEffects :=
  let present := e.proxied.getD account (.replicate maxProxyDepth 0)
  { e with proxied := e.proxied.insert account (present.zipWith (· + ·) slots) }

/-- Adds to the votes for a witness. -/
def addVotes (e : ProxyEffects) (amount : Amount) (witness : AccountName) : ProxyEffects :=
  { e with witnessVotes := e.witnessVotes.insert witness (e.witnessVotes.getD witness 0 + amount) }

end ProxyEffects

namespace Account

/-- Adds to the counts of stake that votes through the account. -/
def addProxied (a : Account) (slots : Vector Amount maxProxyDepth) : Account :=
  { a with proxied := a.proxied.zipWith (fun x d => Amount.clamp (x + d)) slots }

end Account

namespace Witness

/-- Adds to the votes for the witness. -/
def addVotes (w : Witness) (amount : Amount) : Witness :=
  { w with votes := Amount.clamp (w.votes + amount) }

end Witness

namespace State

/-- Carries a change up the chain from an account with the given proxy. The change may pass `room`
more proxies; past the last one it is lost. -/
def carryUp (s : State) (delta : ProxyDelta) :
    (room : Nat) → AccountName → Option AccountName → ProxyEffects → Except LedgerError ProxyEffects
  | room, account, none, effects =>
    let amount := delta.votesAt (maxProxyDepth - room)
    if amount = 0 then .ok effects
    else .ok ((s.witnessesVotedBy account).foldl (·.addVotes amount) effects)
  | 0, _, some _, effects => .ok effects
  | room + 1, _, some proxy, effects => do
    let next ← s.account proxy
    s.carryUp delta room proxy next.proxy
      (effects.addProxied proxy (delta.slots (maxProxyDepth - (room + 1))))

/-- Carries a change up the chain of an account whose proxy is taken to be `proxy`. -/
def carry (s : State) (account : AccountName) (proxy : Option AccountName) (delta : ProxyDelta)
    (effects : ProxyEffects) : Except LedgerError ProxyEffects :=
  s.carryUp delta maxProxyDepth account proxy effects

/-- What follows from a change of an account's own stake. -/
def stakeEffects (s : State) (account : AccountName) (amount : Amount) :
    Except LedgerError ProxyEffects := do
  let a ← s.account account
  s.carry account a.proxy (ProxyDelta.own amount) {}

/-- Makes the gathered changes. -/
def applyProxyEffects (s : State) (e : ProxyEffects) : State :=
  let s := e.proxied.entries.foldl (fun s x => s.modifyAccount x.1 (·.addProxied x.2)) s
  { s with
    witnesses :=
      e.witnessVotes.entries.foldl (fun ws x => ws.modify x.1 (·.addVotes x.2)) s.witnesses }

/-- Follows the proxies of `account`, of which `chain` has been met already: refuses to meet an
account twice, and to meet more than `room` others. -/
def checkChain (s : State) : (room : Nat) → List AccountName → Account → Except LedgerError Unit
  | room, chain, account =>
    match account.proxy with
    | none => .ok ()
    | some proxy => do
      let next ← s.account proxy
      if next.name ∈ chain then throw .proxyLoop
      match room with
      | 0 => throw .proxyChainTooLong
      | room + 1 => s.checkChain room (next.name :: chain) next

/-- Refuses a proxy that would close a loop or make a chain of more than the greatest depth. -/
def checkNewProxy (s : State) (account proxy : AccountName) : Except LedgerError Unit := do
  if account = proxy then throw .proxyLoop
  s.checkChain (maxProxyDepth - 2) [proxy, account] (← s.account proxy)

end State

namespace SetWitnessProxy

/-- What a change of proxy brings about. -/
structure Plan where
  account : AccountName
  proxy : Option AccountName
  effects : ProxyEffects
  /-- The account's own approvals, which end when it names a proxy. -/
  cleared : List AccountName

variable (op : SetWitnessProxy)

/-- The stake leaves the old chain and joins the new one. -/
def plan (s : State) : Except LedgerError Plan := do
  let a ← s.account op.account
  if a.proxy = op.proxy then throw .proxyUnchanged
  if let some proxy := op.proxy then s.checkNewProxy op.account proxy
  let delta := ProxyDelta.ofAccount a
  let effects ← s.carry op.account a.proxy delta.neg {}
  let effects ← s.carry op.account op.proxy delta effects
  let cleared := if op.proxy.isSome then s.witnessesVotedBy op.account else []
  return ⟨op.account, op.proxy, effects, cleared⟩

namespace Plan

def commit (p : Plan) (s : State) : State :=
  let s := s.applyProxyEffects p.effects
  if p.cleared.isEmpty then s.modifyAccount p.account (fun a => { a with proxy := p.proxy })
  else
    let s := { s with witnessVotes := s.witnessVotes.erase p.account }
    s.modifyAccount p.account (fun a => { a with proxy := p.proxy, witnessesVotedFor := 0 })

end Plan

end SetWitnessProxy

end ResearchLedger
