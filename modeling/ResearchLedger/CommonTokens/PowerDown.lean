import ResearchLedger.Account.Lifecycle
import ResearchLedger.Event.Basic
import ResearchLedger.Share
/-!
Power-downs: stake turns back into balance in equal payments at equal intervals, and parts of each
payment may be routed to other accounts.
-/

namespace ResearchLedger

namespace WithdrawCommonTokens

variable (op : WithdrawCommonTokens)

/-- The schedule that the operation starts; a total of zero stops the present one. -/
def plan (now : Seconds) (s : State) : Except LedgerError PowerDown := do
  let a ← s.account op.account
  if op.total < 0 then throw .nonPositiveAmount
  let available := a.commonTokens - a.delegated
  if available < op.total then
    throw (.insufficientCommonTokens op.account op.total available)
  if !a.mined && op.total ≠ 0 then
    let floor := Amount.clamp (s.config.minAccountCreationFee * s.config.powerDownFloorMultiplier)
    if a.commonTokens ≤ floor then throw (.powerDownFloor floor)
  if op.total = 0 then
    if a.powerDown.rate = 0 then throw .withdrawRateUnchanged
    return .idle
  let rate := max (op.total / (s.config.withdrawIntervals : Int)) 1
  if rate = a.powerDown.rate then throw .withdrawRateUnchanged
  return ⟨rate, now.after s.config.withdrawIntervalSeconds, op.total, 0⟩

def commit (schedule : PowerDown) (s : State) : State :=
  s.modifyAccount op.account (fun a => { a with powerDown := schedule })

end WithdrawCommonTokens

namespace SetWithdrawRoute

/-- What becomes of a route. -/
inductive Plan where
  | create
  | change
  | remove

variable (op : SetWithdrawRoute)

/-- The route that the operation asks for. -/
def route : WithdrawRoute := ⟨op.source, op.target, op.percent, op.asCommonTokens⟩

/-- The percentages of all other routes of the account. -/
def otherPercents (s : State) : Nat :=
  total (((s.withdrawRoutes.getD op.source ∅).erase op.target).values.map (·.percent))

def plan (s : State) : Except LedgerError Plan := do
  let a ← s.account op.source
  s.checkAccount op.target
  if wholePercent < op.percent then throw (.invalidPercent op.percent)
  let plan ←
    if (s.withdrawRoutes.getD op.source ∅).contains op.target then
      pure (if op.percent = 0 then Plan.remove else Plan.change)
    else do
      if op.percent = 0 then throw .zeroPercentRoute
      if s.config.maxWithdrawRoutes ≤ a.withdrawRoutes then
        throw (.tooManyWithdrawRoutes s.config.maxWithdrawRoutes)
      pure Plan.create
  if wholePercent < op.otherPercents s + op.percent then throw .withdrawRoutesExceedLimit
  return plan

/-- Puts the route in its place. -/
def store (s : State) : State :=
  let routes := s.withdrawRoutes.getD op.source ∅
  { s with withdrawRoutes := s.withdrawRoutes.insert op.source (routes.insert op.target op.route) }

/-- Takes the route away. -/
def clear (s : State) : State :=
  let routes := (s.withdrawRoutes.getD op.source ∅).erase op.target
  if routes.isEmpty then { s with withdrawRoutes := s.withdrawRoutes.erase op.source }
  else { s with withdrawRoutes := s.withdrawRoutes.insert op.source routes }

def commit (plan : Plan) (s : State) : State :=
  match plan with
  | .create =>
    (op.store s).modifyAccount op.source
      (fun a => { a with withdrawRoutes := a.withdrawRoutes + 1 })
  | .change => op.store s
  | .remove =>
    (op.clear s).modifyAccount op.source
      (fun a => { a with withdrawRoutes := a.withdrawRoutes - 1 })

end SetWithdrawRoute

namespace PowerDown

/-- Whether a payment is due. -/
def isDue (p : PowerDown) (now : Seconds) : Bool := 0 < p.rate && p.next ≤ now

end PowerDown

namespace Account

/-- What the next payment takes: the rate, as far as the schedule and the free stake reach. -/
def nextPayment (a : Account) : Amount :=
  min (min a.powerDown.rate a.powerDown.pending) (max (a.commonTokens - a.delegated) 0)

/-- The account after a payment. The schedule ends when its total is reached or no free stake is
left. -/
def afterPayment (a : Account) (amount : Amount) (interval : Seconds) : Account :=
  let commonTokens := a.commonTokens - amount
  let p : PowerDown := { a.powerDown with withdrawn := a.powerDown.withdrawn + amount }
  { a with
    commonTokens
    powerDown :=
      if p.total ≤ p.withdrawn ∨ commonTokens ≤ a.delegated then
        { p with rate := 0, next := never }
      else { p with next := p.next.after interval } }

end Account

namespace LedgerM

/-- Pays a route its part of a payment from `source`, unless the part is nothing. -/
def payRoute (source : AccountName) (amount : Amount) (r : WithdrawRoute) :
    LedgerM (Amount × List Event) := do
  let deposit ← liftM (percentShare amount r.percent)
  if deposit ≤ 0 then return (0, [])
  let l ← get
  if r.asCommonTokens then
    let effects ← liftM (l.state.stakeEffects r.target deposit)
    modifyState (fun s =>
      let s := s.modifyAccount r.target (·.stake deposit)
      let s := s.creditExpertise r.target commonDiscipline deposit l.head.time
      s.applyProxyEffects effects)
  else modifyState (·.credit r.target deposit)
  return (deposit, [.withdrawFilled source r.target deposit deposit r.asCommonTokens])

/-- Pays routes one after the other, and gives what they took in all. -/
def payRoutes (source : AccountName) (amount : Amount) :
    List WithdrawRoute → LedgerM (Amount × List Event)
  | [] => return (0, [])
  | r :: rs => do
    let (deposit, events) ← payRoute source amount r
    let (deposits, moreEvents) ← payRoutes source amount rs
    return (deposit + deposits, events ++ moreEvents)

/-- Makes the payment that is due to an account: first to its routes in the order of their targets,
then the rest to itself. -/
def payPowerDown (name : AccountName) : LedgerM (List Event) := do
  let s := (← get).state
  let a ← liftM (s.account name)
  let amount := a.nextPayment
  let (routed, events) ← payRoutes name amount (s.withdrawRoutes.getD name ∅).values
  let rest := amount - routed
  let effects ← liftM ((← get).state.stakeEffects name (-amount))
  modifyState (fun s =>
    let s := s.applyProxyEffects effects
    let s := s.debitExpertise name commonDiscipline amount
    let s := s.credit name rest
    s.modifyAccount name (·.afterPayment amount s.config.withdrawIntervalSeconds))
  return events ++ [.withdrawFilled name name amount rest false]

/-- The accounts to which a payment is due. -/
def duePowerDowns (l : Ledger) : List AccountName :=
  (l.state.accounts.values.filter (·.powerDown.isDue l.head.time)).map (·.name)

/-- Makes the payments that are due, account by account. -/
def payPowerDowns : LedgerM (List Event) := do
  collect payPowerDown (duePowerDowns (← get))

end LedgerM

end ResearchLedger
