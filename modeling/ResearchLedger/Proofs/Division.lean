import ResearchLedger.CommonTokens.PowerDown
import ResearchLedger.Grant.Payout
import ResearchLedger.Proofs.Computation
import ResearchLedger.Reward.Distribution

/-! Quotients that stop everything at the divisor zero, as the machine does, and the functions of the
ledger that divide with these in place of their own: under accepted parameters nothing ever stops. -/
namespace ResearchLedger

/-- A quotient that has no value for the divisor zero. -/
def quotient? {α : Type} [DecidableEq α] [OfNat α 0] (div : α → α → α) (a b : α) : Option α :=
  if b = 0 then none else some (div a b)

/-- A computation that may be refused, and that has no outcome at all if it divides by zero. -/
abbrev Dividing := ExceptT LedgerError Option

def Dividing.of {α : Type} (x : Option α) : Dividing α := ExceptT.lift x

namespace SquareRoot

/-- Steps of the iteration, each with a quotient that may stop it. -/
def descend? (x guess : Nat) : Option Nat :=
  match quotient? (· / ·) x guess with
  | none => none
  | some q => if (guess + q) / 2 < guess then descend? x ((guess + q) / 2) else some guess
termination_by guess

def floor? (x : Nat) : Option Nat := if x < 2 then some x else descend? x (x / 2)

end SquareRoot

def Curve.eval? (curve : Curve) (tokens : Nat) : Dividing Nat :=
  match curve with
  | linear => return tokens
  | power1Dot5 => do
    let cube := tokens * tokens * tokens
    if maxProduct < tokens * tokens ∨ maxProduct < cube then throw (.overflow .rewardCurve)
    let root ← .of (SquareRoot.floor? cube)
    if maxWord < root then throw (.overflow .rewardCurve)
    return root

def decayedWeight? (weight elapsed window : Nat) : Option Nat :=
  if window = 0 then some weight else quotient? (· / ·) (weight * Nat.min elapsed window) window

def reviewModifier? (weight total : Nat) : Option Nat :=
  if total = 0 then some wholePercent
  else (quotient? (· / ·) (weight * wholePercent) total).map fun q =>
    wholePercent + Nat.min q wholePercent

def regeneratedPower? (power : Nat) (last now period : Seconds) : Option Nat :=
  let elapsed := now - last
  let regained :=
    if period = 0 then some wholePercent else quotient? (· / ·) (wholePercent * elapsed) period
  regained.map fun r => Nat.min (power + r) wholePercent

def share? (amount : Amount) (numerator denominator : Nat) : Dividing Amount := do
  if denominator = 0 ∨ amount ≤ 0 then return 0
  let product := amount.toNat * numerator
  if maxProduct < product then throw (.overflow .share)
  let q ← .of (quotient? (· / ·) product denominator)
  match Amount.checked? q with
  | some part => return part
  | none => throw (.overflow .share)

def ExpertToken.use? (t : ExpertToken) (c : Config) (weight : Int) (now : Seconds) :
    Dividing PowerUse := do
  let power ← .of (regeneratedPower? t.votingPower t.lastVoteTime now c.voteRegeneration)
  if power = 0 then throw .insufficientVotingPower
  if weight = 0 ∨ wholePercent < weight.natAbs then throw .invalidVoteWeight
  let used ← .of (quotient? (· / ·) (power * weight.natAbs) wholePercent)
  let cost ← .of (quotient? Int.tdiv used c.votePowerCostDivisor)
  let tokens ← .of (quotient? (· / ·) (t.amount.toNat * used) wholePercent)
  if maxWord < tokens then throw (.overflow .usedTokens)
  if tokens = 0 then throw .zeroWeightVote
  return ⟨used, ((power : Int) - cost).toNat, tokens⟩

def WithdrawCommonTokens.plan? (op : WithdrawCommonTokens) (now : Seconds) (s : State) :
    Dividing PowerDown := do
  let a ← s.account op.account
  if op.total < 0 then throw .nonPositiveAmount
  let available := a.commonTokens - a.delegated
  if available < op.total then
    throw (.insufficientCommonTokens op.account op.total available)
  if !a.mined && op.total ≠ 0 then
    let floor := Amount.clamp (s.config.minAccountCreationFee * s.config.powerDownFloorMultiplier)
    if a.commonTokens ≤ floor then throw (.powerDownFloor floor)
  if op.total = 0 then
    if a.powerDown.rate = 0 then throw .withdrawRateUnchanged
    return .idle
  let q ← .of (quotient? (· / ·) op.total (s.config.withdrawIntervals : Int))
  let rate := max q 1
  if rate = a.powerDown.rate then throw .withdrawRateUnchanged
  return ⟨rate, now.after s.config.withdrawIntervalSeconds, op.total, 0⟩

def CreateGrant.perBlock? (op : CreateGrant) : Option Amount :=
  (quotient? (· / ·) op.amount.amount
    (min (op.endBlock - op.startBlock + 1) Amount.max.toNat : Nat)).map (max · 1)

def State.reviewWeight? (r : Review) (discipline : DisciplineId) : Option Nat :=
  quotient? (· / ·)
    (r.rewardWeights.getD discipline 0 * r.weightModifiers.getD discipline wholePercent) wholePercent

section

variable {α β : Type} {x : Option α}

theorem quotient?_of_ne [DecidableEq α] [OfNat α 0] {div : α → α → α} {a b : α} (h : b ≠ 0) :
    quotient? div a b = some (div a b) := if_neg h

namespace Dividing

variable {f : α → Dividing β} {g : α → Except LedgerError β}

theorem bind_of {a : α} (h : x = some a) : (.of x >>= f) = f a := by
  subst h
  rfl

/-- What does not divide goes on as it was. -/
theorem bind_lift {y : Except LedgerError α} (h : ∀ a, f a = some (g a)) :
    ((liftM y : Dividing α) >>= f) = some (y >>= g) := by
  cases y with
  | error => rfl
  | ok a => exact h a

theorem ite {c : Prop} [Decidable c] {y y' : Dividing α} {z z' : Except LedgerError α}
    (h : y = some z) (h' : y' = some z') : (if c then y else y') = some (if c then z else z') := by
  split
  · exact h
  · exact h'

theorem guard_bind {c : Prop} [Decidable c] {e : LedgerError} {y : Dividing α}
    {z : Except LedgerError α} {k : β → Dividing α} {k' : β → Except LedgerError α}
    (h : y = some z) :
    (if c then (throw e : Dividing β) >>= k else y) =
      some (if c then (throw e : Except LedgerError β) >>= k' else z) := ite rfl h

end Dividing

end

namespace SquareRoot

/-- From a positive guess on, all guesses are positive. -/
theorem descend?_eq {x guess : Nat} (hx : 0 < x) (hg : 0 < guess) :
    descend? x guess = some (descend x guess) := by
  induction guess using Nat.strong_induction_on with
  | h guess ih =>
    rw [descend?, descend, quotient?_of_ne hg.ne']
    change (if next x guess < guess then descend? x (next x guess) else some guess) = _
    split
    · exact ih _ ‹_› (next_pos hx hg)
    · rfl

theorem floor?_eq (x : Nat) : floor? x = some (floor x) := by
  unfold floor? floor
  split
  · rfl
  · exact descend?_eq (by omega) (by omega)

end SquareRoot

theorem Curve.eval?_eq (curve : Curve) (tokens : Nat) :
    curve.eval? tokens = some (curve.eval tokens) := by
  cases curve with
  | linear => rfl
  | power1Dot5 =>
    unfold eval? eval
    dsimp only
    split
    · rfl
    · rw [Dividing.bind_of (SquareRoot.floor?_eq _)]
      split <;> rfl

theorem decayedWeight?_eq (weight elapsed window : Nat) :
    decayedWeight? weight elapsed window = some (decayedWeight weight elapsed window) := by
  unfold decayedWeight? decayedWeight
  split
  · rfl
  · exact quotient?_of_ne ‹_›

theorem reviewModifier?_eq (weight total : Nat) :
    reviewModifier? weight total = some (reviewModifier weight total) := by
  unfold reviewModifier? reviewModifier
  split
  · rfl
  · rw [quotient?_of_ne ‹_›]
    rfl

theorem regeneratedPower?_eq (power : Nat) (last now period : Seconds) :
    regeneratedPower? power last now period = some (regeneratedPower power last now period) := by
  unfold regeneratedPower? regeneratedPower
  dsimp only
  split
  · rfl
  · rw [quotient?_of_ne ‹_›]
    rfl

theorem share?_eq (amount : Amount) (n d : Nat) : share? amount n d = some (share amount n d) := by
  unfold share? share
  split
  · rfl
  · rename_i h
    dsimp only
    split
    · rfl
    · rw [Dividing.bind_of (quotient?_of_ne fun hd => h (.inl hd))]
      cases Amount.checked? (amount.toNat * n / d : Nat) <;> rfl

theorem State.reviewWeight?_eq (r : Review) (d : DisciplineId) :
    State.reviewWeight? r d = some (State.reviewWeight r d) := quotient?_of_ne (by decide)

theorem CreateGrant.perBlock?_eq (op : CreateGrant) : op.perBlock? = some op.perBlock := by
  have hblocks : min (op.endBlock - op.startBlock + 1) Amount.max.toNat ≠ 0 :=
    Nat.ne_of_gt (lt_min (Nat.succ_pos _) (by decide))
  unfold perBlock? perBlock
  rw [quotient?_of_ne (by exact_mod_cast hblocks)]
  rfl

theorem ExpertToken.use?_eq {c : Config} (h : c.votePowerCostDivisor ≠ 0) (t : ExpertToken)
    (weight : Int) (now : Seconds) : t.use? c weight now = some (t.use c weight now) := by
  have hwhole : wholePercent ≠ 0 := by decide
  unfold use? use
  rw [Dividing.bind_of (regeneratedPower?_eq ..)]
  refine Dividing.guard_bind (Dividing.guard_bind ?_)
  rw [Dividing.bind_of (quotient?_of_ne hwhole), Dividing.bind_of (quotient?_of_ne h),
    Dividing.bind_of (quotient?_of_ne hwhole)]
  exact Dividing.guard_bind (Dividing.guard_bind rfl)

theorem WithdrawCommonTokens.plan?_eq {s : State} (h : s.config.withdrawIntervals ≠ 0)
    (op : WithdrawCommonTokens) (now : Seconds) : op.plan? now s = some (op.plan now s) := by
  have hi : (s.config.withdrawIntervals : Int) ≠ 0 := by exact_mod_cast h
  unfold plan? plan
  refine Dividing.bind_lift fun a => Dividing.guard_bind (Dividing.guard_bind ?_)
  -- the floor of a created account comes first, and then the same schedule either way
  refine Dividing.ite (Dividing.guard_bind ?_) ?_ <;>
    refine Dividing.ite (Dividing.guard_bind rfl) ?_ <;>
    rw [Dividing.bind_of (quotient?_of_ne hi)] <;>
    exact Dividing.guard_bind rfl

/-- Under these parameters nothing divides by zero: every function that divides comes to the same if a
quotient by zero would stop it, whatever it is given. -/
structure Config.DividesSafely (c : Config) : Prop where
  curve : ∀ (curve : Curve) tokens, curve.eval? tokens = some (curve.eval tokens)
  decay : ∀ weight elapsed, decayedWeight? weight elapsed c.reverseAuctionWindow =
    some (decayedWeight weight elapsed c.reverseAuctionWindow)
  modifier : ∀ weight total, reviewModifier? weight total = some (reviewModifier weight total)
  reviewWeight : ∀ r d, State.reviewWeight? r d = some (State.reviewWeight r d)
  shares : ∀ amount n d, share? amount n d = some (share amount n d)
  perBlock : ∀ op : CreateGrant, op.perBlock? = some op.perBlock
  power : ∀ (t : ExpertToken) weight now, t.use? c weight now = some (t.use c weight now)
  powerDown : ∀ s : State, s.config = c → ∀ (op : WithdrawCommonTokens) now,
    op.plan? now s = some (op.plan now s)

theorem Config.divisors_ne_zero {c : Config} {u : Unit} (h : c.validate = .ok u) :
    c.votePowerCostDivisor ≠ 0 ∧ c.withdrawIntervals ≠ 0 := by
  unfold Config.validate at h
  obtain ⟨-, h⟩ := guard_bind_eq_ok.1 h
  obtain ⟨-, h⟩ := guard_bind_eq_ok.1 h
  obtain ⟨hcost, h⟩ := guard_bind_eq_ok.1 h
  obtain ⟨hintervals, -⟩ := guard_bind_eq_ok.1 h
  exact ⟨fun hz => hcost hz.le, hintervals⟩

/-- The parameters that are accepted are enough. -/
theorem Config.dividesSafely {c : Config} {u : Unit} (h : c.validate = .ok u) : c.DividesSafely where
  curve := Curve.eval?_eq
  decay weight elapsed := decayedWeight?_eq weight elapsed c.reverseAuctionWindow
  modifier := reviewModifier?_eq
  reviewWeight := State.reviewWeight?_eq
  shares := share?_eq
  perBlock := CreateGrant.perBlock?_eq
  power := ExpertToken.use?_eq (divisors_ne_zero h).1
  powerDown _ hs := WithdrawCommonTokens.plan?_eq (hs ▸ (divisors_ne_zero h).2)

/-- A vote does not get past a cost divisor of zero, which is not accepted. -/
example : (ExpertToken.fresh .registrar 0 0).use? { votePowerCostDivisor := 0 } 10000 0 = none := rfl

end ResearchLedger
