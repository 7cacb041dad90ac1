import ResearchLedger.Error
import ResearchLedger.SquareRoot
/-!
Reward curves. A vote that raises a running total earns the difference of the curve at the two
totals, so the earnings of all votes on one target add up to the curve of the final total.
-/

namespace ResearchLedger

/-- How a weight grows with the tokens behind it. -/
inductive Curve where
  | linear
  | power1Dot5
deriving DecidableEq

namespace Curve

/-- The weight of a number of tokens. -/
def eval (curve : Curve) (tokens : Nat) : Except LedgerError Nat :=
  match curve with
  | linear => .ok tokens
  | power1Dot5 =>
    let cube := tokens * tokens * tokens
    if maxProduct < tokens * tokens ∨ maxProduct < cube then .error (.overflow .rewardCurve)
    else
      let root := SquareRoot.floor cube
      if maxWord < root then .error (.overflow .rewardCurve) else .ok root

/-- The weight gained when a running total rises from `old` to `new`. -/
def delta (curve : Curve) (old new : Nat) : Except LedgerError Nat := do
  let before ← curve.eval old
  let after ← curve.eval new
  if after < before then throw (.overflow .curveDelta)
  return after - before

end Curve

/-- What remains of a weight `elapsed` seconds after its target was made: it grows in proportion
to the time until the window is over. -/
def decayedWeight (weight elapsed window : Nat) : Nat :=
  if window = 0 then weight else weight * Nat.min elapsed window / window

/-- The weight of a review in hundredths of a percent: between one and two wholes, growing with
the review's part of the total of its discipline. -/
def reviewModifier (weight total : Nat) : Nat :=
  if total = 0 then wholePercent
  else wholePercent + Nat.min (weight * wholePercent / total) wholePercent

/-- Voting power at `now`, if it was `power` at `last` and regains a whole in `period` seconds. -/
def regeneratedPower (power : Nat) (last now period : Seconds) : Nat :=
  let elapsed := now - last
  let regained := if period = 0 then wholePercent else wholePercent * elapsed / period
  Nat.min (power + regained) wholePercent

end ResearchLedger
