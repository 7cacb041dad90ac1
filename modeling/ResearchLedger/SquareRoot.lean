/-!
Integer square roots by Newton's iteration from above.
-/

namespace ResearchLedger.SquareRoot

/-- One step of the iteration for the root of `x`. -/
def next (x guess : Nat) : Nat := (guess + x / guess) / 2

theorem next_pos {x guess : Nat} (hx : 0 < x) (hg : 0 < guess) : 0 < next x guess := by
  unfold next
  rcases Nat.lt_or_ge 1 guess with h | h
  · exact Nat.div_pos (Nat.le_add_right_of_le h) (by decide)
  · obtain rfl : guess = 1 := by omega
    rw [Nat.div_one]
    omega

/-- Steps from a guess as long as the guesses fall. -/
def descend (x guess : Nat) : Nat :=
  if next x guess < guess then descend x (next x guess) else guess
termination_by guess

/-- The greatest number whose square is at most `x`. -/
def floor (x : Nat) : Nat := if x < 2 then x else descend x (x / 2)

end ResearchLedger.SquareRoot
