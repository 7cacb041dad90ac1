import Mathlib.Algebra.Order.Ring.Nat
import Mathlib.Algebra.Order.Ring.Unbundled.Basic
import Mathlib.Data.Nat.Sqrt
import Mathlib.Tactic.Linarith
import ResearchLedger.Quantity
import ResearchLedger.SquareRoot

/-! The iteration for a root in the words of a machine. It starts and stays at or above the root, so
every pass has a divisor and a sum in range, and the guess that is not improved is the root. -/
namespace ResearchLedger.SquareRoot

variable {x guess root : Nat}

/-- The iteration from a guess to the root that it ends with, in words of 128 bits: each pass divides by
a guess that is not zero and forms a sum that is in range. -/
inductive Descends (x : Nat) : Nat → Nat → Prop
  | last {guess : Nat} (hdivisor : guess ≠ 0) (hsum : guess + x / guess ≤ maxProduct)
      (h : guess ≤ next x guess) : Descends x guess guess
  | fall {guess root : Nat} (hdivisor : guess ≠ 0) (hsum : guess + x / guess ≤ maxProduct)
      (h : next x guess < guess) (hrest : Descends x (next x guess) root) : Descends x guess root

/-- The root that a word leads to: a word below two is its own, any other starts at its half. -/
def Computes (x root : Nat) : Prop := if x < 2 then root = x else Descends x (x / 2) root

/-- A guess that the iteration can come to: it is not zero, nor above half of the word, nor below the
root. -/
structure Above (x guess : Nat) : Prop where
  pos : 0 < guess
  le_half : guess ≤ x / 2
  root_le : x < (guess + 1) * (guess + 1)

/-- A product of two numbers is at most the square of their mean. -/
theorem mul_le_mul_self_of_add_le {a b mean : Nat} (h : a + b ≤ 2 * mean) :
    a * b ≤ mean * mean := by
  have hfour := four_mul_le_sq_add a b
  have hsquare := Nat.mul_le_mul h h
  nlinarith only [hfour, hsquare]

namespace Above

/-- Half of a word is at or above the root, also for two and three, which have the root one. -/
theorem start (h : 2 ≤ x) : Above x (x / 2) where
  pos := by omega
  le_half := le_rfl
  root_le := by
    have hx : x ≤ 2 * (x / 2) + 1 := by omega
    have hpos : 0 < x / 2 * (x / 2) := Nat.mul_pos (by omega) (by omega)
    linarith

/-- The mean of a guess and its quotient is at or above the root. -/
theorem next (h : Above x guess) (hfall : next x guess < guess) : Above x (next x guess) where
  pos := by
    have hhalf := h.le_half
    have hpos := h.pos
    exact next_pos (by omega) hpos
  le_half := by
    have hhalf := h.le_half
    omega
  root_le := by
    have hq : x < guess * (x / guess + 1) := Nat.lt_mul_div_succ x h.pos
    refine hq.trans_le (mul_le_mul_self_of_add_le ?_)
    unfold SquareRoot.next
    omega

/-- Only a word below four has the guess one, so the sum of a pass stays below the word or small. -/
theorem sum_le (h : Above x guess) (hx : x ≤ maxProduct) : guess + x / guess ≤ maxProduct := by
  have hpos := h.pos
  have hhalf := h.le_half
  by_cases hone : guess = 1
  · subst guess
    have hroot := h.root_le
    have hbound : 4 ≤ maxProduct := by decide
    simp only [Nat.div_one]
    omega
  · have hq : x / guess ≤ x / 2 := Nat.div_le_div_left (by omega) (by decide)
    omega

/-- A guess that the quotient does not improve is the root. -/
theorem eq_sqrt (h : Above x guess) (hlast : guess ≤ SquareRoot.next x guess) :
    guess = Nat.sqrt x := by
  have hq : guess ≤ x / guess := by
    unfold SquareRoot.next at hlast
    omega
  exact Nat.eq_sqrt.2 ⟨(Nat.le_div_iff_mul_le h.pos).1 hq, h.root_le⟩

/-- From a guess above the root the iteration comes to the root. -/
theorem descends (h : Above x guess) (hx : x ≤ maxProduct) : Descends x guess (Nat.sqrt x) := by
  induction guess using Nat.strong_induction_on with
  | h guess ih =>
    by_cases hfall : SquareRoot.next x guess < guess
    · exact .fall h.pos.ne' (h.sum_le hx) hfall (ih _ hfall (h.next hfall))
    · have hlast := Nat.not_lt.1 hfall
      have hroot := h.eq_sqrt hlast
      rw [← hroot]
      exact .last h.pos.ne' (h.sum_le hx) hlast

end Above

/-- The passes are those of the iteration in numbers without bound. -/
theorem Descends.descend_eq (h : Descends x guess root) : descend x guess = root := by
  induction h with
  | last _ _ h => rw [descend, if_neg (Nat.not_lt.2 h)]
  | fall _ _ h _ ih => rw [descend, if_pos h, ih]

theorem Computes.floor_eq (h : Computes x root) : floor x = root := by
  unfold Computes at h
  unfold floor
  split at h
  · rw [if_pos ‹_›, h]
  · rw [if_neg ‹_›, h.descend_eq]

theorem computes_sqrt (hx : x ≤ maxProduct) : Computes x (Nat.sqrt x) := by
  unfold Computes
  split
  · rename_i hsmall
    obtain rfl | rfl : x = 0 ∨ x = 1 := by omega
    · exact Nat.sqrt_zero
    · exact Nat.sqrt_one
  · exact (Above.start (by omega)).descends hx

/-- The root of a word is the square root, rounded down. -/
theorem floor_eq_sqrt (hx : x ≤ maxProduct) : floor x = Nat.sqrt x := (computes_sqrt hx).floor_eq

end ResearchLedger.SquareRoot
