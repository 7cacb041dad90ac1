import Mathlib.Algebra.BigOperators.Group.List.Basic
import Mathlib.Tactic.Ring
import ResearchLedger.Curve
import ResearchLedger.Proofs.Computation
import ResearchLedger.Proofs.SquareRoots

/-! The curve of rewards: where it has a value and which, that it rises, and that numbers have together
no more on it than their sum has. -/
namespace ResearchLedger

namespace Curve

variable {a b x w : Nat}

/-- The power three halves of a number, rounded down. -/
def threeHalves (x : Nat) : Nat := Nat.sqrt (x ^ 3)

theorem cube_le_iff : x * x * x ≤ maxProduct ↔ x ^ 3 < 2 ^ 128 := by
  have hcube : x ^ 3 = x * x * x := by ring
  have hmax : maxProduct + 1 = 2 ^ 128 := by decide
  omega

/-- The numbers at which the curve has a value reach from zero to the last of them. -/
theorem cube_lt_of_le (h : a ≤ b) (hb : b ^ 3 < 2 ^ 128) : a ^ 3 < 2 ^ 128 :=
  (Nat.pow_le_pow_left h 3).trans_lt hb

/-- Where the cube is in range, the square is. -/
theorem square_le_of_cube (h : x ^ 3 < 2 ^ 128) : x * x ≤ maxProduct := by
  have hx : x ≤ maxWord := by
    by_contra hlarge
    exact absurd (cube_lt_of_le (Nat.lt_of_not_le hlarge) h) (by decide)
  exact (Nat.mul_le_mul hx hx).trans (by decide)

/-- The root of a word has half of its bits. -/
theorem sqrt_le_maxWord (h : x < 2 ^ 128) : Nat.sqrt x ≤ maxWord := by
  have hlt : Nat.sqrt x < maxWord + 1 := Nat.sqrt_lt.2 (h.trans_le (by decide))
  omega

/-- Both checks of the curve refuse the same numbers as the one for the cube, and the check of the root
refuses none. -/
theorem eval_power (x : Nat) : power1Dot5.eval x =
    if x ^ 3 < 2 ^ 128 then .ok (threeHalves x) else .error (.overflow .rewardCurve) := by
  simp only [eval]
  by_cases hcube : x ^ 3 < 2 ^ 128
  · have hsquare := square_le_of_cube hcube
    have hproduct := cube_le_iff.2 hcube
    have hroot : SquareRoot.floor (x * x * x) = threeHalves x := by
      rw [SquareRoot.floor_eq_sqrt hproduct, threeHalves, pow_succ, sq]
    have hword : threeHalves x ≤ maxWord := sqrt_le_maxWord hcube
    rw [if_neg (by omega), hroot, if_neg (Nat.not_lt.2 hword), if_pos hcube]
  · have hproduct : maxProduct < x * x * x := Nat.not_le.1 fun h => hcube (cube_le_iff.1 h)
    rw [if_pos (Or.inr hproduct), if_neg hcube]

theorem eval_power_eq_ok : power1Dot5.eval x = .ok w ↔ x ^ 3 < 2 ^ 128 ∧ threeHalves x = w := by
  rw [eval_power]
  by_cases hcube : x ^ 3 < 2 ^ 128
  · rw [if_pos hcube, Except.ok.injEq]
    exact (and_iff_right hcube).symm
  · rw [if_neg hcube]
    constructor
    · intro h; cases h
    · intro h; exact absurd h.1 hcube

theorem threeHalves_mono (h : a ≤ b) : threeHalves a ≤ threeHalves b :=
  Nat.sqrt_le_sqrt (Nat.pow_le_pow_left h 3)

/-- Twice the product of the roots of two cubes is at most a third of what stands between these cubes in
the cube of the sum. -/
theorem two_mul_roots_le {r s : Nat} (hr : r * r ≤ a ^ 3) (hs : s * s ≤ b ^ 3) :
    2 * (r * s) ≤ a * b * (a + b) := by
  refine Nat.mul_self_le_mul_self_iff.1 ?_
  calc 2 * (r * s) * (2 * (r * s))
      = 4 * ((r * r) * (s * s)) := by ring
    _ ≤ 4 * (a ^ 3 * b ^ 3) := Nat.mul_le_mul_left 4 (Nat.mul_le_mul hr hs)
    _ = (a * b) ^ 2 * (4 * a * b) := by ring
    _ ≤ (a * b) ^ 2 * (a + b) ^ 2 := Nat.mul_le_mul_left _ (four_mul_le_sq_add a b)
    _ = a * b * (a + b) * (a * b * (a + b)) := by ring

theorem threeHalves_add_le (a b : Nat) :
    threeHalves a + threeHalves b ≤ threeHalves (a + b) := by
  have ha : threeHalves a * threeHalves a ≤ a ^ 3 := Nat.sqrt_le _
  have hb : threeHalves b * threeHalves b ≤ b ^ 3 := Nat.sqrt_le _
  have hmixed := two_mul_roots_le ha hb
  refine Nat.le_sqrt.2 ?_
  calc (threeHalves a + threeHalves b) * (threeHalves a + threeHalves b)
      = threeHalves a * threeHalves a + 2 * (threeHalves a * threeHalves b) +
          threeHalves b * threeHalves b := by ring
    _ ≤ a ^ 3 + a * b * (a + b) + b ^ 3 := by omega
    _ ≤ a ^ 3 + 3 * (a * b * (a + b)) + b ^ 3 := by omega
    _ = (a + b) ^ 3 := by ring

/-- Numbers one by one have no more on the curve than all of them at once. -/
theorem sum_threeHalves_le (xs : List Nat) : (xs.map threeHalves).sum ≤ threeHalves xs.sum := by
  induction xs with
  | nil => exact Nat.zero_le _
  | cons x xs ih =>
    rw [List.map_cons, List.sum_cons, List.sum_cons]
    exact (Nat.add_le_add_left ih _).trans (threeHalves_add_le x xs.sum)

/-- Every part of a sum that the curve has a value at has a value as well. -/
theorem mapM_eval_power {xs : List Nat} (h : xs.sum ^ 3 < 2 ^ 128) :
    xs.mapM power1Dot5.eval = .ok (xs.map threeHalves) := by
  induction xs with
  | nil => rfl
  | cons x xs ih =>
    rw [List.sum_cons] at h
    have hx := cube_lt_of_le (Nat.le_add_right x xs.sum) h
    have hxs := cube_lt_of_le (Nat.le_add_left xs.sum x) h
    rw [List.mapM_cons, eval_power_eq_ok.2 ⟨hx, rfl⟩, ih hxs]
    rfl

theorem delta_power (h : a ≤ b) (hb : b ^ 3 < 2 ^ 128) :
    power1Dot5.delta a b = .ok (threeHalves b - threeHalves a) := by
  have ha := cube_lt_of_le h hb
  have hmono := Nat.not_lt.2 (threeHalves_mono h)
  rw [delta, eval_power_eq_ok.2 ⟨ha, rfl⟩, ok_bind, eval_power_eq_ok.2 ⟨hb, rfl⟩, ok_bind,
    if_neg hmono]
  rfl

/-- The iteration for the root of any word runs through without a division by zero and without a sum out
of range, and comes to the root rounded down. So the curve is the power three halves rounded down
wherever the cube is a word, and overflows everywhere else; where the cube is a word its root fits. -/
theorem power_exact :
    (∀ x ≤ maxProduct, SquareRoot.Computes x (SquareRoot.floor x) ∧
      SquareRoot.floor x * SquareRoot.floor x ≤ x ∧
      x < (SquareRoot.floor x + 1) * (SquareRoot.floor x + 1)) ∧
    (∀ x, power1Dot5.eval x =
      if x ^ 3 < 2 ^ 128 then .ok (Nat.sqrt (x ^ 3)) else .error (.overflow .rewardCurve)) ∧
    ∀ x, x ^ 3 < 2 ^ 128 → SquareRoot.floor (x ^ 3) ≤ maxWord := by
  refine ⟨fun x hx => ?_, eval_power, fun x hx => ?_⟩
  · rw [SquareRoot.floor_eq_sqrt hx]
    exact ⟨SquareRoot.computes_sqrt hx, Nat.sqrt_le x, Nat.lt_succ_sqrt x⟩
  · have hword : x ^ 3 ≤ maxProduct := Nat.le_of_lt_succ hx
    rw [SquareRoot.floor_eq_sqrt hword]
    exact sqrt_le_maxWord hx

end Curve

/-- The greatest word and the greatest number whose cube is a word. -/
theorem Sample.greatest_powers :
    (SquareRoot.Computes maxProduct (SquareRoot.floor maxProduct) ∧
      SquareRoot.floor maxProduct = maxWord) ∧
    Curve.power1Dot5.eval 6981463658331 = .ok 18446744073707335726 ∧
    SquareRoot.floor (6981463658331 ^ 3) ≤ maxWord ∧
    Curve.power1Dot5.eval 6981463658332 = .error (.overflow .rewardCurve) := by
  obtain ⟨hroot, heval, hfits⟩ := Curve.power_exact
  refine ⟨⟨(hroot maxProduct le_rfl).1, by decide +kernel⟩, ?_, hfits _ (by decide), ?_⟩
  · rw [heval, if_pos (by decide)]
    decide +kernel
  · rw [heval, if_neg (by decide)]

end ResearchLedger
