import Mathlib.Algebra.Order.BigOperators.Group.List
import Mathlib.Algebra.Order.Group.Int
import Mathlib.Tactic.Linarith
import ResearchLedger.Proofs.Computation
import ResearchLedger.Share

/-! Proportional parts: none fails within its bounds, and rounded down they never exceed the whole. -/
namespace ResearchLedger

variable {amount : Amount} {n d : Nat} {α : Type}

/-- The part `n / d` of an amount, rounded down. -/
def part (amount : Amount) (n d : Nat) : Amount := amount * n / d

theorem sum_map_nonneg {f : α → Amount} {xs : List α} (h : ∀ x ∈ xs, 0 ≤ f x) :
    0 ≤ (xs.map f).sum := by
  refine List.sum_nonneg fun y hy => ?_
  obtain ⟨x, hx, rfl⟩ := List.mem_map.1 hy
  exact h x hx

theorem part_nonneg (h : 0 ≤ amount) : 0 ≤ part amount n d :=
  Int.ediv_nonneg (Int.mul_nonneg h (Int.natCast_nonneg n)) (Int.natCast_nonneg d)

theorem part_le (h : 0 ≤ amount) (hn : n ≤ d) : part amount n d ≤ amount := by
  unfold part
  rcases Nat.eq_zero_or_pos d with rfl | hd
  · simpa using h
  · refine Int.ediv_le_of_le_mul (by exact_mod_cast hd) ?_
    exact Int.mul_le_mul_of_nonneg_left (by exact_mod_cast hn) h

theorem part_add_le (amount : Amount) (m n d : Nat) :
    part amount m d + part amount n d ≤ part amount (m + n) d := by
  unfold part
  rcases Nat.eq_zero_or_pos d with rfl | hd
  · simp
  · have hd : (0 : Int) < d := by exact_mod_cast hd
    refine Int.le_ediv_of_mul_le hd ?_
    have hm := Int.ediv_mul_le (amount * m) hd.ne'
    have hn := Int.ediv_mul_le (amount * n) hd.ne'
    push_cast
    linarith [Int.add_mul (amount * m / d) (amount * n / d) d, Int.mul_add amount m n]

/-- Parts taken one by one come to no more than the part taken at once. -/
theorem sum_part_le (w : α → Nat) (xs : List α) (h : 0 ≤ amount) :
    (xs.map fun x => part amount (w x) d).sum ≤ part amount (xs.map w).sum d := by
  induction xs with
  | nil => exact part_nonneg h
  | cons x xs ih =>
    rw [List.map_cons, List.sum_cons, List.map_cons, List.sum_cons]
    exact (Int.add_le_add_left ih _).trans (part_add_le ..)

/-- What the rounded parts of a whole leave over: the part of the weight that nobody has, and the
remainders. -/
theorem mul_sub_sum_part (amount : Amount) (w : α → Nat) (xs : List α) {rest : Nat}
    (h : d = (xs.map w).sum + rest) : d * (amount - (xs.map fun x => part amount (w x) d).sum) =
      amount * rest + (xs.map fun x => amount * w x % d).sum := by
  have hsum : d * (xs.map fun x => part amount (w x) d).sum +
      (xs.map fun x => amount * w x % d).sum = amount * (xs.map w).sum := by
    clear h
    induction xs with
    | nil => simp
    | cons x xs ih =>
      have hx := Int.mul_ediv_add_emod (amount * w x) d
      simp only [List.map_cons, List.sum_cons, part] at ih ⊢
      push_cast at ih ⊢
      linarith [Int.mul_add d (amount * w x / d)
        (xs.map fun x => amount * (w x : Int) / d).sum, Int.mul_add amount (w x) (xs.map w).sum]
  have hd : (d : Int) * amount = amount * (xs.map w).sum + amount * rest := by
    rw [h, Int.mul_comm]
    push_cast
    rw [Int.mul_add]
  linarith [Int.mul_sub d amount (xs.map fun x => part amount (w x) d).sum]

/-- Parts that make up the whole leave over less than one unit for each of them. -/
theorem sub_sum_part_lt (amount : Amount) {ns : List Nat} (hd : 0 < d) (h : ns.sum = d) :
    amount - (ns.map fun n => part amount n d).sum < ns.length := by
  have hlength : 0 < (ns.length : Int) := by
    have hne : ns ≠ [] := by
      rintro rfl
      exact hd.ne h
    exact_mod_cast List.length_pos_iff.2 hne
  have hpos : (0 : Int) < d := by exact_mod_cast hd
  have hwhole : d = (ns.map fun n => n).sum + 0 := by simpa using h.symm
  have hrest := mul_sub_sum_part amount (fun n => n) ns hwhole
  have hremainders : (ns.map fun n : Nat => amount * n % (d : Int)).sum ≤ ns.length * ((d : Int) - 1) := by
    rw [← nsmul_eq_mul, ← List.length_map]
    refine List.sum_le_card_nsmul _ _ fun r hr => ?_
    obtain ⟨n, -, rfl⟩ := List.mem_map.1 hr
    exact Int.le_sub_one_of_lt (Int.emod_lt_of_pos _ hpos)
  refine lt_of_mul_lt_mul_left ?_ hpos.le
  calc (d : Int) * (amount - (ns.map fun n => part amount n d).sum)
      = (ns.map fun n : Nat => amount * n % (d : Int)).sum := by simpa using hrest
    _ ≤ ns.length * ((d : Int) - 1) := hremainders
    _ < d * ns.length := by linarith

/-- Within its bounds a share is the rounded part. -/
theorem share_eq (h : 0 ≤ amount) (hm : amount ≤ Amount.max) (hn : n ≤ d) (hb : n ≤ 2 * maxWord) :
    share amount n d = .ok (part amount n d) := by
  unfold share
  split
  · rename_i h₀
    obtain rfl | h₀ := h₀
    · simp [part]
    · obtain rfl : amount = 0 := le_antisymm h₀ h
      simp [part]
  · obtain ⟨a, rfl⟩ := Int.eq_ofNat_of_zero_le h
    have ha : a ≤ 0x7FFFFFFFFFFFFFFF := by
      unfold Amount.max at hm
      exact_mod_cast hm
    have hprod : a * n ≤ maxProduct := by
      refine (Nat.mul_le_mul ha hb).trans ?_
      decide
    have hpart : ((a * n / d : Nat) : Amount) = part a n d := by
      unfold part
      push_cast
      rfl
    have hfits : Amount.Fits (part a n d) := by
      refine ⟨le_trans ?_ (part_nonneg h), (part_le h hn).trans hm⟩
      decide
    simp only [Int.toNat_natCast, Nat.not_lt.2 hprod, if_false, hpart, Amount.checked?, if_pos hfits]

theorem percentShare_eq (h : 0 ≤ amount) (hm : amount ≤ Amount.max) (hn : n ≤ wholePercent) :
    percentShare amount n = .ok (part amount n wholePercent) :=
  share_eq h hm hn (hn.trans (by decide))

/-- An amount is divided in proportion to numbers that come to no more than the denominator. Every share
is granted and is its proportion rounded down, together they are at most the amount, and if the numbers
make up the denominator, less than one unit for each of them is left. -/
theorem shares_split {ns : List Nat} (h : 0 ≤ amount) (hm : amount ≤ Amount.max) (hd : 0 < d)
    (hb : d ≤ maxWord) (hn : ns.sum ≤ d) :
    (∀ n ∈ ns, share amount n d = .ok (amount * n / d)) ∧
    (ns.map fun n : Nat => amount * n / (d : Int)).sum ≤ amount ∧
    (ns.sum = d → amount - (ns.map fun n : Nat => amount * n / (d : Int)).sum < ns.length) := by
  refine ⟨fun n hmem => ?_, ?_, sub_sum_part_lt amount hd⟩
  · have hle : n ≤ d := (List.single_le_sum (fun _ _ => Nat.zero_le _) n hmem).trans hn
    exact share_eq h hm hle ((hle.trans hb).trans (by decide))
  · have hsum : _ ≤ part amount (ns.map fun n => n).sum d := sum_part_le (fun n => n) ns h
    rw [List.map_id'] at hsum
    exact hsum.trans (part_le h hn)

/-- The greatest amount among three, at the greatest denominator: two units are left. -/
theorem Sample.greatest_amount_split :
    (∀ n ∈ [2, maxWord - 4, 2], share Amount.max n maxWord = .ok (Amount.max * n / maxWord)) ∧
    Amount.max - ([2, maxWord - 4, 2].map fun n : Nat => Amount.max * n / (maxWord : Int)).sum = 2 ∧
    Amount.max - ([2, maxWord - 4, 2].map fun n : Nat => Amount.max * n / (maxWord : Int)).sum < 3 := by
  obtain ⟨hshares, -, hrest⟩ := @shares_split Amount.max maxWord [2, maxWord - 4, 2] (by decide) le_rfl
    (by decide) le_rfl (by decide)
  exact ⟨hshares, by decide, hrest (by decide)⟩

end ResearchLedger
