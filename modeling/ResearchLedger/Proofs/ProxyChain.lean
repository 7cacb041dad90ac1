import Mathlib.Algebra.BigOperators.Intervals
import Mathlib.Combinatorics.Pigeonhole

/-! Chains that follow a partial function, and sums that are gathered along them. -/
namespace ResearchLedger

variable {α : Type} {p p' : α → Option α} {g g' : Nat → α → Int} {n x y : α} {o : Option α}
  {i j k m fuel : Nat}

/-- Where a chain is after some steps. -/
def climb (p : α → Option α) : Nat → α → Option α
  | 0, n => some n
  | k + 1, n => (p n).bind (climb p k)

/-- No chain comes back to where it was. -/
def Acyclic (p : α → Option α) : Prop := ∀ n k, climb p (k + 1) n ≠ some n

/-- A chain from `o` on never meets `n`. -/
def Avoids (p : α → Option α) (n : α) (o : Option α) : Prop := ∀ k, o.bind (climb p k) ≠ some n

/-- What is met on the way from `o` within `fuel` members, with the numbers of the members from `m`
on. -/
def gather (p : α → Option α) (g : Nat → α → Int) : (fuel m : Nat) → Option α → Int
  | fuel + 1, m, some n => g m n + gather p g fuel (m + 1) (p n)
  | _, _, _ => 0

theorem climb_add : climb p (j + k) n = (climb p j n).bind (climb p k) := by
  induction j generalizing n with
  | zero => rw [Nat.zero_add]; rfl
  | succ j ih =>
    rw [Nat.succ_add, climb, climb]
    cases p n with
    | none => rfl
    | some q => exact ih

theorem climb_succ : climb p (k + 1) n = (climb p k n).bind p := by
  rw [climb_add]
  congr 1
  funext q
  rw [climb]
  cases p q <;> rfl

/-- A chain that has ended goes no further. -/
theorem climb_none_of_le (h : climb p j n = none) (hjk : j ≤ k) : climb p k n = none := by
  obtain ⟨m, rfl⟩ := Nat.exists_eq_add_of_le hjk
  rw [climb_add, h]
  rfl

/-- A chain has one end. -/
theorem climb_end_unique (hx : climb p j n = some x) (hxe : p x = none) (hy : climb p k n = some y)
    (hye : p y = none) : j = k := by
  have hle : ∀ {j k x y}, climb p j n = some x → p x = none → climb p k n = some y → k ≤ j := by
    intro j k x y hx hxe hy
    by_contra hlt
    have hpast : climb p (j + 1) n = none := by rw [climb_succ, hx]; exact hxe
    rw [climb_none_of_le hpast (by omega)] at hy
    cases hy
  exact Nat.le_antisymm (hle hy hye hx) (hle hx hxe hy)

namespace Avoids

theorem none : Avoids p n none := fun _ h => by cases h

theorem ne (h : Avoids p n (some x)) : x ≠ n := fun he => h 0 (congrArg some he)

theorem step (h : Avoids p n (some x)) : Avoids p n (p x) := fun k => h (k + 1)

end Avoids

theorem Acyclic.avoids (h : Acyclic p) (n : α) : Avoids p n (p n) := fun k => h n k

/-- A chain that avoids `n` goes the same way when `n` changes. -/
theorem climb_congr (hp : ∀ x, x ≠ n → p' x = p x) (ho : Avoids p n o) :
    o.bind (climb p' k) = o.bind (climb p k) := by
  induction k generalizing o with
  | zero => rfl
  | succ k ih =>
    cases o with
    | none => rfl
    | some x =>
      have := ih ho.step
      rw [← hp x ho.ne] at this
      simpa only [Option.bind_some, climb, hp x ho.ne] using this

/-- No loop arises when `n` goes on to where no chain leads back to it. -/
theorem Acyclic.reset (h : Acyclic p) (hp : ∀ x, x ≠ n → p' x = p x) (hn : Avoids p n (p' n)) :
    Acyclic p' := by
  have hself : ∀ k, climb p' (k + 1) n ≠ some n := fun k => by
    rw [climb, climb_congr hp hn]
    exact hn k
  intro x k hk
  by_cases hmeet : ∃ j, climb p' j x = some n
  · obtain ⟨j, hj⟩ := hmeet
    refine hself k ?_
    have hround : climb p' (j + (k + 1)) x = climb p' (k + 1) n := by rw [climb_add, hj]; rfl
    rw [← hround, Nat.add_comm, climb_add, hk]
    exact hj
  · have havoid : Avoids p' n (some x) := fun j hj => hmeet ⟨j, hj⟩
    have hsame : (some x).bind (climb p (k + 1)) = (some x).bind (climb p' (k + 1)) :=
      climb_congr (fun y hy => (hp y hy).symm) havoid
    exact h x k (hsame.trans hk)

/-- A chain goes the same way up to the first place that changes. -/
theorem climb_until (h : Acyclic p) (hp : ∀ x, x ≠ n → p' x = p x) (hi : climb p i x = some n) :
    climb p' i x = some n := by
  induction i generalizing x with
  | zero => exact hi
  | succ i ih =>
    have hx : x ≠ n := fun he => h x i (he ▸ hi)
    rw [climb] at hi ⊢
    obtain ⟨q, hq, hi⟩ := Option.bind_eq_some_iff.1 hi
    rw [hp x hx, hq]
    exact ih hi

/-- When `n` goes on elsewhere, all chains stay short exactly if none that comes to `n` is too long
with what follows there. -/
theorem climb_short_iff (h : Acyclic p) (hp : ∀ x, x ≠ n → p' x = p x) (hn : Avoids p n (p' n))
    (hshort : ∀ x, climb p k x = none) : (∀ x, climb p' k x = none) ↔
      ∀ x i, climb p i x = some n → (p' n).bind (climb p (k - (i + 1))) = none := by
  have hmeet : ∀ x i, climb p i x = some n →
      climb p' k x = (p' n).bind (climb p (k - (i + 1))) := by
    intro x i hi
    have hik : i < k := by
      by_contra hlt
      rw [climb_none_of_le (hshort x) (Nat.le_of_not_lt hlt)] at hi
      cases hi
    obtain ⟨m, rfl⟩ := Nat.exists_eq_add_of_lt hik
    have hm : i + m + 1 - (i + 1) = m := by omega
    rw [Nat.add_assoc, climb_add, climb_until h hp hi, Option.bind_some, climb,
      climb_congr hp hn, ← Nat.add_assoc, hm]
  constructor
  · intro hshort' x i hi
    rw [← hmeet x i hi]
    exact hshort' x
  · intro hroom x
    by_cases hx : ∃ i, climb p i x = some n
    · obtain ⟨i, hi⟩ := hx
      rw [hmeet x i hi]
      exact hroom x i hi
    · have havoid : Avoids p n (some x) := fun i hi => hx ⟨i, hi⟩
      have hsame : (some x).bind (climb p' k) = (some x).bind (climb p k) := climb_congr hp havoid
      exact hsame.trans (hshort x)

/-- A chain that has nothing left somewhere has an end before. -/
theorem exists_end_of_none (h : climb p k n = none) : ∃ j x, climb p j n = some x ∧ p x = none := by
  induction k with
  | zero => cases h
  | succ k ih =>
    cases hk : climb p k n with
    | none => exact ih hk
    | some x => exact ⟨k, x, hk, by rwa [climb_succ, hk] at h⟩

theorem Acyclic.climb_ne (h : Acyclic p) (hx : climb p i n = some x) (hij : i < j) :
    climb p j n ≠ some x := by
  obtain ⟨m, rfl⟩ := Nat.exists_eq_add_of_lt hij
  rw [Nat.add_assoc, climb_add, hx]
  exact h x m

/-- A chain among finitely many members has nothing left when all of them could have been met. -/
theorem Acyclic.climb_card [DecidableEq α] (h : Acyclic p) (members : Finset α)
    (hp : ∀ x y, p x = some y → y ∈ members) (n : α) : climb p (members.card + 1) n = none := by
  refine Option.eq_none_iff_forall_ne_some.2 fun z hz => ?_
  have hsome : ∀ i, i < members.card + 1 → ∃ y ∈ members, climb p (i + 1) n = some y := by
    intro i hi
    cases hy : climb p (i + 1) n with
    | none =>
      rw [climb_none_of_le hy hi] at hz
      cases hz
    | some y =>
      rw [climb_succ] at hy
      obtain ⟨x, -, hxy⟩ := Option.bind_eq_some_iff.1 hy
      exact ⟨y, hp x y hxy, rfl⟩
  have hmaps : Set.MapsTo (fun i => climb p (i + 1) n) (Finset.range (members.card + 1) : Set ℕ)
      (members.map .some : Set (Option α)) := by
    intro i hi
    obtain ⟨y, hy, hclimb⟩ := hsome i (Finset.mem_range.1 hi)
    dsimp only
    rw [hclimb]
    exact Finset.mem_map_of_mem _ hy
  -- There are more places than members, so one of them would be met twice.
  obtain ⟨i, hi, j, hj, hne, hij⟩ := Finset.exists_ne_map_eq_of_card_lt_of_maps_to (by simp) hmaps
  obtain ⟨x, -, hx⟩ := hsome i (Finset.mem_range.1 hi)
  obtain ⟨y, -, hy⟩ := hsome j (Finset.mem_range.1 hj)
  rcases Nat.lt_or_gt_of_ne hne with hlt | hlt
  · exact h.climb_ne hx (Nat.succ_lt_succ hlt) (hij ▸ hx)
  · exact h.climb_ne hy (Nat.succ_lt_succ hlt) (hij ▸ hy)

@[simp] theorem gather_zero : gather p g 0 m o = 0 := by unfold gather; rfl

@[simp] theorem gather_none : gather p g fuel m none = 0 := by
  cases fuel <;> rfl

theorem gather_some : gather p g (fuel + 1) m (some n) = g m n + gather p g fuel (m + 1) (p n) := rfl

/-- A chain that avoids `n` gathers the same when `n` changes. -/
theorem gather_congr (hp : ∀ x, x ≠ n → p' x = p x) (hg : ∀ m x, x ≠ n → g' m x = g m x)
    (ho : Avoids p n o) : gather p' g' fuel m o = gather p g fuel m o := by
  induction fuel generalizing m o with
  | zero => rw [gather_zero, gather_zero]
  | succ fuel ih =>
    cases o with
    | none => rw [gather_none, gather_none]
    | some x => rw [gather_some, gather_some, hg m x ho.ne, hp x ho.ne, ih ho.step]

/-- When `n` changes, what is gathered changes from where the chain meets `n`. -/
theorem gather_sub [DecidableEq α] (hp : ∀ x, x ≠ n → p' x = p x)
    (hg : ∀ m x, x ≠ n → g' m x = g m x) (hn : Avoids p n (p n)) :
    gather p' g' fuel m (some x) - gather p g fuel m (some x) =
      ∑ i ∈ Finset.range fuel, if climb p i x = some n then
        gather p' g' (fuel - i) (m + i) (some n) - gather p g (fuel - i) (m + i) (some n) else 0 := by
  induction fuel generalizing m x with
  | zero => simp
  | succ fuel ih =>
    rw [Finset.sum_range_succ']
    by_cases hx : x = n
    · -- The chain does not come back to its beginning, so only the first place counts.
      subst hx
      have hlater : ∀ i, climb p (i + 1) x ≠ some x := hn
      have hfirst : climb p 0 x = some x := rfl
      rw [Finset.sum_eq_zero fun i _ => if_neg (hlater i), if_pos hfirst, zero_add]
      rfl
    · have hfirst : climb p 0 x ≠ some n := fun h => hx (Option.some.inj h)
      rw [if_neg hfirst, add_zero, gather_some, gather_some, hg m x hx, hp x hx]
      cases hq : p x with
      | none =>
        have hlater : ∀ i, climb p (i + 1) x = none := fun i => by rw [climb, hq]; rfl
        simp [hlater]
      | some q =>
        have hlater : ∀ i, climb p (i + 1) x = climb p i q := fun i => by rw [climb, hq]; rfl
        have := ih (m := m + 1) (x := q)
        simp only [hlater, Nat.add_sub_add_right, ← Nat.add_assoc, Nat.add_right_comm m _ 1] at this ⊢
        rw [← this, add_sub_add_left_eq_sub]

theorem gather_eq_sum : gather p g fuel m (some n) =
    ∑ i ∈ Finset.range fuel, (climb p i n).elim 0 (g (m + i)) := by
  induction fuel generalizing m n with
  | zero => simp
  | succ fuel ih =>
    rw [gather_some, Finset.sum_range_succ', add_comm]
    congr 1
    cases hq : p n with
    | none => simp [climb, hq]
    | some q =>
      rw [ih]
      refine Finset.sum_congr rfl fun i _ => ?_
      rw [climb, hq, Nat.add_assoc, Nat.add_comm 1]
      rfl

end ResearchLedger
