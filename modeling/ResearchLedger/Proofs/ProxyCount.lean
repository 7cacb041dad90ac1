import ResearchLedger.Proofs.Money
import ResearchLedger.Proofs.ProxyChain

/-! The numbers that elections rest on: the stake that votes through an account, by distance, and the
votes for a witness. -/
namespace ResearchLedger

open SortedMap

/-- What an account brings into numbers. -/
def Account.ballot (a : Account) : Amount × Option AccountName := (a.commonTokens, a.proxy)

/-- A number that is kept. -/
inductive Count where
  | through (account : AccountName) (slot : Fin maxProxyDepth)
  | votes (witness : AccountName)

namespace State

/-- The proxy of an account, if it has one. -/
def proxyOf (s : State) (n : AccountName) : Option AccountName := (s.accounts.get? n).bind (·.proxy)

/-- Whether an account votes for a witness. -/
def approves (s : State) (n witness : AccountName) : Bool :=
  (s.witnessVotes.getD n ∅).contains witness

/-- Whether the stake of an account belongs into a number: the account's chain of proxies leads to the
place, or within the greatest depth to a voter. -/
def counts (s : State) : Count → AccountName → Bool
  | .through account slot, n => climb s.proxyOf (slot.val + 1) n = some account
  | .votes witness, n => (List.range (maxProxyDepth + 1)).any fun i =>
      (climb s.proxyOf i n).any fun m => s.approves m witness

/-- The stake that belongs into a number. -/
def count (s : State) (c : Count) : Amount :=
  s.accounts.sumOf fun n a => if s.counts c n then a.commonTokens else 0

/-- A number as it is kept. -/
def noted (s : State) : Count → Option Amount
  | .through account slot => (s.accounts.get? account).map (·.proxied[slot])
  | .votes witness => (s.witnesses.get? witness).map (·.votes)

/-- Every number is the stake that belongs into it. -/
def Exact (s : State) : Prop := ∀ c x, s.noted c = some x → x = s.count c

/-- How proxies and votes hang together. -/
structure Chained (s : State) : Prop where
  acyclic : Acyclic s.proxyOf
  proxies : ∀ n q, s.proxyOf n = some q → s.accounts.contains q = true
  voters : ∀ n w, s.approves n w = true →
    s.proxyOf n = none ∧ s.accounts.contains n = true ∧ s.witnesses.contains w = true

/-- One at each place of a chain that makes its beginning belong into a number. -/
def mark (s : State) : Count → Nat → AccountName → Amount
  | .through account slot, m, n => if m = slot.val + 1 ∧ n = account then 1 else 0
  | .votes witness, _, n => if s.approves n witness then 1 else 0

variable {s s' : State} {c : Count} {n account witness : AccountName} {slot : Fin maxProxyDepth}
  {a : Account} {f : Account → Account} {fuel m : Nat}

theorem proxyOf_of_get? (ha : s.accounts.get? n = some a) : s.proxyOf n = a.proxy := by
  rw [proxyOf, ha]
  rfl

theorem noted_through (ha : s.accounts.get? n = some a) (slot : Fin maxProxyDepth) :
    s.noted (.through n slot) = some (a.proxied.get slot) := by
  simp only [noted, ha]
  rfl

/-- Beyond the place that a number counts nothing is left to gather. -/
theorem gather_past (hm : slot.val + 1 < m) (o : Option AccountName) :
    gather s.proxyOf (s.mark (.through account slot)) fuel m o = 0 := by
  induction fuel generalizing m o with
  | zero => exact gather_zero
  | succ fuel ih =>
    cases o with
    | none => exact gather_none
    | some n =>
      rw [gather_some, mark, if_neg (by omega), zero_add]
      exact ih (by omega) _

theorem gather_through : gather s.proxyOf (s.mark (.through account slot)) fuel m (some n) =
    if m ≤ slot.val + 1 ∧ slot.val + 1 < m + fuel ∧ climb s.proxyOf (slot.val + 1 - m) n = some account
      then 1 else 0 := by
  induction fuel generalizing m n with
  | zero =>
    rw [gather_zero, if_neg]
    omega
  | succ fuel ih =>
    rw [gather_some, mark]
    -- The place that counts is still ahead, is this one, or is past.
    rcases Nat.lt_trichotomy m (slot.val + 1) with hm | hm | hm
    · obtain ⟨j, hj⟩ : ∃ j, slot.val + 1 - m = j + 1 := ⟨slot.val - m, by omega⟩
      have hj' : slot.val + 1 - (m + 1) = j := by omega
      rw [if_neg (by omega), zero_add, hj, climb]
      cases hq : s.proxyOf n with
      | none =>
        rw [gather_none, if_neg]
        rintro ⟨-, -, h⟩
        cases h
      | some q =>
        rw [ih, hj']
        simp only [Option.bind_some]
        congr 1
        simp only [eq_iff_iff]
        constructor <;> rintro ⟨h₁, h₂, h₃⟩ <;> exact ⟨by omega, by omega, h₃⟩
    · have hclimb : climb s.proxyOf (slot.val + 1 - m) n = some n := by rw [hm, Nat.sub_self]; rfl
      rw [gather_past (by omega), add_zero, hclimb]
      congr 1
      simp only [eq_iff_iff, Option.some.injEq]
      constructor
      · rintro ⟨h₁, h₂⟩
        exact ⟨by omega, by omega, h₂⟩
      · rintro ⟨-, -, h⟩
        exact ⟨hm, h⟩
    · rw [gather_past (by omega), if_neg (by omega), if_neg (by omega), add_zero]

theorem gather_votes (hs : s.Chained) :
    gather s.proxyOf (s.mark (.votes witness)) fuel m (some n) =
      if (List.range fuel).any fun i => (climb s.proxyOf i n).any fun x => s.approves x witness
        then 1 else 0 := by
  induction fuel generalizing m n with
  | zero => simp
  | succ fuel ih =>
    rw [gather_some, mark, List.range_succ_eq_map, List.any_cons, List.any_map]
    cases hw : s.approves n witness with
    | true =>
      have hfirst : (climb s.proxyOf 0 n).any (fun x => s.approves x witness) = true := hw
      rw [(hs.voters n witness hw).1, gather_none, hfirst, Bool.true_or]
      rfl
    | false =>
      have hfirst : (climb s.proxyOf 0 n).any (fun x => s.approves x witness) = false := hw
      rw [hfirst, Bool.false_or, if_neg Bool.false_ne_true, zero_add]
      cases hq : s.proxyOf n with
      | none =>
        rw [gather_none, if_neg]
        simp [climb, hq, Function.comp_def]
      | some q =>
        rw [ih]
        simp [climb, hq, Function.comp_def]

/-- Whether a stake belongs into a number shows on the chain of its owner. -/
theorem gather_mark (hs : s.Chained) (c : Count) (n : AccountName) :
    gather s.proxyOf (s.mark c) (maxProxyDepth + 1) 0 (some n) = if s.counts c n then 1 else 0 := by
  cases c with
  | through account slot =>
    rw [gather_through, counts]
    have := slot.isLt
    congr 1
    simp only [eq_iff_iff, decide_eq_true_eq]
    exact ⟨fun h => h.2.2, fun h => ⟨Nat.zero_le _, by omega, h⟩⟩
  | votes witness =>
    rw [gather_votes hs]
    rfl

theorem proxyOf_keeps (h : Keeps Account.proxy s.accounts s'.accounts) (n : AccountName) :
    s'.proxyOf n = s.proxyOf n := by
  have := congrArg (fun o : Option (Option AccountName) => o.bind id) (h.map_eq n)
  simp only [Option.bind_map] at this
  exact this

theorem counts_congr (hp : ∀ n, s'.proxyOf n = s.proxyOf n) (hv : s'.witnessVotes = s.witnessVotes)
    (c : Count) (n : AccountName) : s'.counts c n = s.counts c n := by
  have hp : s'.proxyOf = s.proxyOf := funext hp
  cases c <;> simp only [counts, hp, approves, hv]

theorem count_keeps (h : Keeps Account.ballot s.accounts s'.accounts)
    (hv : s'.witnessVotes = s.witnessVotes) (c : Count) : s'.count c = s.count c := by
  have hcounts := counts_congr (proxyOf_keeps (h.map Prod.snd)) hv c
  refine sumOf_eq_of_get? fun n => ?_
  have := congrArg (Option.map fun b : Amount × Option AccountName => if s.counts c n then b.1 else 0)
    (h.map_eq n)
  simp only [Option.map_map] at this
  simp only [hcounts]
  exact this

theorem noted_keeps (h : Keeps Account.proxied s.accounts s'.accounts)
    (hw : s'.witnesses = s.witnesses) (c : Count) : s'.noted c = s.noted c := by
  cases c with
  | through account slot => exact (h.map (·[slot])).map_eq account
  | votes => rw [noted, noted, hw]

theorem count_frame (hf : ∀ a, (f a).ballot = a.ballot) (c : Count) :
    (s.modifyAccount n f).count c = s.count c := by
  refine count_keeps ?_ ?_ c
  · exact .modify_self hf
  · rfl

theorem noted_frame (hf : ∀ a, (f a).proxied = a.proxied) (c : Count) :
    (s.modifyAccount n f).noted c = s.noted c := by
  refine noted_keeps ?_ ?_ c
  · exact .modify_self hf
  · rfl

theorem count_credit {x : Amount} : (s.credit n x).count c = s.count c :=
  count_frame (f := (·.credit x)) (fun _ => rfl) c

theorem noted_credit {x : Amount} : (s.credit n x).noted c = s.noted c :=
  noted_frame (f := (·.credit x)) (fun _ => rfl) c

/-- A change of one stake changes the numbers it belongs into by as much. -/
theorem count_modifyAccount (ha : s.accounts.get? n = some a) (hf : ∀ a, (f a).proxy = a.proxy)
    (c : Count) : (s.modifyAccount n f).count c =
      s.count c + if s.counts c n then (f a).commonTokens - a.commonTokens else 0 := by
  have hk : Keeps Account.proxy s.accounts (s.modifyAccount n f).accounts := .modify_self hf
  have hcounts : ∀ k, (s.modifyAccount n f).counts c k = s.counts c k :=
    counts_congr (proxyOf_keeps hk) rfl c
  have hsum := sumOf_modify (f := fun n (a : Account) => if s.counts c n then a.commonTokens else 0)
    (u := f) ha
  unfold count
  simp only [hcounts]
  change (s.accounts.modify n f).sumOf _ = _
  split at hsum
  · rw [if_pos ‹_›]
    linarith
  · rw [if_neg ‹_›]
    linarith

theorem Chained.congr (h : s.Chained) (hp : ∀ n, s'.proxyOf n = s.proxyOf n)
    (ha : s.accounts.Within s'.accounts) (hv : s'.witnessVotes = s.witnessVotes)
    (hw : s.witnesses.Within s'.witnesses) : s'.Chained where
  acyclic := (funext hp : s'.proxyOf = s.proxyOf) ▸ h.acyclic
  proxies := fun n q hq => ha q (h.proxies n q (hp n ▸ hq))
  voters := fun n w hn => by
    unfold approves at hn
    rw [hv] at hn
    obtain ⟨h₁, h₂, h₃⟩ := h.voters n w hn
    exact ⟨hp n ▸ h₁, ha n h₂, hw w h₃⟩

theorem Chained.frame (h : s.Chained) (hf : ∀ a, (f a).proxy = a.proxy) :
    (s.modifyAccount n f).Chained := by
  have hk : Keeps Account.proxy s.accounts (s.modifyAccount n f).accounts := .modify_self hf
  exact h.congr (proxyOf_keeps hk) hk.within rfl .refl

end State

end ResearchLedger
