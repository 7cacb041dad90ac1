import Mathlib.Algebra.BigOperators.Ring.Finset
import ResearchLedger.Proofs.ProxyCount

/-! What a change of stake that is carried up a chain of proxies does to each number. -/
namespace ResearchLedger

open SortedMap

variable {d : ProxyDelta} {f g : Nat → Amount} {e e' : ProxyEffects} {c : Count}
  {n q witness : AccountName} {amount : Amount}

namespace ProxyDelta

/-- The entries of a change, each taken as often as `f` says. -/
def weigh (d : ProxyDelta) (f : Nat → Amount) : Amount :=
  ∑ m ∈ Finset.range (maxProxyDepth + 1), d[m]?.getD 0 * f m

theorem weigh_add : (d.weigh fun m => f m + g m) = d.weigh f + d.weigh g := by
  simp only [weigh, mul_add, Finset.sum_add_distrib]

theorem weigh_zero : (d.weigh fun _ => 0) = 0 := by
  simp [weigh]

theorem weigh_mul {k : Amount} : d.weigh f * k = d.weigh fun m => f m * k := by
  unfold weigh
  rw [Finset.sum_mul]
  exact Finset.sum_congr rfl fun m _ => mul_assoc ..

theorem weigh_congr (h : ∀ m, m ≤ maxProxyDepth → f m = g m) : d.weigh f = d.weigh g :=
  Finset.sum_congr rfl fun m hm => by rw [h m (Nat.lt_succ_iff.1 (Finset.mem_range.1 hm))]

theorem weigh_single {j : Nat} (hj : j ≤ maxProxyDepth) :
    (d.weigh fun m => if m = j then 1 else 0) = d[j]?.getD 0 := by
  simp only [weigh, mul_ite, mul_one, mul_zero, Finset.sum_ite_eq', Finset.mem_range,
    Nat.lt_succ_of_le hj, if_true]

theorem weigh_neg : d.neg.weigh f = -d.weigh f := by
  unfold weigh neg
  rw [← Finset.sum_neg_distrib]
  refine Finset.sum_congr rfl fun m _ => ?_
  rw [Vector.getElem?_map]
  cases d[m]? <;> simp

theorem weigh_sub : d.weigh f - d.weigh g = d.weigh fun m => f m - g m := by
  simp only [weigh, mul_sub, Finset.sum_sub_distrib]

theorem weigh_own : (own amount).weigh f = amount * f 0 := by
  unfold weigh own
  rw [Finset.sum_eq_single 0]
  · rfl
  · intro m hm h₀
    have hm := Finset.mem_range.1 hm
    simp [Vector.getElem?_eq_getElem hm, h₀]
  · intro h
    exact absurd (Finset.mem_range.2 (Nat.succ_pos _)) h

theorem total_take (l : List Amount) (j : Nat) :
    total (l.take j) = ∑ m ∈ Finset.range j, l[m]?.getD 0 := by
  induction l generalizing j with
  | nil => simp [total]
  | cons x l ih =>
    cases j with
    | zero => rfl
    | succ j =>
      rw [List.take_succ_cons, Finset.sum_range_succ', add_comm]
      simp only [List.getElem?_cons_succ, List.getElem?_cons_zero, Option.getD_some]
      rw [← ih]
      rfl

/-- All that votes with an account is the weight of its vote. -/
theorem weigh_weight (a : Account) : ((ofAccount a).weigh fun _ => 1) = a.witnessVoteWeight := by
  have htotal := total_take a.proxied.toList maxProxyDepth
  rw [List.take_of_length_le (by simp)] at htotal
  unfold Account.witnessVoteWeight Account.proxiedTotal weigh
  rw [htotal, Finset.sum_range_succ', add_comm]
  congr 1
  · simp [ofAccount]
  · refine Finset.sum_congr rfl fun i hi => ?_
    have hi := Finset.mem_range.1 hi
    simp [ofAccount, hi]

theorem votesAt_eq {room : Nat} (hr : room ≤ maxProxyDepth) :
    d.votesAt (maxProxyDepth - room) = d.weigh fun m => if m ≤ room then 1 else 0 := by
  have hle : Finset.range (room + 1) ⊆ Finset.range (maxProxyDepth + 1) :=
    Finset.range_subset_range.2 (by omega)
  unfold votesAt weigh
  rw [total_take, Nat.sub_sub_self hr, ← Finset.sum_subset hle]
  · refine Finset.sum_congr rfl fun m hm => ?_
    dsimp only
    rw [if_pos (Nat.lt_succ_iff.1 (Finset.mem_range.1 hm)), mul_one, Vector.getElem?_toList]
  · intro m _ hm
    dsimp only
    rw [if_neg (fun h => hm (Finset.mem_range.2 (Nat.lt_succ_of_le h))), mul_zero]

end ProxyDelta

namespace ProxyEffects

/-- The change that is to be made to a number. -/
def change (e : ProxyEffects) : Count → Amount
  | .through account slot => (e.proxied.getD account (.replicate maxProxyDepth 0)).get slot
  | .votes witness => e.witnessVotes.getD witness 0

theorem change_through {account : AccountName} {slot : Fin maxProxyDepth} :
    e.change (.through account slot) =
      getElem (e.proxied.getD account (.replicate maxProxyDepth 0)) slot.val slot.isLt :=
  rfl

theorem change_empty : ({} : ProxyEffects).change c = 0 := by
  cases c with
  | through => simp [change_through, getD_eq]
  | votes => rfl

theorem change_addProxied_through {account : AccountName} {slot : Fin maxProxyDepth}
    {v : Vector Amount maxProxyDepth} : (e.addProxied q v).change (.through account slot) =
      e.change (.through account slot) + if q = account then getElem v slot.val slot.isLt else 0 := by
  rw [change_through, change_through]
  unfold addProxied
  by_cases h : q = account
  · subst h
    simp [getD_insert_self]
  · simp [getD_insert_of_ne h, h]

theorem change_addVotes : (e.addVotes amount n).change (.votes witness) =
    e.change (.votes witness) + if n = witness then amount else 0 := by
  unfold change addVotes
  by_cases h : n = witness
  · subst h
    simp [getD_insert_self]
  · simp [getD_insert_of_ne h, h]

theorem change_foldl_addVotes {ws : List AccountName} (h : ws.Nodup) :
    (ws.foldl (·.addVotes amount) e).change (.votes witness) =
      e.change (.votes witness) + if witness ∈ ws then amount else 0 := by
  induction ws generalizing e with
  | nil => simp
  | cons w ws ih =>
    obtain ⟨hw, hws⟩ := List.nodup_cons.1 h
    rw [List.foldl_cons, ih hws, change_addVotes]
    by_cases he : w = witness
    · subst he
      simp [hw]
    · simp [he, Ne.symm he]

theorem proxied_foldl_addVotes {ws : List AccountName} :
    (ws.foldl (·.addVotes amount) e).proxied = e.proxied := by
  induction ws generalizing e with
  | nil => rfl
  | cons w ws ih => exact ih

end ProxyEffects

namespace State

variable {s : State}

/-- Whether a number hears an account that votes for itself. -/
def heard (s : State) : Count → AccountName → Amount
  | .through .., _ => 0
  | .votes witness, n => if s.approves n witness then 1 else 0

theorem mem_witnessesVotedBy : witness ∈ s.witnessesVotedBy n ↔ s.approves n witness = true :=
  mem_keys_iff

/-- What a place on the chain receives of a change, and what its votes are worth if the chain ends
there. -/
theorem change_place (hs : s.Chained) {room : Nat} (hr : room < maxProxyDepth) (c : Count) :
    (e.addProxied q (d.slots (maxProxyDepth - (room + 1)))).change c +
        (if s.proxyOf q = none then (d.weigh fun m => if m ≤ room then 1 else 0) * s.heard c q else 0) =
      e.change c +
        d.weigh fun m => if m ≤ room then s.mark c (m + 1 + (maxProxyDepth - (room + 1))) q else 0 := by
  cases c with
  | through account slot =>
    have hslot := slot.isLt
    have hd : (d.slots (maxProxyDepth - (room + 1)))[slot.val] =
        if maxProxyDepth - (room + 1) ≤ slot.val then
          d[slot.val - (maxProxyDepth - (room + 1))]?.getD 0 else 0 := by
      simp [ProxyDelta.slots]
    simp only [ProxyEffects.change_addProxied_through, hd, heard, mul_zero, ite_self, add_zero, mark]
    congr 1
    by_cases hq : q = account
    · rw [if_pos hq]
      split
      · rw [← ProxyDelta.weigh_single (by omega)]
        refine ProxyDelta.weigh_congr fun m _ => ?_
        by_cases hm : m = slot.val - (maxProxyDepth - (room + 1))
        · rw [if_pos hm, if_pos (by omega), if_pos ⟨by omega, hq⟩]
        · rw [if_neg hm, eq_comm, ite_eq_right_iff]
          exact fun _ => if_neg (by omega)
      · refine ((ProxyDelta.weigh_congr (g := fun _ => 0) fun m _ => ?_).trans
          ProxyDelta.weigh_zero).symm
        rw [ite_eq_right_iff]
        exact fun _ => if_neg (by omega)
    · simp [hq, ProxyDelta.weigh_zero]
  | votes witness =>
    change e.change (.votes witness) + _ = _
    simp only [heard, mark]
    congr 1
    cases hw : s.approves q witness with
    | true => simp [(hs.voters q witness hw).1]
    | false => simp [ProxyDelta.weigh_zero]

/-- At the end of a chain the votes of its last member change. -/
theorem carryUp_end {room : Nat} (hr : room ≤ maxProxyDepth)
    (h : s.carryUp d room n none e = .ok e') (c : Count) :
    e'.change c = e.change c + (d.weigh fun m => if m ≤ room then 1 else 0) * s.heard c n := by
  have h : (if d.votesAt (maxProxyDepth - room) = 0 then .ok e else
      .ok ((s.witnessesVotedBy n).foldl (·.addVotes (d.votesAt (maxProxyDepth - room))) e)) =
        Except.ok (ε := LedgerError) e' := by
    cases room <;> exact h
  rw [ProxyDelta.votesAt_eq hr] at h
  split at h
  · cases h
    simp [*]
  · cases h
    cases c with
    | through =>
      unfold ProxyEffects.change
      simp [ProxyEffects.proxied_foldl_addVotes, heard]
    | votes witness =>
      have hn : (s.witnessesVotedBy n).Nodup := nodup_keys _
      rw [ProxyEffects.change_foldl_addVotes hn]
      simp [mem_witnessesVotedBy, heard]

/-- The sum of what a change does along a chain. -/
theorem carryUp_change (hs : s.Chained) {room : Nat} (hr : room ≤ maxProxyDepth)
    {p : Option AccountName} (h : s.carryUp d room n p e = .ok e') (c : Count) :
    e'.change c = e.change c +
      (if p = none then (d.weigh fun m => if m ≤ room then 1 else 0) * s.heard c n else 0) +
      d.weigh fun m =>
        gather s.proxyOf (s.mark c) (room - m) (m + 1 + (maxProxyDepth - room)) p := by
  induction room generalizing n p e with
  | zero =>
    cases p with
    | none => simpa [ProxyDelta.weigh_zero] using carryUp_end hr h c
    | some q =>
      cases h
      simp [ProxyDelta.weigh_zero]
  | succ room ih =>
    cases p with
    | none => simpa [ProxyDelta.weigh_zero] using carryUp_end hr h c
    | some q =>
      obtain ⟨next, hnext, h⟩ := bind_eq_ok.1 h
      rw [← proxyOf_of_get? (account_eq_ok.1 hnext)] at h
      have hrest := ih (Nat.le_of_succ_le hr) h
      have hplace := change_place (d := d) (e := e) (q := q) hs hr c
      have hchain : ∀ m, m ≤ maxProxyDepth →
          gather s.proxyOf (s.mark c) (room + 1 - m) (m + 1 + (maxProxyDepth - (room + 1))) (some q) =
            (if m ≤ room then s.mark c (m + 1 + (maxProxyDepth - (room + 1))) q else 0) +
              gather s.proxyOf (s.mark c) (room - m) (m + 1 + (maxProxyDepth - room))
                (s.proxyOf q) := by
        intro m _
        by_cases hm : m ≤ room
        · rw [if_pos hm, Nat.succ_sub hm, gather_some]
          congr 2
          omega
        · have h₁ : room + 1 - m = 0 := by omega
          have h₂ : room - m = 0 := by omega
          rw [if_neg hm, h₁, h₂, gather_zero, gather_zero, add_zero]
      rw [ProxyDelta.weigh_congr hchain, ProxyDelta.weigh_add, if_neg (Option.some_ne_none q)]
      linarith

/-- The sum of what a change does along the whole chain of an account. -/
theorem carry_change (hs : s.Chained) {p : Option AccountName} (h : s.carry n p d e = .ok e')
    (c : Count) : e'.change c = e.change c + d.weigh fun m =>
      (if p = none then s.heard c n else 0) +
        gather s.proxyOf (s.mark c) (maxProxyDepth - m) (m + 1) p := by
  rw [carryUp_change hs (le_refl _) h c, Nat.sub_self, add_assoc, ProxyDelta.weigh_add]
  congr 2
  split
  · rw [ProxyDelta.weigh_mul]
    refine ProxyDelta.weigh_congr fun m hm => ?_
    rw [if_pos hm, one_mul]
  · exact ProxyDelta.weigh_zero.symm

theorem heard_eq_mark (hs : s.Chained) (c : Count) (n : AccountName) :
    (if s.proxyOf n = none then s.heard c n else 0) = s.mark c 0 n := by
  cases c with
  | through => simp [heard, mark]
  | votes witness =>
    simp only [heard, mark]
    cases hw : s.approves n witness with
    | true => simp [(hs.voters n witness hw).1]
    | false => simp

/-- A change is carried to the end of every chain of accounts that exist. -/
theorem carryUp_total (hs : s.Chained) (room : Nat) (n : AccountName) {p : Option AccountName}
    (hp : ∀ q, p = some q → s.accounts.contains q = true) (e : ProxyEffects) :
    ∃ e', s.carryUp d room n p e = .ok e' := by
  induction room generalizing n p e with
  | zero =>
    cases p with
    | none =>
      unfold carryUp
      dsimp only
      split <;> exact ⟨_, rfl⟩
    | some q => exact ⟨e, rfl⟩
  | succ room ih =>
    cases p with
    | none =>
      unfold carryUp
      dsimp only
      split <;> exact ⟨_, rfl⟩
    | some q =>
      obtain ⟨next, hnext⟩ := contains_iff.1 (hp q rfl)
      obtain ⟨e', he'⟩ := ih q (fun r hr => hs.proxies q r ((proxyOf_of_get? hnext).trans hr))
        (e.addProxied q (d.slots (maxProxyDepth - (room + 1))))
      exact ⟨e', bind_eq_ok.2 ⟨next, account_eq_ok.2 hnext, he'⟩⟩

theorem stakeEffects_total (hs : s.Chained) (hn : s.accounts.contains n = true) (amount : Amount) :
    ∃ e, s.stakeEffects n amount = .ok e := by
  obtain ⟨a, ha⟩ := contains_iff.1 hn
  obtain ⟨e, he⟩ := carryUp_total (d := ProxyDelta.own amount) hs maxProxyDepth n
    (fun q hq => hs.proxies n q ((proxyOf_of_get? ha).trans hq)) {}
  exact ⟨e, bind_eq_ok.2 ⟨a, account_eq_ok.2 ha, he⟩⟩

/-- What a change of an account's own stake does: each number it belongs into changes by as much. -/
theorem stakeEffects_change (hs : s.Chained) (h : s.stakeEffects n amount = .ok e) (c : Count) :
    e.change c = if s.counts c n then amount else 0 := by
  obtain ⟨a, ha, h⟩ := bind_eq_ok.1 h
  rw [← proxyOf_of_get? (account_eq_ok.1 ha)] at h
  have hchain := gather_mark hs c n
  rw [gather_some, ← heard_eq_mark hs] at hchain
  rw [carry_change hs h c, ProxyEffects.change_empty, ProxyDelta.weigh_own, zero_add]
  have := congrArg (amount * ·) hchain
  simpa only [Nat.sub_zero, Nat.zero_add, mul_ite, mul_one, mul_zero] using this

/-- Gathered changes are made to each number, up to the greatest that can be kept. -/
theorem noted_applyProxyEffects (h : ∀ x, s.noted c = some x → 0 ≤ x ∧ x ≤ Amount.max) :
    (s.applyProxyEffects e).noted c = (s.noted c).map fun x => Amount.clamp (x + e.change c) := by
  rw [applyProxyEffects_eq]
  cases c with
  | through account slot =>
    simp only [noted, ProxyEffects.change_through, getD_eq] at h ⊢
    rw [get?_foldl_modify (f := fun v (a : Account) => a.addProxied v), Option.map_map, Option.map_map]
    refine Option.map_congr fun a ha => ?_
    obtain ⟨h₀, hm⟩ := h _ (congrArg _ ha)
    obtain he | ⟨v, he⟩ := Option.eq_none_or_eq_some (e.proxied.get? account)
    · simpa [he] using (Amount.clamp_of_le h₀ hm).symm
    · simp [he, Account.addProxied]
  | votes witness =>
    simp only [noted, ProxyEffects.change, getD_eq] at h ⊢
    rw [get?_foldl_modify (f := fun v (w : Witness) => w.addVotes v), Option.map_map, Option.map_map]
    refine Option.map_congr fun w hw => ?_
    obtain ⟨h₀, hm⟩ := h _ (congrArg _ hw)
    obtain he | ⟨v, he⟩ := Option.eq_none_or_eq_some (e.witnessVotes.get? witness)
    · simpa [he] using (Amount.clamp_of_le h₀ hm).symm
    · simp [he, Witness.addVotes]

end State

end ResearchLedger
