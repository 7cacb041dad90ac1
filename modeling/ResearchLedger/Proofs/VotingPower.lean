import ResearchLedger.Proofs.Expertise
import ResearchLedger.Proofs.LateVotes
import ResearchLedger.Proofs.StoredVotes
import ResearchLedger.Proofs.VotePlans

/-! Voting power: votes alone spend it, each at most what has come back since the last one, and nothing
else changes it but time. -/
namespace ResearchLedger

open SortedMap

variable {s s' : State} {l l' : Ledger} {c : Config} {n k : AccountName} {d e : DisciplineId}
  {now t t' : Seconds} {used : Nat}

/-- What an expert token keeps of its power: how much its last vote left, and when that was. -/
structure Charge where
  power : Nat
  since : Seconds

/-- The power that a vote costs for good. -/
def Config.voteCost (c : Config) (used : Nat) : Nat := used / c.votePowerCostDivisor.toNat

theorem Config.regeneration_pos {u : Unit} (h : c.validate = .ok u) : 0 < c.voteRegeneration := by
  unfold validate at h
  exact Nat.pos_of_ne_zero (guard_bind_eq_ok.1 h).1

namespace Charge

variable {x : Charge}

/-- The power at a time, with what has come back until then. -/
def powerAt (x : Charge) (c : Config) (now : Seconds) : Nat :=
  regeneratedPower x.power x.since now c.voteRegeneration

/-- How much of the next unit of power has come back already, in parts of the time that a whole takes;
nothing comes back to a full token. -/
def started (x : Charge) (c : Config) (now : Seconds) : Nat :=
  if x.powerAt c now = wholePercent then 0
  else wholePercent * (now - x.since) % c.voteRegeneration

theorem powerAt_eq (hc : 0 < c.voteRegeneration) :
    x.powerAt c t = min (x.power + wholePercent * (t - x.since) / c.voteRegeneration) wholePercent := by
  unfold powerAt regeneratedPower
  dsimp only
  rw [if_neg hc.ne']

theorem powerAt_le : x.powerAt c t ≤ wholePercent := Nat.min_le_right ..

/-- Time never takes power away. -/
theorem powerAt_mono (hc : 0 < c.voteRegeneration) (h : t ≤ t') : x.powerAt c t ≤ x.powerAt c t' := by
  rw [powerAt_eq hc, powerAt_eq hc]
  have hback : wholePercent * (t - x.since) / c.voteRegeneration ≤
      wholePercent * (t' - x.since) / c.voteRegeneration :=
    Nat.div_le_div_right (Nat.mul_le_mul_left _ (Nat.sub_le_sub_right h _))
  exact min_le_min_right _ (Nat.add_le_add_left hback _)

theorem powerAt_le_add (hc : 0 < c.voteRegeneration) :
    x.powerAt c t ≤ x.power + wholePercent * (t - x.since) / c.voteRegeneration := by
  rw [powerAt_eq hc]
  exact min_le_left ..

/-- What is left of the power is there at all times. -/
theorem powerAt_pos (hc : 0 < c.voteRegeneration) (h : 0 < x.power) : 0 < x.powerAt c t := by
  rw [powerAt_eq hc]
  exact Nat.lt_min.2 ⟨Nat.lt_of_lt_of_le h (Nat.le_add_right ..), Nat.succ_pos _⟩

theorem started_lt (hc : 0 < c.voteRegeneration) : x.started c t < c.voteRegeneration := by
  unfold started
  split
  · exact hc
  · exact Nat.mod_lt _ hc

/-- The part that was started makes up one unit at most. -/
theorem started_add_div_le {given : Nat} (hc : 0 < c.voteRegeneration) :
    (x.started c t + given) / c.voteRegeneration ≤ given / c.voteRegeneration + 1 := by
  rw [← Nat.add_div_right _ hc, Nat.add_comm]
  exact Nat.div_le_div_right (Nat.add_le_add_left (started_lt hc).le _)

/-- From one time to another there comes back what the time gives, with the unit that was started. -/
theorem powerAt_le_started (hc : 0 < c.voteRegeneration) : x.powerAt c t' ≤ x.powerAt c t +
    (x.started c t + wholePercent * (t' - t)) / c.voteRegeneration := by
  by_cases hfull : x.powerAt c t = wholePercent
  · rw [hfull]
    exact powerAt_le.trans (Nat.le_add_right ..)
  · have hnow : x.powerAt c t = x.power + wholePercent * (t - x.since) / c.voteRegeneration := by
      rw [powerAt_eq hc] at hfull ⊢
      omega
    have helapsed : wholePercent * (t' - x.since) ≤
        wholePercent * (t - x.since) + wholePercent * (t' - t) := by
      rw [← Nat.mul_add]
      exact Nat.mul_le_mul_left _ (by omega)
    have hsplit := Nat.div_add_mod (wholePercent * (t - x.since)) c.voteRegeneration
    have hback : wholePercent * (t' - x.since) / c.voteRegeneration ≤
        (wholePercent * (t - x.since) % c.voteRegeneration + wholePercent * (t' - t)) /
          c.voteRegeneration + wholePercent * (t - x.since) / c.voteRegeneration := by
      rw [← Nat.add_mul_div_left _ _ hc]
      exact Nat.div_le_div_right (by omega)
    rw [started, if_neg hfull]
    have hlater := powerAt_le_add (x := x) (t := t') hc
    omega

end Charge

namespace ExpertToken

/-- The charge of a token. -/
def charge (t : ExpertToken) : Charge := ⟨t.votingPower, t.lastVoteTime⟩

/-- A vote uses at most the power of the token, and leaves all of it but its cost. -/
theorem use_cost {token : ExpertToken} {percent : Int} {u : PowerUse} (hc : c.validate = .ok ())
    (h : token.use c percent now = .ok u) : 0 < token.powerAt c now ∧
      u.used ≤ token.powerAt c now ∧ u.remaining = token.powerAt c now - c.voteCost u.used := by
  unfold ExpertToken.use at h
  obtain ⟨hpower, h⟩ := guard_bind_eq_ok.1 h
  obtain ⟨hpercent, h⟩ := guard_bind_eq_ok.1 h
  obtain ⟨-, h⟩ := guard_bind_eq_ok.1 h
  obtain ⟨-, h⟩ := guard_bind_eq_ok.1 h
  cases h
  have hle : percent.natAbs ≤ wholePercent := Nat.not_lt.1 fun h => hpercent (.inr h)
  refine ⟨Nat.pos_of_ne_zero hpower, Nat.div_le_of_le_mul ?_, ?_⟩
  · rw [Nat.mul_comm wholePercent]
    exact Nat.mul_le_mul_left _ hle
  · obtain ⟨divisor, hdivisor⟩ := Int.eq_ofNat_of_zero_le (Config.divisor_pos hc).le
    unfold Config.voteCost
    rw [hdivisor, Int.toNat_natCast, Int.ofNat_tdiv]
    exact Int.toNat_sub ..

end ExpertToken

/-- Votes draw on a charge one after the other, each on what the last one left. Before the first of them
the token may be made, with all of its power. -/
inductive Charge.Draws (c : Config) (o : Option Charge) : List (Seconds × Nat) → Option Charge → Prop
  | refl : Draws c o [] o
  | fresh {uses : List (Seconds × Nat)} (h : Draws c o uses none) (now : Seconds) :
      Draws c o uses (some ⟨wholePercent, now⟩)
  | vote {uses : List (Seconds × Nat)} {x : Charge} {now : Seconds} {used : Nat}
      (h : Draws c o uses (some x)) (hp : 0 < x.powerAt c now) (hu : used ≤ x.powerAt c now) :
      Draws c o (uses ++ [(now, used)]) (some ⟨x.powerAt c now - c.voteCost used, now⟩)

namespace Charge.Draws

variable {o o' o'' : Option Charge} {uses uses' : List (Seconds × Nat)} {x y : Charge}

theorem trans (h : Draws c o uses o') (h' : Draws c o' uses' o'') :
    Draws c o (uses ++ uses') o'' := by
  induction h' with
  | refl => rwa [List.append_nil]
  | fresh _ now ih => exact ih.fresh now
  | vote _ hp hu ih =>
    rw [← List.append_assoc]
    exact ih.vote hp hu

theorem exists_of_some (h : Draws c (some x) uses o) : ∃ y, o = some y := by
  cases h with
  | refl => exact ⟨x, rfl⟩
  | fresh => exact ⟨_, rfl⟩
  | vote => exact ⟨_, rfl⟩

/-- Without a vote the charge of a token stays as it is. -/
theorem eq_of_nil (h : Draws c (some x) uses o) (hu : uses = []) : o = some x := by
  induction h with
  | refl => rfl
  | fresh _ _ ih => cases ih hu
  | vote => simp at hu

/-- No charge ever holds more than the whole. -/
theorem power_le (h : Draws c o uses o') (ho : ∀ x ∈ o, x.power ≤ wholePercent) :
    ∀ y ∈ o', y.power ≤ wholePercent := by
  cases h with
  | refl => exact ho
  | fresh => rintro y ⟨⟩; exact le_rfl
  | vote => rintro y ⟨⟩; exact (Nat.sub_le ..).trans Charge.powerAt_le

/-- Where votes cost at most the half of what they use, none takes the last of the power. -/
theorem power_pos (h : Draws c o uses (some y)) (hd : 2 ≤ c.votePowerCostDivisor) (hu : uses ≠ []) :
    0 < y.power := by
  cases h with
  | refl => exact absurd rfl hu
  | fresh => exact Nat.succ_pos _
  | @vote uses x now used _ hp hle =>
    have hcost : c.voteCost used ≤ used / 2 :=
      Nat.div_le_div_left (by omega) (by decide)
    have : c.voteCost used < x.powerAt c now := by omega
    exact Nat.sub_pos_of_lt this

/-- The budget of a token: if all that it could have until a time is bounded, and the bound grows at least
as fast as power comes back, then power and costs together stay below it. -/
theorem budget {bound : Seconds → Nat} {t₀ : Seconds} (h : Draws c (some x) uses o)
    (hc : 0 < c.voteRegeneration) (hstart : ∀ t, t₀ ≤ t → x.powerAt c t ≤ bound t)
    (hgrow : ∀ t t', t₀ ≤ t → t ≤ t' →
      bound t + wholePercent * (t' - t) / c.voteRegeneration ≤ bound t')
    (hsorted : uses.Pairwise fun u v => u.1 ≤ v.1) (hfrom : ∀ u ∈ uses, t₀ ≤ u.1) :
    ∃ y, o = some y ∧ ∀ t, t₀ ≤ t → (∀ u ∈ uses, u.1 ≤ t) →
      y.powerAt c t + (uses.map fun u => c.voteCost u.2).sum ≤ bound t := by
  induction h with
  | refl => exact ⟨x, rfl, fun t ht _ => by simpa using hstart t ht⟩
  | fresh _ _ ih =>
    obtain ⟨_, hy, -⟩ := ih hsorted hfrom
    cases hy
  | @vote uses y now used h _ hused ih =>
    obtain ⟨hsorted, -, hlast⟩ := List.pairwise_append.1 hsorted
    obtain ⟨hold, hnow⟩ := List.forall_mem_append.1 hfrom
    obtain ⟨_, hy, hbound⟩ := ih hsorted hold
    cases hy
    have hnow : t₀ ≤ now := hnow _ List.mem_cons_self
    refine ⟨_, rfl, fun t ht hlater => ?_⟩
    have hle : now ≤ t := hlater (now, used) (List.mem_append_right _ List.mem_cons_self)
    -- The vote takes its cost out of what is there, and power comes back from then on.
    have hvote := hbound now hnow fun u hu => hlast u hu _ List.mem_cons_self
    have hback := Charge.powerAt_le_add (x := ⟨y.powerAt c now - c.voteCost used, now⟩) (t := t) hc
    have hcost : c.voteCost used ≤ y.powerAt c now := (Nat.div_le_self ..).trans hused
    have hrise := hgrow now t hnow hle
    rw [List.map_append, List.sum_append, List.map_singleton, List.sum_singleton]
    dsimp only at hback ⊢
    omega

end Charge.Draws

namespace State

/-- The charge of the token of an account in a discipline. -/
def charge? (s : State) (n : AccountName) (d : DisciplineId) : Option Charge :=
  (s.expertToken? n d).map (·.charge)

theorem map_powerAt :
    (s.expertToken? n d).map (·.powerAt c t) = (s.charge? n d).map (·.powerAt c t) := by
  rw [charge?, Option.map_map]
  rfl

theorem charge?_congr (h : s'.expertTokens = s.expertTokens) : s'.charge? n d = s.charge? n d := by
  unfold charge? expertToken?
  rw [h]

theorem charge?_modifyExpertToken {f : ExpertToken → ExpertToken} (hf : ∀ t, (f t).charge = t.charge) :
    (s.modifyExpertToken k e f).charge? n d = s.charge? n d := by
  unfold charge?
  rw [expertToken?_modifyExpertToken]
  split
  · rw [Option.map_map]
    exact congrArg (Option.map · _) (funext hf)
  · rfl

theorem charge?_debitExpertise {x : Amount} : (s.debitExpertise k e x).charge? n d = s.charge? n d :=
  charge?_modifyExpertToken fun _ => rfl

theorem charge?_spendPower {remaining : Nat} : (s.spendPower k e remaining now).charge? n d =
    if k = n ∧ e = d then (s.charge? n d).map fun _ => ⟨remaining, now⟩ else s.charge? n d := by
  unfold charge? spendPower
  rw [expertToken?_modifyExpertToken]
  split
  · rw [Option.map_map, Option.map_map]
    rfl
  · rfl

/-- Expertise that is given leaves the power of a token alone, and a new token has all of it. -/
theorem charge?_creditExpertise {x : Amount} : (s.creditExpertise k e x now).charge? n d =
    if k = n ∧ e = d then some ((s.charge? n d).getD ⟨wholePercent, now⟩) else s.charge? n d := by
  unfold charge?
  rw [expertToken?_creditExpertise]
  split
  · cases s.expertToken? n d <;> rfl
  · rfl

theorem draws_creditExpertise {x : Amount} :
    Charge.Draws c (s.charge? n d) [] ((s.creditExpertise k e x now).charge? n d) := by
  rw [charge?_creditExpertise]
  split
  · cases s.charge? n d with
    | none => exact .fresh .refl now
    | some x => exact .refl
  · exact .refl

theorem draws_foldl_creditExpertise {α : Type} {name : α → AccountName} {discipline : α → DisciplineId}
    {amount : α → Amount} {xs : List α} : Charge.Draws c (s.charge? n d) [] ((xs.foldl (fun s x =>
      s.creditExpertise (name x) (discipline x) (amount x) now) s).charge? n d) := by
  induction xs generalizing s with
  | nil => exact .refl
  | cons x xs ih => exact draws_creditExpertise.trans ih

theorem charge?_applyProxyEffects {effects : ProxyEffects} :
    (s.applyProxyEffects effects).charge? n d = s.charge? n d :=
  charge?_congr (by rw [applyProxyEffects_eq])

end State

/-- The vote that a token casts: when, and how much of the power it uses. -/
def Vote.useOf (n : AccountName) (d : DisciplineId) (v : Vote) : Option (Seconds × Nat) :=
  if v.voter = n ∧ v.discipline = d then some (v.time, v.usedPower) else none

@[inherit_doc Vote.useOf]
def ReviewVote.useOf (n : AccountName) (d : DisciplineId) (v : ReviewVote) : Option (Seconds × Nat) :=
  if v.voter = n ∧ v.discipline = d then some (v.time, v.usedPower) else none

namespace Operation

/-- The votes on reviews that an operation casts. -/
def castReviewVotes (l : Ledger) : Operation → List ReviewVote
  | voteForReview op => match op.plan l.head.time l.state with
    | .ok p => [p.vote]
    | .error _ => []
  | _ => []

/-- The votes that a token casts by an operation: when, and how much of its power each uses. -/
def uses (n : AccountName) (d : DisciplineId) (l : Ledger) (op : Operation) : List (Seconds × Nat) :=
  (op.castVotes l).filterMap (Vote.useOf n d) ++
    (op.castReviewVotes l).filterMap (ReviewVote.useOf n d)

end Operation

namespace State.Backs

variable {percent : Int} {u : PowerUse}

/-- A vote with a token behind it draws on the charge of that token. -/
theorem draws (h : s.Backs now k e percent u) (hc : s.config.validate = .ok ()) :
    Charge.Draws s.config (s.charge? n d) (if k = n ∧ e = d then [(now, u.used)] else [])
      ((s.spendPower k e u.remaining now).charge? n d) := by
  rw [charge?_spendPower]
  split
  · obtain ⟨rfl, rfl⟩ := ‹_›
    obtain ⟨token, htoken, huse⟩ := h
    obtain ⟨hpos, hused, hremaining⟩ := token.use_cost hc huse
    have hcharge : s.charge? k e = some token.charge := by rw [charge?, htoken, Option.map_some]
    rw [hcharge, Option.map_some, hremaining]
    exact .vote .refl hpos hused
  · exact .refl

end State.Backs

namespace ContentVotePlan

variable {p q : ContentVotePlan} {ps : List ContentVotePlan}

theorem Planned.draws (h : p.Planned l.state l.head.time) (hc : l.state.config.validate = .ok ()) :
    Charge.Draws l.state.config (l.state.charge? n d) ([p.vote].filterMap (Vote.useOf n d))
      ((p.commit l).state.charge? n d) := by
  have hdraws := h.backed.draws (n := n) (d := d) hc
  have huse : [p.vote].filterMap (Vote.useOf n d) =
      if p.vote.voter = n ∧ p.vote.discipline = d then [(l.head.time, p.vote.usedPower)] else [] := by
    rw [List.filterMap_cons, Vote.useOf, h.time]
    split <;> simp_all
  rw [huse]
  exact hdraws

/-- A vote leaves the tokens of other disciplines, and so the plans that rest on them. -/
theorem Planned.commit (h : q.Planned l.state now) (hne : p.vote.discipline ≠ q.vote.discipline) :
    q.Planned (p.commit l).state now where
  time := h.time
  backed := h.backed.congr
    (State.expertToken?_modifyExpertToken.trans (if_neg fun hk => hne hk.2)) rfl
  earns := h.earns.congr rfl rfl

/-- Votes that are planned on the same stores, in different disciplines, are cast in a row. -/
theorem draws_foldl (hp : ∀ p ∈ ps, p.Planned l.state l.head.time)
    (hn : (ps.map (·.vote.discipline)).Nodup) (hc : l.state.config.validate = .ok ()) :
    Charge.Draws l.state.config (l.state.charge? n d) ((ps.map (·.vote)).filterMap (Vote.useOf n d))
      ((ps.foldl (fun l p => p.commit l) l).state.charge? n d) := by
  induction ps generalizing l with
  | nil => exact .refl
  | cons p ps ih =>
    obtain ⟨hfirst, hrest⟩ := List.forall_mem_cons.1 hp
    obtain ⟨hnew, hn⟩ := List.nodup_cons.1 hn
    have hthen := ih (l := p.commit l) (fun q hq => (hrest q hq).commit fun he =>
      hnew (List.mem_map.2 ⟨q, hq, he.symm⟩)) hn hc
    rw [List.map_cons, ← List.singleton_append, List.filterMap_append]
    exact (hfirst.draws hc).trans hthen

end ContentVotePlan

/-- An operation draws on a token with the votes that it casts with it, and not otherwise. -/
theorem Operation.Effect.draws {op : Operation} (h : op.Effect l l')
    (hc : l.state.config.validate = .ok ()) :
    Charge.Draws l.state.config (l.state.charge? n d) (op.uses n d l) (l'.state.charge? n d) := by
  cases op with
  | voteForContent op =>
    cases h with | voteForContent hp =>
    simpa [uses, castVotes, castReviewVotes, hp] using (VoteForContent.plan_planned hp).1.draws hc
  | voteForReview op =>
    cases h with | @voteForReview _ plan hp =>
    obtain ⟨htime, hbacked, -⟩ := VoteForReview.plan_planned hp
    have hdraws := hbacked.draws (n := n) (d := d) hc
    have huse : (Operation.voteForReview op).uses n d l =
        if plan.vote.voter = n ∧ plan.vote.discipline = d
          then [(l.head.time, plan.vote.usedPower)] else [] := by
      simp only [uses, castVotes, castReviewVotes, hp, List.filterMap_cons, ReviewVote.useOf, htime]
      split <;> simp_all
    rw [huse]
    exact hdraws
  | makeReview op =>
    cases h with | @makeReview _ plan hp =>
    obtain ⟨hplanned, hn⟩ := MakeReview.plan_planned hp
    have hdraws := ContentVotePlan.draws_foldl (l := plan.record l) (n := n) (d := d)
      (fun p hmem => ⟨(hplanned p hmem).time, (hplanned p hmem).backed.congr rfl rfl,
        (hplanned p hmem).earns.congr rfl rfl⟩) hn hc
    have huse : (Operation.makeReview op).uses n d l =
        (plan.votes.map (·.vote)).filterMap (Vote.useOf n d) := by
      simp only [uses, castVotes, castReviewVotes, hp, List.filterMap_nil, List.append_nil]
    rw [huse]
    exact hdraws
  | accountCreate op =>
    cases h
    unfold AccountCreate.commit
    dsimp only
    split
    · exact State.draws_creditExpertise (s := { (l.state.debit op.creator op.fee.amount) with
        accounts := _, authorities := _ })
    · exact .refl
  | transferToCommonTokens op =>
    cases h with | transferToCommonTokens hp =>
    unfold TransferToCommonTokens.commit
    rw [State.charge?_applyProxyEffects]
    exact State.draws_creditExpertise (s := { l.state with accounts := _ })
  | addExpertise op =>
    cases h
    exact State.draws_foldl_creditExpertise
  | _ => cases h.footprint; exact .refl

/-- What happens between the operations draws on no token. -/
theorem Drift.draws (h : Drift l l') :
    Charge.Draws c (l.state.charge? n d) [] (l'.state.charge? n d) := by
  cases h with
  | @reward _ plan =>
    exact State.applyReward_preserves
      (P := fun s => Charge.Draws c (l.state.charge? n d) [] (s.charge? n d))
      (fun _ _ _ h => h) (fun _ _ _ h => h) (fun _ _ _ _ _ h => h.trans State.draws_creditExpertise)
      .refl
  | @payment name _ _ h =>
    obtain ⟨a, l₁, routed, effects, -, -, hr, -, rfl⟩ := LedgerM.payPowerDown_ok h
    have hroutes : Charge.Draws c (l.state.charge? n d) [] (l₁.state.charge? n d) := by
      refine hr.preserves (P := fun l' => Charge.Draws c (l.state.charge? n d) [] (l'.state.charge? n d))
        (fun r deposit l₁ l₂ hpaid hs => ?_) .refl
      cases hpaid with
      | skip => exact hs
      | stake =>
        rw [State.charge?_applyProxyEffects]
        exact hs.trans (State.draws_creditExpertise (s := l₁.state.modifyAccount r.target _))
      | balance => exact hs
    have hsettle : (LedgerM.settle l₁.state name effects a.nextPayment (a.nextPayment - routed)).charge?
        n d = l₁.state.charge? n d :=
      (State.charge?_debitExpertise (s := l₁.state.applyProxyEffects effects)).trans
        State.charge?_applyProxyEffects
    rw [hsettle]
    exact hroutes
  | upkeep h =>
    cases h.footprint with
    | deactivation content =>
      obtain ⟨_, _, _, _, he⟩ := l.deactivate_footprint content
      rw [he]
      exact .refl
    | rest => exact .refl

end ResearchLedger
