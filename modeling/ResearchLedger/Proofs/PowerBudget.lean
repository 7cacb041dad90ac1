import ResearchLedger.Proofs.Requests
import ResearchLedger.Proofs.Safeguards
import ResearchLedger.Proofs.VotingPower

/-! The budget of voting power: along a run without a step back in time, what a token has left and what
its votes have cost stay below what it had and what the time has given back. -/
namespace ResearchLedger

variable {l l' : Ledger} {config : Config} {genesis : Genesis} {n : AccountName} {d : DisciplineId}
  {op : Operation} {steps : List Step} {history : List (Ledger × Operation)}
  {token : ExpertToken} {t₀ t₁ : Seconds}

namespace Operation

theorem castVotes_time : ∀ v ∈ op.castVotes l, v.time = l.head.time := by
  intro v hv
  cases op with
  | voteForContent op =>
    cases hp : op.plan l.head l.state with
    | error => rw [castVotes, hp] at hv; cases hv
    | ok p =>
      rw [castVotes, hp] at hv
      obtain rfl := List.mem_singleton.1 hv
      exact (VoteForContent.plan_planned hp).1.time
  | makeReview op =>
    cases hp : op.plan l.head l.state with
    | error => rw [castVotes, hp] at hv; cases hv
    | ok plan =>
      rw [castVotes, hp] at hv
      obtain ⟨p, hmem, rfl⟩ := List.mem_map.1 hv
      exact ((MakeReview.plan_planned hp).1 p hmem).time
  | _ => cases hv

theorem castReviewVotes_time : ∀ v ∈ op.castReviewVotes l, v.time = l.head.time := by
  intro v hv
  cases op with
  | voteForReview op =>
    cases hp : op.plan l.head.time l.state with
    | error => rw [castReviewVotes, hp] at hv; cases hv
    | ok plan =>
      rw [castReviewVotes, hp] at hv
      obtain rfl := List.mem_singleton.1 hv
      exact (VoteForReview.plan_planned hp).1
  | _ => cases hv

/-- An operation casts all of its votes when its turn comes. -/
theorem uses_time : ∀ u ∈ op.uses n d l, u.1 = l.head.time := by
  intro u hu
  rcases List.mem_append.1 hu with hu | hu
  · obtain ⟨v, hv, huse⟩ := List.mem_filterMap.1 hu
    unfold Vote.useOf at huse
    split at huse <;> cases huse
    exact castVotes_time v hv
  · obtain ⟨v, hv, huse⟩ := List.mem_filterMap.1 hu
    unfold ReviewVote.useOf at huse
    split at huse <;> cases huse
    exact castReviewVotes_time v hv

end Operation

theorem Passes.draws (h : Passes l history l') (hc : l.state.config.validate = .ok ()) :
    Charge.Draws l.state.config (l.state.charge? n d)
      (history.flatMap fun x => x.2.uses n d x.1) (l'.state.charge? n d) := by
  induction h with
  | refl => exact .refl
  | drift _ hd ih =>
    rw [← List.append_nil (List.flatMap _ _)]
    exact ih.trans hd.draws
  | operation h ho ih =>
    have heffect := (Operation.effect_of_run (LedgerM.apply_ok ho)).draws (n := n) (d := d)
      (by rw [h.config_eq]; exact hc)
    rw [h.config_eq] at heffect
    rw [List.flatMap_append, List.flatMap_singleton]
    exact ih.trans heffect

namespace Ledger

/-- The votes that a token casts in a run: when, and how much of its power each uses. -/
def uses (l : Ledger) (n : AccountName) (d : DisciplineId) (steps : List Step) : List (Seconds × Nat) :=
  (l.carriedOut steps).flatMap fun x => x.2.uses n d x.1

/-- As long as the clock is not turned back, votes are cast in the order of their times. -/
theorem Forward.uses_sorted (h : l.Forward steps) :
    ((l.uses n d steps).Pairwise fun u v => u.1 ≤ v.1) ∧
      ∀ u ∈ l.uses n d steps, l.head.time ≤ u.1 := by
  obtain ⟨hsorted, hfrom⟩ := h.carriedOut_sorted
  have htime (x : Ledger × Operation) : ∀ u ∈ x.2.uses n d x.1, u.1 = x.1.head.time :=
    Operation.uses_time
  constructor
  · refine List.pairwise_flatMap.2 ⟨fun x _ => ?_, hsorted.imp fun hle u hu v hv => ?_⟩
    · exact List.pairwise_of_forall_mem_list fun u hu v hv => by rw [htime x u hu, htime x v hv]
    · rw [htime _ u hu, htime _ v hv]
      exact hle
  · intro u hu
    obtain ⟨x, hx, hu⟩ := List.mem_flatMap.1 hu
    exact htime x u hu ▸ hfrom x hx

end Ledger

/-- No token holds more than the whole of its power. -/
def State.Charged (s : State) : Prop :=
  ∀ n d, ∀ x ∈ s.charge? n d, x.power ≤ wholePercent

theorem Change.charged (h : Change l l') (hc : l.state.config.validate = .ok ())
    (hl : l.state.Charged) : l'.state.Charged := by
  intro n d
  cases h with
  | operation h => exact (h.draws hc).power_le (hl n d)
  | reward h => exact (Drift.draws (c := l.state.config) (.reward h)).power_le (hl n d)
  | payment h => exact (Drift.draws (c := l.state.config) (.payment h)).power_le (hl n d)
  | upkeep h => exact (Drift.draws (c := l.state.config) (.upkeep h)).power_le (hl n d)

theorem State.Charged.ofGenesis {s : State} (h : ofGenesis config genesis = .ok s) : s.Charged := by
  refine ofGenesis_invariant h (fun _ n d x hx => ?_) fun s s' hc hs n d => ?_
  · cases hx
  cases hc with
  | discipline => exact hs n d
  | account _ _ _ _ _ he =>
    rcases he with ⟨-, rfl⟩ | rfl
    · exact hs n d
    · exact (draws_creditExpertise (c := config)).power_le (hs n d)
  | witness => exact hs n d

namespace Ledger

theorem Reachable.validate_eq (h : l.Reachable config genesis) : config.validate = .ok () :=
  h.config_eq ▸ h.apportioned.config

theorem Reachable.charged (h : l.Reachable config genesis) : l.state.Charged := by
  refine (h.invariant (P := fun l => l.state.config.validate = .ok () ∧ l.state.Charged)
    (fun l₀ h₀ => ?_) fun l₁ l₂ hc hl => ?_).2
  · exact ⟨(State.Apportioned.ofGenesis (ofGenesis_ok h₀).1).config, .ofGenesis (ofGenesis_ok h₀).1⟩
  · exact ⟨by rw [hc.config_eq]; exact hl.1, hc.charged hl.1 hl.2⟩

/-- A token stays, and the votes that it casts in a run draw on its charge. -/
theorem Reachable.draws (h : l.Reachable config genesis) (hsteps : ∀ step ∈ steps, step.Storable)
    (htoken : l.state.expertToken? n d = some token) :
    ∃ token', (l.after steps).state.expertToken? n d = some token' ∧
      Charge.Draws config (some token.charge) (l.uses n d steps) (some token'.charge) := by
  have hdraws := (passes_after hsteps).draws (n := n) (d := d) h.apportioned.config
  have hcharge : l.state.charge? n d = some token.charge := by
    rw [State.charge?, htoken, Option.map_some]
  rw [hcharge, h.config_eq] at hdraws
  obtain ⟨y, hy⟩ := hdraws.exists_of_some
  obtain ⟨token', htoken', rfl⟩ := Option.map_eq_some_iff.1 hy
  exact ⟨token', htoken', hy ▸ hdraws⟩

/-- What a token has left and what its votes have cost come to at most what it had and what has come
back since, with the unit of power that was started before. -/
theorem Reachable.power_and_costs_le (h : l.Reachable config genesis)
    (hforward : l.Forward steps) {y : Charge}
    (hdraws : Charge.Draws config (some token.charge) (l.uses n d steps) (some y)) (ht : t₀ ≤ t₁)
    (hin : ∀ u ∈ l.uses n d steps, t₀ ≤ u.1 ∧ u.1 ≤ t₁) :
    y.powerAt config t₁ + ((l.uses n d steps).map fun u => config.voteCost u.2).sum ≤
      token.powerAt config t₀ + (token.charge.started config t₀ + wholePercent * (t₁ - t₀)) /
        config.voteRegeneration := by
  have hpos := Config.regeneration_pos h.validate_eq
  have hstart : ∀ t, t₀ ≤ t → token.charge.powerAt config t ≤ token.powerAt config t₀ +
      (token.charge.started config t₀ + wholePercent * (t - t₀)) / config.voteRegeneration :=
    fun t _ => Charge.powerAt_le_started hpos
  generalize token.charge.started config t₀ = started at hstart ⊢
  have hgrow : ∀ t t', t₀ ≤ t → t ≤ t' →
      token.powerAt config t₀ + (started + wholePercent * (t - t₀)) / config.voteRegeneration +
        wholePercent * (t' - t) / config.voteRegeneration ≤
      token.powerAt config t₀ + (started + wholePercent * (t' - t₀)) / config.voteRegeneration := by
    intro t t' ht ht'
    have hfloor : (started + wholePercent * (t - t₀)) / config.voteRegeneration +
        wholePercent * (t' - t) / config.voteRegeneration ≤
        (started + wholePercent * (t - t₀) + wholePercent * (t' - t)) / config.voteRegeneration :=
      Nat.div_add_div_le_add_div
    rw [Nat.add_assoc started, ← Nat.mul_add, Nat.add_comm (t - t₀),
      Nat.sub_add_sub_cancel ht' ht] at hfloor
    omega
  obtain ⟨_, hy, hbound⟩ := hdraws.budget hpos hstart hgrow hforward.uses_sorted.1
    fun u hu => (hin u hu).1
  cases hy
  exact hbound t₁ ht fun u hu => (hin u hu).2

/-- Take a token of a reachable ledger at a time, and a run from there that never turns the clock back.
The power of the token at a later time and the costs of the votes that it casts in between, on contents,
on reviews and with reviews of its own, are together at most its power at the first time and what has
come back since: a whole in each period, counted in full units together with the part of a unit that
had come back already. No token ever has more than a whole. Without votes in between the power is the
same function of time as before, and time never takes from it; expertise that is given or taken leaves it
alone. -/
theorem Reachable.power_budget (h : l.Reachable config genesis)
    (hsteps : ∀ step ∈ steps, step.Storable) (hforward : l.Forward steps)
    (htoken : l.state.expertToken? n d = some token) (ht : t₀ ≤ t₁)
    (hin : ∀ u ∈ l.uses n d steps, t₀ ≤ u.1 ∧ u.1 ≤ t₁) :
    ∃ token', (l.after steps).state.expertToken? n d = some token' ∧
      token'.powerAt config t₁ + ((l.uses n d steps).map fun u => config.voteCost u.2).sum ≤
        token.powerAt config t₀ + (token.charge.started config t₀ + wholePercent * (t₁ - t₀)) /
          config.voteRegeneration ∧
      token.charge.started config t₀ < config.voteRegeneration ∧
      token.votingPower ≤ wholePercent ∧ (∀ t, token.powerAt config t ≤ wholePercent) ∧
      (l.uses n d steps = [] → ∀ t, token'.powerAt config t = token.powerAt config t) ∧
      (∀ t t', t ≤ t' → token.powerAt config t ≤ token.powerAt config t') ∧
      ∀ k e x now t,
        ((l.state.creditExpertise k e x now).expertToken? n d).map (·.powerAt config t) =
          some (token.powerAt config t) ∧
        ((l.state.debitExpertise k e x).expertToken? n d).map (·.powerAt config t) =
          some (token.powerAt config t) := by
  have hpos := Config.regeneration_pos h.validate_eq
  have hcharge : l.state.charge? n d = some token.charge := by
    rw [State.charge?, htoken, Option.map_some]
  obtain ⟨token', htoken', hdraws⟩ := h.draws hsteps htoken
  refine ⟨token', htoken', h.power_and_costs_le hforward hdraws ht hin, Charge.started_lt hpos,
    h.charged n d _ hcharge, fun t => Charge.powerAt_le (x := token.charge), fun hnone t => ?_,
    fun t t' ht => Charge.powerAt_mono (x := token.charge) hpos ht, fun k e x now t => ⟨?_, ?_⟩⟩
  · have hsame : token'.charge = token.charge := Option.some.inj (hdraws.eq_of_nil hnone)
    exact congrArg (Charge.powerAt · config t) hsame
  · have hcredit : Charge.Draws config (l.state.charge? n d) []
        ((l.state.creditExpertise k e x now).charge? n d) := State.draws_creditExpertise
    rw [hcharge] at hcredit
    rw [State.map_powerAt, hcredit.eq_of_nil rfl]
    rfl
  · rw [State.map_powerAt, State.charge?_debitExpertise, hcharge]
    rfl

end Ledger

namespace Sample

/-- Alice opens a research and publishes thirteen contents. -/
def publishMany : List Step :=
  publish.take 2 ++ ["a", "b", "c", "d", "e", "f", "g", "h", "i", "j", "k", "l", "m"].map fun name =>
    .operation (.createContent ⟨alice, 0, .milestone, "Content", "", name, [alice], [], []⟩)

/-- Alice votes with all of her power for contents, one after the other. -/
def voteForAll (contents : List ContentId) : List Step :=
  contents.map fun content => .operation (.voteForContent ⟨alice, 0, 10000, 0, content⟩)

/-- Alice has the expertise for many votes, and thirteen contents to vote for. -/
def prolific (config : Config) : Ledger :=
  (foundedUnder config (founders 10000 300 20)).after publishMany

theorem prolific_reachable {config : Config} (h : Ledger.ofGenesis config (founders 10000 300 20) =
    .ok (foundedUnder config (founders 10000 300 20))) :
    (prolific config).Reachable config (founders 10000 300 20) :=
  ⟨_, _, h, by decide, rfl⟩

/-- Alice's token before her first vote. -/
def rested : ExpertToken := ⟨alice, 0, 10000, 10000, 0⟩

/-- Two whole votes, the second when a hundredth of the power has come back. -/
def voteTwice : List Step := voteForAll [0] ++ [.endBlock 4320] ++ voteForAll [1]

/-- They cost 1910 of her power, and 115 come back in 5000 seconds. -/
theorem prolific_power_budget :
    (prolific {}).uses alice 0 voteTwice = [(0, 10000), (4320, 9100)] ∧
    ∃ token, ((prolific {}).after voteTwice).state.expertToken? alice 0 = some token ∧
      token.powerAt {} 5000 + (((prolific {}).uses alice 0 voteTwice).map
        fun u => Config.voteCost {} u.2).sum ≤ 10115 := by
  obtain ⟨token, htoken, hle, -⟩ := @Ledger.Reachable.power_budget (prolific {}) {}
    (founders 10000 300 20) alice 0 voteTwice rested 0 5000 (prolific_reachable rfl) (by decide)
    (by decide +kernel) (by decide +kernel) (by decide) (by decide +kernel)
  exact ⟨by decide +kernel, token, htoken, hle.trans (by decide)⟩

/-- Alice voted at time 0. In the 44th second after that a unit of her power is completed, and in one
second not even one could come back from nothing. -/
theorem power_budget_carries_over : ¬ ∀ (config : Config) (genesis : Genesis) (l : Ledger)
    (steps : List Step) (n : AccountName) (d : DisciplineId) (token token' : ExpertToken)
    (t₀ t₁ : Seconds), l.Reachable config genesis → (∀ step ∈ steps, step.Storable) →
    l.Forward steps → l.state.expertToken? n d = some token →
    (l.after steps).state.expertToken? n d = some token' → t₀ ≤ t₁ →
    (∀ u ∈ l.uses n d steps, t₀ ≤ u.1 ∧ u.1 ≤ t₁) →
      token'.powerAt config t₁ + ((l.uses n d steps).map fun u => config.voteCost u.2).sum ≤
        token.powerAt config t₀ + wholePercent * (t₁ - t₀) / config.voteRegeneration := by
  intro h
  have hle := h {} (founders 1 300 20) published [] alice 0 ⟨alice, 0, 1, 9000, 0⟩
    ⟨alice, 0, 1, 9000, 0⟩ 43 44 published_reachable (by decide) trivial (by decide +kernel)
    (by decide +kernel) (by decide) (by decide +kernel)
  exact absurd hle (by decide +kernel)

end Sample

/-- What votes use is what they cost, times the divisor, and the remainders that cost nothing. -/
theorem Config.sum_used (c : Config) (uses : List (Seconds × Nat)) : (uses.map (·.2)).sum =
    c.votePowerCostDivisor.toNat * (uses.map fun u => c.voteCost u.2).sum +
      (uses.map fun u => u.2 % c.votePowerCostDivisor.toNat).sum := by
  induction uses with
  | nil => rfl
  | cons u uses ih =>
    have hfirst : c.votePowerCostDivisor.toNat * c.voteCost u.2 +
        u.2 % c.votePowerCostDivisor.toNat = u.2 := Nat.div_add_mod ..
    simp only [List.map_cons, List.sum_cons, Nat.mul_add]
    omega

/-- The votes of every token use at most what its power has cost, as if no cost were rounded and no unit of
power were started: the divisor times what the token had and what has come back since. -/
def Config.BoundsInfluence (config : Config) : Prop :=
  ∀ (genesis : Genesis) (l : Ledger) (steps : List Step) (n : AccountName) (d : DisciplineId)
    (token : ExpertToken) (t₀ t₁ : Seconds), l.Reachable config genesis →
    (∀ step ∈ steps, step.Storable) → l.Forward steps → l.state.expertToken? n d = some token →
    t₀ ≤ t₁ → (∀ u ∈ l.uses n d steps, t₀ ≤ u.1 ∧ u.1 ≤ t₁) →
      ((l.uses n d steps).map (·.2)).sum ≤ config.votePowerCostDivisor.toNat *
        (token.powerAt config t₀ + wholePercent * (t₁ - t₀) / config.voteRegeneration)

namespace Ledger

/-- Take a token of a reachable ledger at a time, and a run from there that never turns the clock back.
Where votes cost a part of what they use, the votes of the token until a later time use at most as many
times what it had and what has come back since, and the remainders that are too small to cost anything.
Where they cost all that they use, the unit of power counts as well that was started at the first time. -/
theorem Reachable.influence_bounded (h : l.Reachable config genesis)
    (hsteps : ∀ step ∈ steps, step.Storable) (hforward : l.Forward steps)
    (htoken : l.state.expertToken? n d = some token) (ht : t₀ ≤ t₁)
    (hin : ∀ u ∈ l.uses n d steps, t₀ ≤ u.1 ∧ u.1 ≤ t₁) :
    (2 ≤ config.votePowerCostDivisor → ((l.uses n d steps).map (·.2)).sum ≤
      config.votePowerCostDivisor.toNat *
        (token.powerAt config t₀ + wholePercent * (t₁ - t₀) / config.voteRegeneration) +
      ((l.uses n d steps).map fun u => u.2 % config.votePowerCostDivisor.toNat).sum) ∧
    (config.votePowerCostDivisor = 1 → ((l.uses n d steps).map (·.2)).sum ≤
      token.powerAt config t₀ + (token.charge.started config t₀ + wholePercent * (t₁ - t₀)) /
        config.voteRegeneration) := by
  have hpos := Config.regeneration_pos h.validate_eq
  obtain ⟨token', -, hdraws⟩ := h.draws hsteps htoken
  have hbudget := h.power_and_costs_le hforward hdraws ht hin
  have hused := config.sum_used (l.uses n d steps)
  constructor
  · intro hdivisor
    rw [hused]
    refine Nat.add_le_add_right (Nat.mul_le_mul_left _ ?_) _
    by_cases hnone : l.uses n d steps = []
    · rw [hnone]
      exact Nat.zero_le _
    · -- Some power is left, and makes up for the unit that was started.
      have hleft : 0 < token'.charge.powerAt config t₁ :=
        Charge.powerAt_pos hpos (hdraws.power_pos hdivisor hnone)
      have hstarted : (token.charge.started config t₀ + wholePercent * (t₁ - t₀)) /
          config.voteRegeneration ≤ wholePercent * (t₁ - t₀) / config.voteRegeneration + 1 :=
        Charge.started_add_div_le hpos
      omega
  · intro hdivisor
    have hremainders : ((l.uses n d steps).map fun u => u.2 % config.votePowerCostDivisor.toNat).sum =
        0 := by
      rw [hdivisor]
      simp [Nat.mod_one]
    rw [hused, hremainders, hdivisor, Int.toNat_one, Nat.one_mul]
    omega

end Ledger

namespace Sample

/-- Votes cost the half of what they use. -/
def halving : Config := { votePowerCostDivisor := 2 }

/-- Votes cost all that they use. -/
def costly : Config := { votePowerCostDivisor := 1 }

/-- Alice has spent all of her power, and the first unit of it has not come back. -/
def spent : Ledger := (foundedUnder costly (founders 10000 300 20)).after
  (publishMany ++ voteForAll [0] ++ [.endBlock 43])

theorem spent_reachable : spent.Reachable costly (founders 10000 300 20) :=
  ⟨_, _, rfl, by decide, rfl⟩

/-- Thirteen whole votes use 20002, which is more than twice the power; six of the uses are odd. -/
theorem prolific_influence_bounded :
    (((prolific halving).uses alice 0 (voteForAll (List.range 13))).map (·.2)).sum = 20002 ∧
    (((prolific halving).uses alice 0 (voteForAll (List.range 13))).map (·.2)).sum ≤ 20006 := by
  have h := (@Ledger.Reachable.influence_bounded (prolific halving) halving (founders 10000 300 20)
    alice 0 (voteForAll (List.range 13)) rested 0 0 (prolific_reachable rfl) (by decide)
    (by decide +kernel) (by decide +kernel) (by decide) (by decide +kernel)).1 (by decide)
  exact ⟨by decide +kernel, h.trans (by decide +kernel)⟩

/-- Small votes are cheaper than the divisor tells, and a vote may use the unit of power that was started
before. -/
theorem influence_exceeds : ¬ halving.BoundsInfluence ∧ ¬ costly.BoundsInfluence := by
  constructor
  · intro h
    have hle := h (founders 10000 300 20) (prolific halving) (voteForAll (List.range 13)) alice 0
      rested 0 0 (prolific_reachable rfl) (by decide) (by decide +kernel) (by decide +kernel)
      (by decide) (by decide +kernel)
    exact absurd hle (by decide +kernel)
  · intro h
    have hle := h (founders 10000 300 20) spent ([.endBlock 1] ++ voteForAll [1]) alice 0
      ⟨alice, 0, 10000, 0, 0⟩ 43 44 spent_reachable (by decide) (by decide +kernel)
      (by decide +kernel) (by decide) (by decide +kernel)
    exact absurd hle (by decide +kernel)

end Sample

end ResearchLedger
