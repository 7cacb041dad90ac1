import ResearchLedger.Config.Load
import ResearchLedger.Proofs.Division
import ResearchLedger.Proofs.Minting

/-! What the check of the parameters guards against: quotients by zero and shares above the whole, and
all but one way in which an operation could make money. -/
namespace ResearchLedger

variable {s : State} {l : Ledger} {amount : Amount} {config : Config} {genesis : Genesis}

/-- What a content's reward is divided into before the holders of its research get the rest. -/
structure Pools where
  reviews : Amount
  references : Amount
  curators : Amount

/-- What is left for the holders. -/
def Pools.holders (pools : Pools) (amount : Amount) : Amount :=
  amount - pools.reviews - pools.references - pools.curators

namespace State

/-- The pools of a reward for a content of a research. -/
def pools (s : State) (r : Research) (amount : Amount) : Pools where
  reviews := part amount r.reviewSharePercent wholePercent
  references := part amount s.config.referencesShare wholePercent
  curators := part amount s.config.curatorsShare wholePercent

/-- The pool of a review's reward that its voters share. -/
def votersPool (s : State) (amount : Amount) : Amount :=
  part amount s.config.reviewVotersShare wholePercent

/-- Divides the pools of a content, and what is left among the holders. -/
def payPools (s : State) (c : Content) (r : Research) (discipline : DisciplineId) (amount : Amount)
    (pools : Pools) (p : RewardPlan) : Except LedgerError RewardPlan := do
  let p ← s.planReviews c.id discipline pools.reviews p
  let p ← s.planReferences c discipline pools.references p
  let p ← s.planCurators c.id discipline pools.curators p
  if pools.holders amount ≤ 0 then return p
  let p ← s.planHolders r.id (pools.holders amount) p
  p.giveExpertiseTo c.authors discipline (pools.holders amount)

/-- Divides the pool of a review's voters, and gives what is left to its author. -/
def payVoters (s : State) (r : Review) (discipline : DisciplineId) (amount voters : Amount)
    (p : RewardPlan) : Except LedgerError RewardPlan := do
  let p ← s.planReviewVoters r discipline voters p
  let p ← p.payAccount r.author (amount - voters)
  let p := p.report (.reviewRewarded r.author r.id (amount - voters))
  p.giveExpertiseTo [r.author] discipline (amount - voters)

/-- Every reward is divided into pools that are parts of it. -/
structure SharesWithin (s : State) : Prop where
  content : ∀ (c : Content) r amount, s.researches.get? c.research = some r →
    0 ≤ amount → amount ≤ Amount.max →
      0 ≤ (s.pools r amount).reviews ∧ 0 ≤ (s.pools r amount).references ∧
      0 ≤ (s.pools r amount).curators ∧ 0 ≤ (s.pools r amount).holders amount ∧
      ∀ d p, s.planContent c d amount p = s.payPools c r d amount (s.pools r amount) p
  review : ∀ (r : Review) amount, 0 ≤ amount → amount ≤ Amount.max →
    0 ≤ s.votersPool amount ∧ s.votersPool amount ≤ amount ∧
      ∀ d p, s.planReview r d amount p = s.payVoters r d amount (s.votersPool amount) p

theorem holders_nonneg {r : Research} (h : r.reviewSharePercent + s.config.referencesShare +
    s.config.curatorsShare ≤ wholePercent) (ha : 0 ≤ amount) : 0 ≤ (s.pools r amount).holders amount := by
  have hreviews := part_add_le amount r.reviewSharePercent s.config.referencesShare wholePercent
  have hcurators := part_add_le amount (r.reviewSharePercent + s.config.referencesShare)
    s.config.curatorsShare wholePercent
  have hall := part_le ha h
  unfold Pools.holders pools
  dsimp only
  linarith

theorem Apportioned.sharesWithin (h : s.Apportioned) : s.SharesWithin where
  content c r amount hr ha hm := by
    have hparts := h.parts _ _ hr
    refine ⟨part_nonneg ha, part_nonneg ha, part_nonneg ha, holders_nonneg hparts ha, fun d p => ?_⟩
    unfold planContent
    rw [research_eq_ok.2 hr, ok_bind, percentShare_eq ha hm (by omega), ok_bind,
      percentShare_eq ha hm (by omega), ok_bind, percentShare_eq ha hm (by omega), ok_bind]
    rfl
  review r amount ha hm := by
    have hvoters := (Config.validate_ok h.config).2
    refine ⟨part_nonneg ha, part_le ha hvoters, fun d p => ?_⟩
    unfold planReview
    rw [percentShare_eq ha hm hvoters, ok_bind]
    rfl

end State

theorem Ledger.Reachable.config_eq (h : l.Reachable config genesis) : l.state.config = config :=
  h.invariant (P := fun l => l.state.config = config)
    (fun _ h₀ => State.config_ofGenesis (ofGenesis_ok h₀).1) fun _ _ hc he => hc.config_eq.trans he

/-- Under parameters that are accepted no reachable ledger divides by zero, the pools of a content and
of a review are within its reward, and an operation makes money only if it is the creation of an account
for a negative fee, which takes a negative least fee. -/
theorem Ledger.Reachable.safe_but_for_fees (h : l.Reachable config genesis) (hg : genesis.Storable) :
    l.state.config = config ∧ config.DividesSafely ∧ l.state.SharesWithin ∧
    ∀ op : Operation, (l.state.money < (op.apply l).2.state.money ↔ op.Mints l) ∧
      (op.Mints l → config.minAccountCreationFee < 0) := by
  have hconfig := h.config_eq
  have hl := h.sound hg
  refine ⟨hconfig, ?_, hl.apportioned.sharesWithin, fun op => ⟨?_, fun hm => hconfig ▸ hm.fee_lt⟩⟩
  · exact hconfig ▸ Config.dividesSafely hl.apportioned.config
  · exact op.apply_mints_iff hl (h.balancesFit hg)

namespace Sample

/-- Parameters that are accepted, with a least fee below zero. -/
def lavish : Config := { minAccountCreationFee := -1000 }

/-- A configuration file that sets them. -/
def lavishFile : String := "[ledger]\nmin_account_creation_fee = -1000\n"

theorem ofToml_lavishFile : Config.ofToml lavishFile = .ok lavish := by
  have hread : (Config.ofToml lavishFile).toOption = some lavish := by decide +kernel
  cases hc : Config.ofToml lavishFile with
  | ok c =>
    rw [hc] at hread
    exact congrArg _ (Option.some.inj hread)
  | error =>
    rw [hc] at hread
    cases hread

/-- The ledger of the founders under these parameters. -/
def generous : Ledger :=
  match Ledger.ofGenesis lavish (founders 1 300 20) with
  | .ok l => l
  | .error _ => ⟨.empty {}, .start 0 0⟩

theorem generous_reachable : generous.Reachable lavish (founders 1 300 20) :=
  ⟨generous, [], rfl, by decide, rfl⟩

/-- Bob creates an account, and is paid for it. -/
def negativeFee : Operation :=
  .accountCreate ⟨⟨-500, .primary⟩, bob, dave, .ofAccount bob, .ofAccount bob, .ofAccount bob, .empty, ""⟩

theorem negative_fee_mints : negativeFee.Mints generous ∧
    generous.state.money < (negativeFee.apply generous).2.state.money :=
  have hm : negativeFee.Mints generous := ⟨rfl, by decide, by decide +kernel⟩
  have h := Ledger.Reachable.safe_but_for_fees generous_reachable (by decide)
  ⟨hm, (h.2.2.2 negativeFee).1.2 hm⟩

/-- The check of the parameters does not keep operations from making money: with a file that sets a
negative least fee, alice, bob and carol have 321 in all before bob creates the account, and 821
after it. -/
theorem accepted_fee_mints : generous.state.money = 321 ∧
    (negativeFee.apply generous).2.state.money = 821 ∧
    ¬ ∀ (text : String) (config : Config) (genesis : Genesis) (l : Ledger) (op : Operation),
      Config.ofToml text = .ok config → genesis.Storable → l.Reachable config genesis →
        (op.apply l).2.state.money ≤ l.state.money := by
  refine ⟨by decide +kernel, by decide +kernel, fun h => ?_⟩
  have hle := h lavishFile lavish (founders 1 300 20) generous negativeFee ofToml_lavishFile (by decide)
    generous_reachable
  exact absurd hle (by decide +kernel)

end Sample

end ResearchLedger
