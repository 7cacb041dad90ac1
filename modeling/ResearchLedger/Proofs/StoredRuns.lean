import ResearchLedger.Proofs.StoredOperations
import ResearchLedger.Proofs.StoredUpkeep

/-! Runs keep what a ledger stores within its ranges: a genesis whose numbers are in range leads, by
operations that are decoded, to ledgers whose numbers are. -/
namespace ResearchLedger

open SortedMap

variable {l l' : Ledger} {op : Operation} {ops : List Operation} {config : Config}
  {genesis : Genesis}

/-- Counters only grow: where they end in range they began in range. -/
theorem Operation.Effect.counters (h : op.Effect l l') (hn : l'.state.nextIds.InRange) :
    l.state.nextIds.InRange := by
  cases op with
  | delegateCommonTokens op =>
    -- The footprint does not tell how the number changes.
    have hle : l.state.nextIds.expiringDelegation ≤ l'.state.nextIds.expiringDelegation := by
      cases h with | @delegateCommonTokens _ plan _ =>
      rcases plan.expiring_commit l.state with ⟨-, -, he⟩ | ⟨-, -, -, he⟩
      · exact (congrArg IdCounters.expiringDelegation he).ge
      · exact (Nat.le_succ _).trans he.ge
    cases h.footprint
    exact { hn with expiringDelegation := hle.trans hn.expiringDelegation }
  | makeReview op =>
    cases h with | @makeReview _ plan _ =>
    have hn := MakeReview.nextIds_commit plan l ▸ hn
    exact { hn with review := (Nat.le_succ _).trans hn.review }
  | createGroup op =>
    cases h
    exact { hn with group := (Nat.le_succ _).trans hn.group }
  | createResearch op =>
    cases h
    exact { hn with research := (Nat.le_succ _).trans hn.research }
  | createContent op =>
    cases h
    exact { hn with content := (Nat.le_succ _).trans hn.content }
  | createGrant op =>
    cases h
    exact { hn with grant := (Nat.le_succ _).trans hn.grant }
  | createProposal op =>
    cases h
    exact { hn with proposal := (Nat.le_succ _).trans hn.proposal }
  | _ =>
    cases h.footprint
    exact hn

theorem Drift.counters (h : Drift l l') : l'.state.nextIds = l.state.nextIds := by
  cases h with
  | @reward _ plan =>
    obtain ⟨_, _, _, he⟩ := State.applyReward_footprint l.state l.head.time plan
    rw [he]
  | payment h =>
    obtain ⟨_, _, _, rfl⟩ := LedgerM.payPowerDown_footprint h
    rfl
  | upkeep h =>
    cases h.footprint with
    | deactivation content =>
      obtain ⟨_, _, _, _, he⟩ := Ledger.deactivate_footprint l content
      rw [he]
    | rest => rfl

/-- What a run keeps: the head is in range, and so is all that is stored as long as the counters
are. -/
structure Ledger.Stored (l : Ledger) : Prop where
  ready : l.Ready
  time : l.head.time ≤ maxWord
  block : l.head.block ≤ maxWord
  state : l.state.nextIds.InRange → l.state.Stored

theorem Move.stored (h : Move ops l l') (ho : ∀ op ∈ ops, op.InRange) (hl : l.Stored) :
    l'.Stored := by
  obtain ⟨htime, hblock⟩ := Prod.mk.inj h.clock_eq
  have hconfig := hl.ready.sound.apportioned.config
  have hready : l'.Ready := by
    cases h with
    | operation _ h => exact (Change.operation h).ready hl.ready
    | drift h => exact h.change.ready hl.ready
  refine ⟨hready, htime.trans_le hl.time, hblock.trans_le hl.block, fun hn => ?_⟩
  cases h with
  | operation hmem h => exact h.stored (ho _ hmem) hconfig hl.time hn (hl.state (h.counters hn))
  | drift h =>
    exact h.stored hl.ready.sound.solvent hl.time (hl.state (h.counters ▸ hn))

/-- A request whose operations are decoded and whose numbers fit the words that hold them. -/
def Step.Decoded : Step → Prop
  | operation op => op.Decoded
  | transaction ops => ∀ op ∈ ops, op.Decoded
  | setClock time block => time ≤ maxWord ∧ block ≤ maxWord
  | step => step.Storable

namespace Step.Decoded

variable {step : Step}

theorem storable (h : step.Decoded) : step.Storable := by
  cases step with
  | distributeReward | rewardHolders => exact h
  | _ => trivial

theorem inRange (h : step.Decoded) : ∀ op ∈ step.operations, op.InRange := by
  cases step with
  | operation op =>
    intro op hop
    rw [List.mem_singleton.1 hop]
    exact Operation.Decoded.inRange h
  | transaction ops => exact fun op hop => (h op hop).inRange
  | _ => exact fun _ hop => absurd hop List.not_mem_nil

theorem onTime (h : step.Decoded) (hl : l.Stored) : (step.onTime l).Stored := by
  cases step with
  | endBlock seconds =>
    have hready : Ledger.Ready { l with head := l.head.advance seconds } :=
      (Change.upkeep (.clock ..)).ready hl.ready
    exact ⟨hready, Nat.min_le_right .., Nat.min_le_right .., hl.state⟩
  | setClock time block =>
    have hready : Ledger.Ready { l with head := { l.head with time, block } } :=
      (Change.upkeep (.clock ..)).ready hl.ready
    exact ⟨hready, h.1, h.2, hl.state⟩
  | _ => exact hl

end Step.Decoded

/-- The numbers of a genesis fit the words that hold them. -/
structure Genesis.InRange (g : Genesis) : Prop where
  amounts : g.Storable
  disciplines : ∀ d ∈ g.disciplines, d.id ≤ maxWord ∧ ∀ x ∈ d.parent, x ≤ maxWord
  time : g.time ≤ maxWord

namespace State.Stored

variable {s s' : State}

theorem empty (h : config.InRange) : (empty config).Stored where
  config := h
  accounts := .empty
  authorities := .empty
  ownerHistory := .empty
  recoveryRequests := .empty
  partnerChanges := .empty
  delegations := .empty
  expiringDelegations := .empty
  expertTokens := .empty
  votes := .empty
  reviewVotes := .empty
  voteTotals := .empty
  disciplines := .insert .empty ⟨by decide, by decide, by simp [Discipline.fresh], by decide,
    by decide, by decide⟩
  groups := .empty
  groupTokens := .empty
  researches := .empty
  contents := .empty
  reviews := .empty
  reviewsByContent := .empty
  groupPermlinks := .empty
  researchPermlinks := .empty
  contentPermlinks := .empty
  witnesses := .empty
  grants := .empty
  proposals := .empty

theorem founds (hg : genesis.InRange) (h : Founds genesis s s') (hs : s.Stored) : s'.Stored := by
  cases h with
  | @discipline g hmem =>
    obtain ⟨hid, hparent⟩ := hg.disciplines g hmem
    have hnone : 0 ≤ maxWord := Nat.zero_le _
    exact { hs with
      disciplines := hs.disciplines.insert ⟨hid, hid, hparent, hnone, hnone, hnone⟩ }
  | @account g hmem _ hb _ expertTokens he =>
    have haccount : (g.account genesis.time).Stored :=
      { Account.Stored.fresh g.name g.key hg.time with
        balance := .primary (.of_nonneg hb (hg.amounts g hmem).1) }
    have hkey : (Authority.ofKey g.key).InRange :=
      ⟨show 1 ≤ maxWord32 by decide, .empty, .insert .empty (by decide)⟩
    have hexpertise : expertTokens.All fun _ ts => ts.All fun d t => d ≤ maxWord ∧ t.InRange := by
      rcases he with ⟨-, rfl⟩ | rfl
      · exact hs.expertTokens
      · exact (hs.creditExpertise (by decide) hg.time).expertTokens
    exact { hs with
      accounts := hs.accounts.insert haccount
      authorities := hs.authorities.insert ⟨hkey, hkey, hkey, Nat.zero_le _⟩
      expertTokens := hexpertise }
  | witness =>
    exact { hs with
      witnesses := hs.witnesses.insert ⟨.default, show Amount.Fits 0 by decide, hg.time⟩ }

end State.Stored

theorem Ledger.Stored.ofGenesis (hc : config.InRange) (hg : genesis.InRange)
    (h : ofGenesis config genesis = .ok l) : l.Stored := by
  have hready : l.Ready := Reachable.ready ⟨l, [], h, by simp, rfl⟩ hg.amounts
  have hstate : l.state.Stored :=
    State.ofGenesis_invariant (ofGenesis_ok h).1 (fun _ => .empty hc) fun _ _ => .founds hg
  obtain ⟨s, -, h⟩ := bind_eq_ok.1 h
  cases h
  exact ⟨hready, hg.time, Nat.zero_le _, fun _ => hstate⟩

theorem Ledger.Stored.after {steps : List Step} (hs : ∀ step ∈ steps, step.Decoded) (hl : l.Stored) :
    (l.after steps).Stored :=
  after_invariant (fun step h => (hs step h).storable) (fun step h _ => (hs step h).onTime)
    (fun step h _ _ hm => hm.stored (hs step h).inRange) hl

end ResearchLedger
