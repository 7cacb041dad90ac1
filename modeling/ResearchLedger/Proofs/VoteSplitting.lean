import ResearchLedger.Proofs.CuratorWeights
import ResearchLedger.Proofs.RewardCurve

/-! Tokens that are divided among votes gain no weight in rewards: what the votes on a content have on
the curve one by one is at most what their total has. -/
namespace ResearchLedger

open SortedMap

variable {l : Ledger} {config : Config} {genesis : Genesis} {t : VoteTotals} {v : Vote}
  {vs : SortedMap AccountName Vote} {k : ContentId × DisciplineId}

/-- The entries of a map have together no more on the curve than their sum. -/
theorem SortedMap.sumOf_threeHalves_le {κ α : Type} [KeyOrder κ] (f : κ → α → Nat)
    (m : SortedMap κ α) :
    m.sumOf (fun k x => Curve.threeHalves (f k x)) ≤ Curve.threeHalves (m.sumOf f) := by
  have h := Curve.sum_threeHalves_le (m.entries.map fun e => f e.1 e.2)
  rwa [List.map_map] at h

theorem Vote.StandsAt.rewardWeight_eq {voter : AccountName}
    (h : v.StandsAt k voter) : v.rewardWeight = Curve.threeHalves v.tokens :=
  (Curve.eval_power_eq_ok.1 h.curve).2.symm

/-- Totals that are sums over votes have no more weight in rewards than the curve gives to the tokens of
all these votes. -/
theorem VoteTotals.SumsOf.researchWeight_le (h : t.SumsOf vs)
    (hvs : vs.All fun voter v => v.StandsAt k voter) :
    t.researchWeight ≤ Curve.threeHalves t.weight := by
  rw [h.researchWeight, h.weight, sumOf_congr fun voter v hv => (hvs voter v hv).rewardWeight_eq]
  exact sumOf_threeHalves_le _ vs

theorem Ledger.Reachable.researchWeight_le (h : l.Reachable config genesis) :
    l.state.voteTotals.All fun _ t =>
      ∃ w, Curve.power1Dot5.eval t.weight = .ok w ∧ t.researchWeight ≤ w := by
  intro k t ht
  obtain ⟨w, hw, -, -⟩ := h.telescopes.1 k t ht
  have hsums := (h.votesSummed.summed k t ht).2
  have hle := hsums.researchWeight_le (h.votesSummed.standsAt k)
  exact ⟨w, hw, hle.trans (Curve.eval_power_eq_ok.1 hw).2.le⟩

/-- If the curve has a value at the sum of some tokens, it has one at each of them, and these come
together to no more than that at the sum. Up to there it rises, so that raising a total is never refused.
And in every reachable ledger the weight in rewards of a content in a discipline is at most the curve at
the tokens of all votes on it. -/
theorem Curve.splitting_gains_nothing :
    (∀ xs : List Nat, xs.sum ^ 3 < 2 ^ 128 → ∃ ws w, xs.mapM power1Dot5.eval = .ok ws ∧
      power1Dot5.eval xs.sum = .ok w ∧ ws.sum ≤ w) ∧
    (∀ a b, a ≤ b → b ^ 3 < 2 ^ 128 → ∃ before after, power1Dot5.eval a = .ok before ∧
      power1Dot5.eval b = .ok after ∧ before ≤ after ∧
      power1Dot5.delta a b = .ok (after - before)) ∧
    ∀ config genesis l, Ledger.Reachable config genesis l → ∀ content discipline t,
      l.state.voteTotals? content discipline = some t →
        ∃ w, power1Dot5.eval t.weight = .ok w ∧ t.researchWeight ≤ w := by
  refine ⟨fun xs hsum => ?_, fun a b hle hb => ?_, fun config genesis l h content discipline t ht => ?_⟩
  · exact ⟨_, _, mapM_eval_power hsum, eval_power_eq_ok.2 ⟨hsum, rfl⟩, sum_threeHalves_le xs⟩
  · have ha := cube_lt_of_le hle hb
    exact ⟨_, _, eval_power_eq_ok.2 ⟨ha, rfl⟩, eval_power_eq_ok.2 ⟨hb, rfl⟩, threeHalves_mono hle,
      delta_power hle hb⟩
  · exact h.researchWeight_le (content, discipline) t ht

namespace Sample

/-- The votes of bob and carol have less weight one by one than one vote with the tokens of both. -/
theorem ripened_votes_gain_nothing :
    (∃ ws w, [300, 20].mapM Curve.power1Dot5.eval = .ok ws ∧ Curve.power1Dot5.eval 320 = .ok w ∧
      ws.sum ≤ w) ∧
    (∃ growth, Curve.power1Dot5.delta 300 320 = .ok growth) ∧
    (ripened.state.voteTotals? 0 0).map (fun t => (t.weight, t.researchWeight)) = some (320, 5285) ∧
    ∀ t, ripened.state.voteTotals? 0 0 = some t →
      ∃ w, Curve.power1Dot5.eval t.weight = .ok w ∧ t.researchWeight ≤ w := by
  obtain ⟨hsplit, hrises, hledger⟩ := Curve.splitting_gains_nothing
  obtain ⟨_, _, -, -, -, hdelta⟩ := hrises 300 320 (by decide) (by decide)
  exact ⟨hsplit [300, 20] (by decide), ⟨_, hdelta⟩, by decide +kernel,
    hledger _ _ _ ripened_reachable 0 0⟩

end Sample

end ResearchLedger
