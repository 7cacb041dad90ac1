import ResearchLedger.Proofs.Solvency

/-! Expert tokens: what the look-up of one finds after a change, and that none ever holds more than
can be stored, or less than nothing. -/
namespace ResearchLedger

variable {s s' : State} {l l' : Ledger} {config : Config} {genesis : Genesis} {n k : AccountName}
  {d e : DisciplineId} {x : Amount} {now : Seconds}

open SortedMap

/-- A token with more expertise, as far as it can be stored. -/
def ExpertToken.gain (t : ExpertToken) (x : Amount) : ExpertToken :=
  { t with amount := Amount.clamp (t.amount + x) }

namespace State

theorem expertToken?_modifyExpertToken {f : ExpertToken → ExpertToken} :
    (s.modifyExpertToken k e f).expertToken? n d =
      if k = n ∧ e = d then (s.expertToken? n d).map f else s.expertToken? n d := by
  unfold expertToken? modifyExpertToken
  rw [get?_modify]
  by_cases hk : k = n
  · rw [if_pos hk]
    cases s.expertTokens.get? n with
    | none => simp
    | some tokens => simp [hk, get?_modify]
  · rw [if_neg hk, if_neg fun h => hk h.1]

theorem expertToken?_creditExpertise :
    (s.creditExpertise k e x now).expertToken? n d =
      if k = n ∧ e = d then some (((s.expertToken? n d).getD (.fresh n d now)).gain x)
      else s.expertToken? n d := by
  unfold expertToken? creditExpertise
  dsimp only
  rw [get?_insert]
  by_cases hk : k = n
  · subst hk
    rw [if_pos rfl, Option.bind_some, get?_insert, getD_eq, getD_eq]
    by_cases he : e = d
    · subst he
      cases s.expertTokens.get? k <;> simp [ExpertToken.gain]
    · cases s.expertTokens.get? k <;> simp [he]
  · rw [if_neg hk, if_neg fun h => hk h.1]

/-- The expertise of an account in a discipline, or zero. -/
def expertiseIn (s : State) (n : AccountName) (d : DisciplineId) : Amount :=
  ((s.expertToken? n d).map (·.amount)).getD 0

theorem expertiseIn_of_some {t : ExpertToken} (h : s.expertToken? n d = some t) :
    s.expertiseIn n d = t.amount := by
  rw [expertiseIn, h, Option.map_some, Option.getD_some]

theorem expertiseIn_congr (h : s'.expertTokens = s.expertTokens) :
    s'.expertiseIn n d = s.expertiseIn n d := by
  unfold expertiseIn expertToken?
  rw [h]

theorem expertiseIn_creditExpertise : (s.creditExpertise k e x now).expertiseIn n d =
    if k = n ∧ e = d then Amount.clamp (s.expertiseIn n d + x) else s.expertiseIn n d := by
  unfold expertiseIn
  rw [expertToken?_creditExpertise]
  split
  · cases s.expertToken? n d <;> rfl
  · rfl

/-- Every expert token holds what can be stored. -/
def ExpertiseFits (s : State) : Prop :=
  ∀ n d t, s.expertToken? n d = some t → t.amount ≤ Amount.max

namespace ExpertiseFits

theorem creditExpertise (h : s.ExpertiseFits) : (s.creditExpertise k e x now).ExpertiseFits := by
  intro n d t ht
  rw [expertToken?_creditExpertise] at ht
  split at ht
  · cases ht
    exact Amount.clamp_le_max _
  · exact h n d t ht

end ExpertiseFits

/-- Every expert token holds what can be stored, and none holds less than nothing. -/
def ExpertiseSound (s : State) : Prop :=
  ∀ n d t, s.expertToken? n d = some t → 0 ≤ t.amount ∧ t.amount ≤ Amount.max

namespace ExpertiseSound

theorem fits (h : s.ExpertiseSound) : s.ExpertiseFits := fun n d t ht => (h n d t ht).2

theorem expertiseIn (h : s.ExpertiseSound) (n : AccountName) (d : DisciplineId) :
    0 ≤ s.expertiseIn n d ∧ s.expertiseIn n d ≤ Amount.max := by
  cases ht : s.expertToken? n d with
  | none =>
    rw [State.expertiseIn, ht]
    exact ⟨le_refl _, Amount.max_nonneg⟩
  | some t =>
    rw [expertiseIn_of_some ht]
    exact h n d t ht

theorem congr (h : s.ExpertiseSound) (he : s'.expertTokens = s.expertTokens) :
    s'.ExpertiseSound := by
  unfold ExpertiseSound expertToken?
  rw [he]
  exact h

theorem modifyExpertToken {f : ExpertToken → ExpertToken} (h : s.ExpertiseSound)
    (hf : ∀ t, 0 ≤ t.amount ∧ t.amount ≤ Amount.max →
      0 ≤ (f t).amount ∧ (f t).amount ≤ Amount.max) : (s.modifyExpertToken k e f).ExpertiseSound := by
  intro n d t ht
  rw [expertToken?_modifyExpertToken] at ht
  split at ht
  · obtain ⟨u, hu, rfl⟩ := Option.map_eq_some_iff.1 ht
    exact hf u (h n d u hu)
  · exact h n d t ht

theorem creditExpertise (h : s.ExpertiseSound) (hx : 0 ≤ x) :
    (s.creditExpertise k e x now).ExpertiseSound := by
  intro n d t ht
  rw [expertToken?_creditExpertise] at ht
  split at ht
  · cases ht
    refine ⟨Amount.clamp_nonneg (Int.add_nonneg ?_ hx), Amount.clamp_le_max _⟩
    cases hold : s.expertToken? n d with
    | none => exact le_refl _
    | some u => exact (h n d u hold).1
  · exact h n d t ht

theorem foldl_creditExpertise {α : Type} {name : α → AccountName} {d : α → DisciplineId}
    {amount : α → Amount} {xs : List α} (h : s.ExpertiseSound) (hx : ∀ x ∈ xs, 0 ≤ amount x) :
    (xs.foldl (fun s x => s.creditExpertise (name x) (d x) (amount x) now) s).ExpertiseSound := by
  induction xs generalizing s with
  | nil => exact h
  | cons x xs ih =>
    rw [List.forall_mem_cons] at hx
    exact ih (h.creditExpertise hx.1) hx.2

theorem spendPower {remaining : Nat} (h : s.ExpertiseSound) :
    (s.spendPower k e remaining now).ExpertiseSound :=
  h.modifyExpertToken fun _ ht => ht

theorem debitExpertise (h : s.ExpertiseSound) (hx : 0 ≤ x) :
    (s.debitExpertise k e x).ExpertiseSound :=
  h.modifyExpertToken fun _ ht =>
    ⟨le_max_right _ _, max_le ((Int.sub_le_self _ hx).trans ht.2) Amount.max_nonneg⟩

theorem applyProxyEffects (h : s.ExpertiseSound) (effects : ProxyEffects) :
    (s.applyProxyEffects effects).ExpertiseSound :=
  h.congr (by rw [applyProxyEffects_eq])

theorem applyReward (h : s.ExpertiseSound) {p : RewardPlan} (hp : p.Sound s) (now : Seconds) :
    (s.applyReward now p).ExpertiseSound := by
  obtain ⟨groups, he⟩ := applyReward_eq s now p
  rw [he]
  refine foldl_creditExpertise (h.congr rfl) fun x hx => ?_
  exact hp.expertise _ _ (mem_entries_iff.1 hx)

theorem commitVotes (ps : List ContentVotePlan) (h : l.state.ExpertiseSound) :
    (ps.foldl (fun l p => p.commit l) l).state.ExpertiseSound := by
  induction ps generalizing l with
  | nil => exact h
  | cons p ps ih => exact ih (h.spendPower.congr rfl)

end ExpertiseSound

end State

theorem AddExpertise.check_ok {op : AddExpertise} {u : Unit} (h : op.check s = .ok u) :
    s.accounts.contains op.account = true ∧
      ∀ e ∈ op.additions, s.disciplines.contains e.1 = true ∧ 0 < e.2 := by
  unfold AddExpertise.check at h
  obtain ⟨_, -, h⟩ := bind_eq_ok.1 h
  obtain ⟨-, h⟩ := guard_bind_eq_ok.1 h
  obtain ⟨_, ha, h⟩ := bind_eq_ok.1 h
  refine ⟨State.checkAccount_eq_ok.1 ha, fun e he => ?_⟩
  obtain ⟨d, hd, hadd⟩ := bind_eq_ok.1 (forM_eq_ok.1 h e he)
  exact ⟨SortedMap.contains_of_get? (State.discipline_eq_ok.1 hd),
    Int.not_le.1 (guard_bind_eq_ok.1 hadd).1⟩

theorem Operation.Effect.expertiseSound {op : Operation} (h : op.Effect l l')
    (hs : l.state.ExpertiseSound) : l'.state.ExpertiseSound := by
  cases op with
  | accountCreate op =>
    cases h
    unfold AccountCreate.commit
    dsimp only
    split
    · rename_i hfee
      exact State.ExpertiseSound.creditExpertise (hs.congr rfl) hfee.le
    · exact hs.congr rfl
  | transferToCommonTokens =>
    cases h with | transferToCommonTokens hp =>
    refine State.ExpertiseSound.applyProxyEffects (.creditExpertise ?_ ?_) _
    · exact hs.congr rfl
    · exact (TransferToCommonTokens.plan_ok hp).1.le
  | voteForContent => cases h; exact hs.spendPower.congr rfl
  | voteForReview => cases h; exact hs.spendPower.congr rfl
  | makeReview => cases h; exact State.ExpertiseSound.commitVotes _ (hs.congr rfl)
  | addExpertise =>
    cases h with | addExpertise hc =>
    exact hs.foldl_creditExpertise fun e he => ((AddExpertise.check_ok hc).2 e he).2.le
  | _ => cases h.footprint; exact hs.congr rfl

namespace LedgerM

variable {amount deposit : Amount} {r : WithdrawRoute} {rs : List WithdrawRoute}

theorem RoutePaid.expertiseSound (h : RoutePaid amount r l deposit l')
    (hs : l.state.ExpertiseSound) : l'.state.ExpertiseSound := by
  cases h with
  | skip => exact hs
  | stake _ hp =>
    refine State.ExpertiseSound.applyProxyEffects (.creditExpertise ?_ hp.le) _
    exact hs.congr rfl
  | balance => exact hs.congr rfl

theorem payPowerDown_expertiseSound {name : AccountName} {events : List Event}
    (h : payPowerDown name l = (.ok events, l')) (hsolvent : l.state.Solvent)
    (hs : l.state.ExpertiseSound) : l'.state.ExpertiseSound := by
  obtain ⟨a, l₁, routed, effects, ha, -, hr, -, rfl⟩ := payPowerDown_ok h
  have h₁ : l₁.state.ExpertiseSound := hr.preserves (P := fun l => l.state.ExpertiseSound)
    (fun _ _ _ _ => RoutePaid.expertiseSound) hs
  have hpos := (hsolvent.accounts _ _ ha).nextPayment.1
  exact ((h₁.applyProxyEffects effects).debitExpertise hpos).congr rfl

end LedgerM

theorem Upkeep.expertiseSound (h : Upkeep l l') (hs : l.state.ExpertiseSound) :
    l'.state.ExpertiseSound := by
  cases h.footprint with
  | deactivation content =>
    obtain ⟨_, _, _, _, he⟩ := Ledger.deactivate_footprint l content
    rw [he]
    exact hs.congr rfl
  | rest => exact hs.congr rfl

theorem Change.expertiseSound (h : Change l l') (hl : l.Sound) (hs : l.state.ExpertiseSound) :
    l'.state.ExpertiseSound := by
  cases h with
  | operation h => exact h.expertiseSound hs
  | reward h => exact hs.applyReward (h.sound hl.linked hl.apportioned hl.balanced).1 _
  | payment h => exact LedgerM.payPowerDown_expertiseSound h hl.solvent hs
  | upkeep h => exact h.expertiseSound hs

theorem State.ExpertiseSound.ofGenesis (h : ofGenesis config genesis = .ok s) :
    s.ExpertiseSound := by
  refine ofGenesis_invariant h (fun _ _ _ _ ht => by cases ht) fun s s' hc hs => ?_
  cases hc with
  | discipline => exact hs.congr rfl
  | account _ _ _ hc _ he =>
    rcases he with ⟨-, rfl⟩ | rfl
    · exact hs.congr rfl
    · exact (hs.creditExpertise hc).congr rfl
  | witness => exact hs.congr rfl

namespace Ledger

theorem Reachable.expertiseSound (h : l.Reachable config genesis) (hg : genesis.Storable) :
    l.state.ExpertiseSound := by
  refine (h.invariant (P := fun l => l.Sound ∧ l.state.ExpertiseSound) (fun _ h₀ => ?_)
    fun _ _ hc hl => ?_).2
  · exact ⟨.ofGenesis h₀ hg, .ofGenesis (ofGenesis_ok h₀).1⟩
  · exact ⟨hc.sound hl.1, hc.expertiseSound hl.1 hl.2⟩

theorem Reachable.expertiseFits (h : l.Reachable config genesis) (hg : genesis.Storable) :
    l.state.ExpertiseFits := (h.expertiseSound hg).fits

end Ledger

end ResearchLedger
