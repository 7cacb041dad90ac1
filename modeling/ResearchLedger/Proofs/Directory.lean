import ResearchLedger.Proofs.Bystander

/-! What the records of a state may name, and that it never becomes less. -/
namespace ResearchLedger

open SortedMap

/-- The names and identifiers that a record may mention. -/
structure Directory where
  account : AccountName → Prop
  discipline : DisciplineId → Prop
  group : GroupId → Prop
  research : ResearchId → Prop
  content : ContentId → Prop
  review : ReviewId → Prop
  witness : AccountName → Prop

/-- All that stands in the stores of a state. -/
def State.directory (s : State) : Directory where
  account n := s.accounts.contains n = true
  discipline id := s.disciplines.contains id = true
  group id := s.groups.contains id = true
  research id := s.researches.contains id = true
  content id := s.contents.contains id = true
  review id := s.reviews.contains id = true
  witness n := s.witnesses.contains n = true

/-- The second directory lists all that the first does. -/
structure Directory.Within (d d' : Directory) : Prop where
  account : ∀ n, d.account n → d'.account n
  discipline : ∀ id, d.discipline id → d'.discipline id
  group : ∀ id, d.group id → d'.group id
  research : ∀ id, d.research id → d'.research id
  content : ∀ id, d.content id → d'.content id
  review : ∀ id, d.review id → d'.review id
  witness : ∀ n, d.witness n → d'.witness n

variable {s s' : State} {l l' : Ledger} {op : Operation} {d d' d'' : Directory} {n m : AccountName}
  {events : List Event}

namespace Directory.Within

theorem refl (d : Directory) : d.Within d :=
  ⟨fun _ => id, fun _ => id, fun _ => id, fun _ => id, fun _ => id, fun _ => id, fun _ => id⟩

theorem trans (h : d.Within d') (h' : d'.Within d'') : d.Within d'' where
  account n hn := h'.account n (h.account n hn)
  discipline id hid := h'.discipline id (h.discipline id hid)
  group id hid := h'.group id (h.group id hid)
  research id hid := h'.research id (h.research id hid)
  content id hid := h'.content id (h.content id hid)
  review id hid := h'.review id (h.review id hid)
  witness n hn := h'.witness n (h.witness n hn)

end Directory.Within

theorem State.witnesses_applyProxyEffects (s : State) (e : ProxyEffects) :
    s.witnesses.Within (s.applyProxyEffects e).witnesses := by
  intro n hn
  rw [applyProxyEffects_eq]
  exact contains_foldl_modify.trans hn

/-- Votes add at most the disciplines that they raise. -/
theorem ContentVotePlan.disciplines_foldl_commit (ps : List ContentVotePlan) (l : Ledger) :
    l.state.disciplines.Within (ps.foldl (fun l p => p.commit l) l).state.disciplines := by
  induction ps generalizing l with
  | nil => exact .refl
  | cons p ps ih =>
    have hp : l.state.disciplines.Within (p.commit l).state.disciplines := .insert
    exact hp.trans (ih _)

theorem MakeReview.reviews_commit (plan : MakeReview.Plan) (l : Ledger) :
    (plan.commit l).state.reviews = l.state.reviews.insert plan.review.id plan.review := by
  unfold Plan.commit
  obtain ⟨_, _, _, _, _, h⟩ := ContentVotePlan.foldl_commit plan.votes (plan.record l)
  exact congrArg (fun l => l.state.reviews) h

namespace Operation.Effect

theorem accounts_within (h : op.Effect l l') : l.state.accounts.Within l'.state.accounts := by
  cases op with
  | accountCreate op =>
    cases h
    have hk : KeepsNames l.state.accounts (l.state.debit op.creator op.fee.amount).accounts :=
      .modify_self fun _ => rfl
    dsimp only
    rw [AccountCreate.accounts_commit]
    exact hk.within.trans .insert
  | _ => exact (h.keepsNames fun _ he => by cases he).within

theorem disciplines_within (h : op.Effect l l') :
    l.state.disciplines.Within l'.state.disciplines := by
  cases op with
  | voteForContent => cases h; exact .insert
  | voteForReview => cases h; exact .insert
  | makeReview =>
    cases h with | @makeReview _ plan _ =>
    exact ContentVotePlan.disciplines_foldl_commit plan.votes (plan.record l)
  | _ => cases h.footprint; exact .refl

theorem groups_within (h : op.Effect l l') : l.state.groups.Within l'.state.groups := by
  cases op with
  | createGroup => cases h; exact .insert
  | _ => cases h.footprint; exact .refl

theorem researches_within (h : op.Effect l l') : l.state.researches.Within l'.state.researches := by
  cases op with
  | createResearch => cases h; exact .insert
  | transferResearchTokens op =>
    cases h
    dsimp only
    rw [TransferResearchTokens.commit_eq]
    dsimp only
    split
    · exact .modify
    · exact .refl
  | _ => cases h.footprint; exact .refl

theorem contents_within (h : op.Effect l l') : l.state.contents.Within l'.state.contents := by
  cases op with
  | createContent => cases h; exact .insert
  | _ => cases h.footprint; exact .refl

theorem reviews_within (h : op.Effect l l') : l.state.reviews.Within l'.state.reviews := by
  cases op with
  | voteForReview => cases h; exact .insert
  | makeReview =>
    cases h with | @makeReview _ plan _ =>
    rw [MakeReview.reviews_commit]
    exact .insert
  | _ => cases h.footprint; exact .refl

theorem witnesses_within (h : op.Effect l l') : l.state.witnesses.Within l'.state.witnesses := by
  cases op with
  | transferToCommonTokens =>
    cases h
    intro n hn
    exact State.witnesses_applyProxyEffects _ _ n hn
  | setWitnessProxy =>
    cases h with | @setWitnessProxy _ plan _ =>
    have hw := l.state.witnesses_applyProxyEffects plan.effects
    unfold SetWitnessProxy.Plan.commit
    dsimp only
    split <;> exact hw
  | witnessUpdate => cases h; exact .insert
  | witnessVote op =>
    cases h
    unfold WitnessVote.commit
    dsimp only
    split
    · exact .modify
    · split <;> exact .modify
  | _ => cases h.footprint; exact .refl

/-- No operation removes what a record may name. -/
theorem directory (h : op.Effect l l') : l.state.directory.Within l'.state.directory :=
  ⟨h.accounts_within, h.disciplines_within, h.groups_within, h.researches_within,
    h.contents_within, h.reviews_within, h.witnesses_within⟩

end Operation.Effect

theorem Ledger.directory_deactivate (l : Ledger) (content : ContentId) :
    l.state.directory.Within (l.deactivate content).state.directory := by
  refine deactivate_preserves (P := fun l' => l.state.directory.Within l'.state.directory) ?_ ?_
  · intro l₁ id t _ h
    exact h.trans { Directory.Within.refl l₁.state.directory with discipline := Within.modify }
  · exact { Directory.Within.refl l.state.directory with content := Within.modify }

namespace State

theorem groups_afterShares_within (s : State) (block : Nat) (id : GrantId) (g : Grant)
    (shares : SortedMap GroupId Amount) :
    s.groups.Within (s.afterShares block id g shares).groups :=
  afterShares_preserves (P := fun t => s.groups.Within t.groups) (fun _ _ _ h => h.trans .modify)
    (fun _ _ h => h) (fun _ h => h) (fun _ _ h => h) .refl

theorem groups_applyReward_within (s : State) (now : Seconds) (p : RewardPlan) :
    s.groups.Within (s.applyReward now p).groups :=
  applyReward_preserves (P := fun t => s.groups.Within t.groups) (fun _ _ _ h => h)
    (fun _ _ _ h => h.trans .modify) (fun _ _ _ _ _ h => h) .refl

end State

theorem Upkeep.directory (h : Upkeep l l') : l.state.directory.Within l'.state.directory := by
  have ha := h.keepsStanding.within
  cases h with
  | @grant id g s' events _ h =>
    obtain rfl | ⟨shares, -, rfl⟩ := State.processGrant_ok h
    · exact .refl _
    · have hg := l.state.groups_afterShares_within l.head.block id g shares
      obtain ⟨_, _, _, he⟩ := l.state.afterShares_footprint l.head.block id g shares
      rw [he] at ha hg ⊢
      exact { Directory.Within.refl l.state.directory with account := ha, group := hg }
  | partners =>
    obtain ⟨_, _, he⟩ := State.changePartners_footprint l.state l.head.time
    rw [he] at ha ⊢
    exact { Directory.Within.refl l.state.directory with account := ha }
  | returns =>
    obtain ⟨_, _, he⟩ := State.returnDelegations_footprint l.state l.head.time
    rw [he] at ha ⊢
    exact { Directory.Within.refl l.state.directory with account := ha }
  | deactivation content => exact l.directory_deactivate content
  | _ => exact .refl _

namespace LedgerM

variable {amount deposit : Amount} {r : WithdrawRoute} {rs : List WithdrawRoute}

theorem RoutePaid.witnesses_within (h : RoutePaid amount r l deposit l') :
    l.state.witnesses.Within l'.state.witnesses := by
  cases h with
  | skip => exact .refl
  | stake =>
    intro n hn
    exact State.witnesses_applyProxyEffects _ _ n hn
  | balance => exact .refl

theorem payPowerDown_directory {name : AccountName} (h : payPowerDown name l = (.ok events, l')) :
    l.state.directory.Within l'.state.directory := by
  have ha := (payPowerDown_keepsNames h).within
  have hw : l.state.witnesses.Within l'.state.witnesses := by
    obtain ⟨a, l₁, routed, effects, -, -, hr, -, rfl⟩ := payPowerDown_ok h
    have h₁ : l.state.witnesses.Within l₁.state.witnesses :=
      hr.preserves (P := fun x => l.state.witnesses.Within x.state.witnesses)
        (fun _ _ _ _ h hw => hw.trans h.witnesses_within) .refl
    exact h₁.trans (State.witnesses_applyProxyEffects _ _)
  obtain ⟨_, _, _, rfl⟩ := payPowerDown_footprint h
  exact { Directory.Within.refl l.state.directory with account := ha, witness := hw }

end LedgerM

/-- What a record may name stays. -/
theorem Change.directory (h : Change l l') : l.state.directory.Within l'.state.directory := by
  cases h with
  | operation h => exact h.directory
  | @reward _ plan =>
    have ha := (State.applyReward_keepsNames l.state l.head.time plan).within
    have hg := l.state.groups_applyReward_within l.head.time plan
    obtain ⟨_, _, _, he⟩ := State.applyReward_footprint l.state l.head.time plan
    rw [he] at ha hg ⊢
    exact { Directory.Within.refl l.state.directory with account := ha, group := hg }
  | payment h => exact LedgerM.payPowerDown_directory h
  | upkeep h => exact h.directory

end ResearchLedger
