import ResearchLedger.Proofs.Bystander
import ResearchLedger.Proofs.History
import ResearchLedger.Proofs.StoredRewards

/-! Stake counts as expertise in the common discipline: every change of a ledger that gives an account
stake, or takes stake from it, does the same to its common expertise, and only the creation of an
account, the registrar and rewards give expertise beside it. -/
namespace ResearchLedger

variable {s s' s'' : State} {l l' : Ledger} {config : Config} {genesis : Genesis}
  {n k : AccountName} {e : DisciplineId} {x staked staked' given given' : Amount} {now : Seconds}

open SortedMap

theorem SortedMap.sumOf_at {κ : Type} [KeyOrder κ] [DecidableEq κ] (m : SortedMap κ Amount) (k : κ) :
    (m.sumOf fun k' x => if k' = k then x else 0) = m.getD k 0 := by
  rw [getD_eq]
  cases hk : m.get? k with
  | none => exact sumOf_eq_zero fun k' x hk' => if_neg fun he => by rw [he, hk] at hk'; cases hk'
  | some x =>
    rw [sumOf_eq_single hk fun k' _ _ hne => if_neg hne]
    exact if_pos rfl

namespace State

/-- The common expertise of an account, or zero. -/
def expertiseOf (s : State) (n : AccountName) : Amount :=
  ((s.expertToken? n commonDiscipline).map (·.amount)).getD 0

theorem expertiseOf_congr (h : s'.expertTokens = s.expertTokens) :
    s'.expertiseOf n = s.expertiseOf n := expertiseIn_congr h

theorem expertiseOf_creditExpertise : (s.creditExpertise k e x now).expertiseOf n =
    if k = n ∧ e = commonDiscipline then Amount.clamp (s.expertiseOf n + x)
    else s.expertiseOf n := expertiseIn_creditExpertise

theorem expertiseOf_spendPower {remaining : Nat} :
    (s.spendPower k e remaining now).expertiseOf n = s.expertiseOf n := by
  unfold expertiseOf spendPower
  rw [expertToken?_modifyExpertToken]
  split
  · rw [Option.map_map]
    rfl
  · rfl

theorem expertiseOf_debitExpertise (hx : 0 ≤ x) :
    (s.debitExpertise k commonDiscipline x).expertiseOf n =
      if k = n then max (s.expertiseOf n - x) 0 else s.expertiseOf n := by
  unfold expertiseOf debitExpertise
  rw [expertToken?_modifyExpertToken]
  by_cases hk : k = n
  · rw [if_pos ⟨hk, rfl⟩, if_pos hk]
    cases s.expertToken? n commonDiscipline with
    | none => exact (max_eq_right (by simpa using hx)).symm
    | some t => rfl
  · rw [if_neg fun h => hk h.1, if_neg hk]

theorem stakeOf_of_insert {a : Account} (h : s'.accounts = s.accounts.insert k a) :
    s'.stakeOf n = if k = n then a.commonTokens else s.stakeOf n := by
  rw [stakeOf_eq, stakeOf_eq, h, get?_insert]
  split <;> rfl

theorem stakeOf_stake (h : s.accounts.contains k = true) :
    (s.modifyAccount k (·.stake x)).stakeOf n =
      if k = n then Amount.clamp (s.stakeOf n + x) else s.stakeOf n := by
  rw [stakeOf_modifyAccount]
  split
  · subst k
    obtain ⟨a, ha⟩ := contains_iff.1 h
    rw [ha, stakeOf_of_get? ha]
    rfl
  · rfl

/-- The stake of an account counts as common expertise. -/
structure Mirrored (s : State) (n : AccountName) : Prop where
  stake_nonneg : 0 ≤ s.stakeOf n
  stake_le : s.stakeOf n ≤ s.expertiseOf n
  expertise_le : s.expertiseOf n ≤ Amount.max

/-- What an account has of common expertise beyond its stake. -/
def unstaked (s : State) (n : AccountName) : Amount := s.expertiseOf n - s.stakeOf n

/-- Whoever has stake has an expert token for it. -/
theorem Mirrored.token {a : Account} (h : s.Mirrored n) (ha : s.accounts.get? n = some a)
    (hpos : 0 < a.commonTokens) :
    ∃ t, s.expertToken? n commonDiscipline = some t ∧ a.commonTokens ≤ t.amount := by
  have hle := h.stake_le
  rw [stakeOf_of_get? ha, expertiseOf] at hle
  cases ht : s.expertToken? n commonDiscipline with
  | none =>
    rw [ht] at hle
    exact absurd hle (Int.not_le.2 hpos)
  | some t =>
    rw [ht] at hle
    exact ⟨t, rfl, hle⟩

/-- An account receives stake, which counts as expertise, and expertise beside it, as far as either
can be stored. -/
structure Grows (n : AccountName) (staked given : Amount) (s s' : State) : Prop where
  staked_nonneg : 0 ≤ staked
  given_nonneg : 0 ≤ given
  stake : s'.stakeOf n = min (s.stakeOf n + staked) Amount.max
  expertise : s'.expertiseOf n = min (s.expertiseOf n + (staked + given)) Amount.max

namespace Grows

theorem mirrored (h : Grows n staked given s s') (hs : s.Mirrored n) : s'.Mirrored n := by
  obtain ⟨h₁, h₂, h₃, h₄⟩ := h
  obtain ⟨h₅, h₆, h₇⟩ := hs
  have := Amount.max_nonneg
  constructor <;> lia

/-- Unless the end of the range is reached, only what is given beside the stake makes a difference. -/
theorem unstaked (h : Grows n staked given s s') (hs : s.Mirrored n)
    (hroom : s'.expertiseOf n < Amount.max) : s'.unstaked n = s.unstaked n + given := by
  obtain ⟨h₁, h₂, h₃, h₄⟩ := h
  have := hs.stake_le
  unfold State.unstaked
  lia

theorem of_eq (hs : s.Mirrored n) (hstake : s'.stakeOf n = s.stakeOf n)
    (hexpertise : s'.expertiseOf n = s.expertiseOf n) : Grows n 0 0 s s' where
  staked_nonneg := le_refl _
  given_nonneg := le_refl _
  stake := by rw [hstake, add_zero, min_eq_left (hs.stake_le.trans hs.expertise_le)]
  expertise := by rw [hexpertise, add_zero, add_zero, min_eq_left hs.expertise_le]

theorem refl (hs : s.Mirrored n) : Grows n 0 0 s s := of_eq hs rfl rfl

theorem trans (h : Grows n staked given s s') (h' : Grows n staked' given' s' s'') :
    Grows n (staked + staked') (given + given') s s'' := by
  obtain ⟨h₁, h₂, h₃, h₄⟩ := h
  obtain ⟨h₁', h₂', h₃', h₄'⟩ := h'
  constructor <;> lia

/-- Only stakes and expert tokens matter. -/
theorem congr (h : Grows n staked given s s') (hstake : s''.stakeOf n = s'.stakeOf n)
    (hexpertise : s''.expertiseOf n = s'.expertiseOf n) : Grows n staked given s s'' where
  staked_nonneg := h.staked_nonneg
  given_nonneg := h.given_nonneg
  stake := hstake.trans h.stake
  expertise := hexpertise.trans h.expertise

theorem applyProxyEffects (h : Grows n staked given s s') (effects : ProxyEffects) :
    Grows n staked given s (s'.applyProxyEffects effects) :=
  h.congr (stakeOf_applyProxyEffects ..) (expertiseOf_congr (by rw [applyProxyEffects_eq]))

theorem creditExpertise (k : AccountName) (e : DisciplineId) (now : Seconds) (hs : s.Mirrored n)
    (hx : 0 ≤ x) :
    Grows n 0 (if k = n ∧ e = commonDiscipline then x else 0) s (s.creditExpertise k e x now) := by
  have hexpertise : (s.creditExpertise k e x now).expertiseOf n = _ := expertiseOf_creditExpertise
  split
  · rw [if_pos ‹_›, Amount.clamp_of_nonneg
      (Int.add_nonneg (hs.stake_nonneg.trans hs.stake_le) hx)] at hexpertise
    exact { refl hs with given_nonneg := hx, expertise := by rw [hexpertise, zero_add] }
  · rw [if_neg ‹_›] at hexpertise
    exact of_eq hs rfl hexpertise

/-- Gifts of expertise add up. -/
theorem foldl_creditExpertise {α : Type} (name : α → AccountName) (d : α → DisciplineId)
    (amount : α → Amount) (now : Seconds) {xs : List α} (hs : s.Mirrored n)
    (hx : ∀ x ∈ xs, 0 ≤ amount x) :
    Grows n 0 (xs.map fun x => if name x = n ∧ d x = commonDiscipline then amount x else 0).sum s
      (xs.foldl (fun s x => s.creditExpertise (name x) (d x) (amount x) now) s) := by
  induction xs generalizing s with
  | nil => exact refl hs
  | cons x xs ih =>
    rw [List.forall_mem_cons] at hx
    have h := creditExpertise (name x) (d x) now hs hx.1
    rw [List.map_cons, List.sum_cons]
    exact h.trans (ih (h.mirrored hs) hx.2)

/-- New stake counts as expertise. -/
theorem stake_creditExpertise (now : Seconds) (hs : s.Mirrored n)
    (hk : s.accounts.contains k = true) (hx : 0 ≤ x) :
    Grows n (if k = n then x else 0) 0 s
      ((s.modifyAccount k (·.stake x)).creditExpertise k commonDiscipline x now) := by
  have hstake := stakeOf_stake (n := n) (x := x) hk
  have hexpertise : ((s.modifyAccount k (·.stake x)).creditExpertise k commonDiscipline x
      now).expertiseOf n = if k = n ∧ commonDiscipline = commonDiscipline then
        Amount.clamp (s.expertiseOf n + x) else s.expertiseOf n := expertiseOf_creditExpertise
  by_cases h : k = n
  · rw [if_pos h, Amount.clamp_of_nonneg (Int.add_nonneg hs.stake_nonneg hx)] at hstake
    rw [if_pos ⟨h, rfl⟩, Amount.clamp_of_nonneg
      (Int.add_nonneg (hs.stake_nonneg.trans hs.stake_le) hx)] at hexpertise
    rw [if_pos h]
    exact ⟨hx, le_refl _, hstake, by rw [hexpertise, add_zero]⟩
  · rw [if_neg h] at hstake
    rw [if_neg fun hk => h hk.1] at hexpertise
    rw [if_neg h]
    exact of_eq hs hstake hexpertise

theorem commitVotes {ps : List ContentVotePlan} (hs : l.state.Mirrored n) :
    Grows n 0 0 l.state (ps.foldl (fun l p => p.commit l) l).state := by
  induction ps generalizing l with
  | nil => exact refl hs
  | cons p ps ih =>
    have h : Grows n 0 0 l.state (p.commit l).state := of_eq hs rfl expertiseOf_spendPower
    exact h.trans (ih (h.mirrored hs))

theorem applyReward (hs : s.Mirrored n) {p : RewardPlan} (hp : p.Sound s) (now : Seconds) :
    Grows n 0 (p.expertise.getD (n, commonDiscipline) 0) s (s.applyReward now p) := by
  obtain ⟨groups, he⟩ := applyReward_eq s now p
  have hpaid : Grows n 0 0 s { s with
      accounts := p.balances.entries.foldl (fun m x => m.modify x.1 (·.credit x.2)) s.accounts
      groups } :=
    of_eq hs (stakeOf_congr (.foldl_modify (g := fun (x : AccountName × Amount) a => a.credit x.2)
      (fun _ _ => rfl) _ .refl)) rfl
  have hgiven := foldl_creditExpertise (α := (AccountName × DisciplineId) × Amount) (·.1.1) (·.1.2)
    (·.2) now (hpaid.mirrored hs) fun x hx => hp.expertise _ _ (mem_entries_iff.1 hx)
  have hsum : (p.expertise.entries.map fun x =>
      if x.1.1 = n ∧ x.1.2 = commonDiscipline then x.2 else 0).sum =
        p.expertise.getD (n, commonDiscipline) 0 := by
    rw [← sumOf_at]
    simp only [Prod.ext_iff]
    rfl
  rw [hsum] at hgiven
  have h := hpaid.trans hgiven
  rw [add_zero, zero_add, ← he] at h
  exact h

end Grows

/-- Stake and expertise of an account fall by the same amount, which is no more than the stake. -/
structure Shrinks (n : AccountName) (taken : Amount) (s s' : State) : Prop where
  taken_nonneg : 0 ≤ taken
  taken_le : taken ≤ s.stakeOf n
  stake : s'.stakeOf n = s.stakeOf n - taken
  expertise : s'.expertiseOf n = s.expertiseOf n - taken

namespace Shrinks

variable {taken : Amount}

theorem mirrored (h : Shrinks n taken s s') (hs : s.Mirrored n) : s'.Mirrored n := by
  obtain ⟨h₁, h₂, h₃, h₄⟩ := h
  obtain ⟨h₅, h₆, h₇⟩ := hs
  constructor <;> lia

theorem unstaked (h : Shrinks n taken s s') : s'.unstaked n = s.unstaked n := by
  unfold State.unstaked
  rw [h.stake, h.expertise, sub_sub_sub_cancel_right]

end Shrinks

end State

/-- A new account starts without stake, and with the fee as expertise. -/
theorem AccountCreate.grows {op : AccountCreate} {u : Unit} (hs : s.Mirrored n)
    (h : op.check s = .ok u) :
    State.Grows n 0 (if op.name = n then max op.fee.amount 0 else 0) s (op.commit now s) := by
  have hpaid : (s.debit op.creator op.fee.amount).stakeOf n = s.stakeOf n :=
    State.stakeOf_congr (.modify_self fun _ => rfl)
  have hmade : State.Grows n 0 0 s { s.debit op.creator op.fee.amount with
      accounts := (s.debit op.creator op.fee.amount).accounts.insert op.name (op.account now)
      authorities :=
        s.authorities.insert op.name ⟨op.name, op.owner, op.active, op.posting, 0⟩ } := by
    refine .of_eq hs ?_ rfl
    rw [State.stakeOf_of_insert rfl, hpaid]
    split
    · subst n
      rw [← hpaid, State.stakeOf_eq, get?_debit h]
      rfl
    · rfl
  by_cases hfee : 0 < op.fee.amount
  · have hgiven := State.Grows.creditExpertise op.name commonDiscipline now (hmade.mirrored hs) hfee.le
    simp only [and_true, max_eq_left hfee.le] at hgiven ⊢
    have h := hmade.trans hgiven
    rw [add_zero, zero_add] at h
    rw [commit, if_pos hfee]
    exact h
  · rw [max_eq_right (not_lt.1 hfee), ite_self, commit, if_neg hfee]
    exact hmade

namespace Operation

/-- The part of a fee that becomes expertise of a new account. -/
def creationFee (n : AccountName) : Operation → Amount
  | accountCreate op => if op.name = n then max op.fee.amount 0 else 0
  | _ => 0

/-- The common expertise that the registrar adds to an account. -/
def registrarGrant (n : AccountName) : Operation → Amount
  | addExpertise op => (op.additions.map fun x =>
      if op.account = n ∧ x.1 = commonDiscipline then x.2 else 0).sum
  | _ => 0

/-- The common expertise that an account is given by an operation. -/
def expertiseGift (n : AccountName) (op : Operation) : Amount := op.creationFee n + op.registrarGrant n

theorem Effect.stakeOf_eq {op : Operation} (h : op.Effect l l') (hc : ∀ c, op ≠ .accountCreate c)
    (ht : ∀ t, op ≠ .transferToCommonTokens t) : l'.state.stakeOf n = l.state.stakeOf n := by
  cases op with
  | accountCreate => exact absurd rfl (hc _)
  | transferToCommonTokens => exact absurd rfl (ht _)
  | setWitnessProxy => exact State.stakeOf_keepsCore (h.keepsCore rfl) n
  | _ => exact State.stakeOf_congr ((h.keepsStanding rfl).map fun x => x.2.1)

/-- Operations give stake together with expertise, and expertise beside it only as gifts. -/
theorem Effect.grows {op : Operation} (h : op.Effect l l') (hs : l.state.Mirrored n) :
    ∃ staked, State.Grows n staked (op.expertiseGift n) l.state l'.state := by
  have hstake := h.stakeOf_eq (n := n)
  cases op with
  | accountCreate op =>
    cases h with | accountCreate hc =>
    refine ⟨0, ?_⟩
    change State.Grows n 0 (_ + 0) _ _
    rw [add_zero]
    exact AccountCreate.grows hs hc
  | transferToCommonTokens op =>
    cases h with | transferToCommonTokens hc =>
    obtain ⟨hp, ⟨b, hb, -⟩, -, -⟩ := TransferToCommonTokens.plan_ok hc
    have hpaid : State.Grows n 0 0 l.state (l.state.debit op.sender op.amount.amount) :=
      .of_eq hs (State.stakeOf_congr (.modify_self fun _ => rfl)) rfl
    have hstaked := State.Grows.stake_creditExpertise l.head.time (hpaid.mirrored hs)
      (contains_modify.trans (contains_of_get? hb)) hp.le
    exact ⟨_, (hpaid.trans hstaked).applyProxyEffects _⟩
  | addExpertise op =>
    cases h with | addExpertise hc =>
    refine ⟨0, ?_⟩
    have hadded := State.Grows.foldl_creditExpertise (fun _ => op.account) (·.1) (·.2) l.head.time
      hs fun x hx => ((AddExpertise.check_ok hc).2 x hx).2.le
    change State.Grows n 0 (0 + _) _ _
    rw [zero_add]
    exact hadded
  | voteForContent | voteForReview =>
    cases h
    exact ⟨0, .of_eq hs rfl State.expertiseOf_spendPower⟩
  | makeReview =>
    cases h with | @makeReview _ plan _ =>
    have hrecord : State.Grows n 0 0 l.state (plan.record l).state := .of_eq hs rfl rfl
    exact ⟨_, hrecord.trans (.commitVotes (hrecord.mirrored hs))⟩
  | _ =>
    refine ⟨0, .of_eq hs (hstake (fun _ h => by cases h) fun _ h => by cases h) ?_⟩
    cases h.footprint
    rfl

end Operation

namespace LedgerM

variable {amount deposit : Amount} {r : WithdrawRoute} {rs : List WithdrawRoute}
  {events : List Event} {name : AccountName}

theorem RoutePaid.grows (h : RoutePaid amount r l deposit l')
    (hc : l.state.accounts.contains r.target = true) (hs : l.state.Mirrored n) :
    ∃ staked, State.Grows n staked 0 l.state l'.state := by
  cases h with
  | skip => exact ⟨0, .refl hs⟩
  | stake _ hp =>
    exact ⟨_, (State.Grows.stake_creditExpertise _ hs hc hp.le).applyProxyEffects _⟩
  | balance => exact ⟨0, .of_eq hs State.stakeOf_credit rfl⟩

theorem RoutesPaid.grows (h : RoutesPaid amount rs l deposit l')
    (hc : ∀ r ∈ rs, l.state.accounts.contains r.target = true) (hs : l.state.Mirrored n) :
    ∃ staked, State.Grows n staked 0 l.state l'.state := by
  induction h with
  | nil => exact ⟨0, .refl hs⟩
  | cons h _ ih =>
    rw [List.forall_mem_cons] at hc
    obtain ⟨staked, h₁⟩ := h.grows hc.1 hs
    obtain ⟨staked', h₂⟩ := ih (fun r hr => h.keepsNames.contains.trans (hc.2 r hr)) (h₁.mirrored hs)
    exact ⟨_, h₁.trans h₂⟩

/-- What is taken in a settlement is taken from stake and expertise alike. -/
theorem settle_shrinks {effects : ProxyEffects} {rest : Amount}
    (hc : s.accounts.contains name = true) (h₀ : 0 ≤ amount) (hle : amount ≤ s.stakeOf name)
    (hs : s.Mirrored n) :
    State.Shrinks n (if name = n then amount else 0) s (settle s name effects amount rest) := by
  have hstake : (settle s name effects amount rest).stakeOf n =
      if name = n then s.stakeOf n - amount else s.stakeOf n := by
    have hpaid : (((s.applyProxyEffects effects).debitExpertise name commonDiscipline amount).credit
        name rest).stakeOf n = s.stakeOf n :=
      State.stakeOf_credit.trans (State.stakeOf_applyProxyEffects s effects n)
    unfold settle
    dsimp only
    rw [State.stakeOf_modifyAccount]
    split
    · subst n
      obtain ⟨a, ha⟩ := contains_iff.1 (contains_modify (k := name) (f := (·.credit rest)).trans
        ((State.applyProxyEffects_keepsCore (s := s) effects).contains.trans hc))
      rw [← hpaid, State.stakeOf_of_get? ha]
      exact congrArg (fun o => (o.map fun a => a.commonTokens - amount).getD 0) ha
    · exact hpaid
  have hexpertise : (settle s name effects amount rest).expertiseOf n =
      if name = n then max (s.expertiseOf n - amount) 0 else s.expertiseOf n := by
    have happlied : (s.applyProxyEffects effects).expertiseOf n = s.expertiseOf n :=
      State.expertiseOf_congr (by rw [State.applyProxyEffects_eq])
    rw [← happlied]
    exact State.expertiseOf_debitExpertise h₀
  split
  · subst n
    rw [if_pos rfl] at hstake hexpertise
    rw [max_eq_left (Int.sub_nonneg_of_le (hle.trans hs.stake_le))] at hexpertise
    exact ⟨h₀, hle, hstake, hexpertise⟩
  · rw [if_neg ‹_›] at hstake hexpertise
    exact ⟨le_refl _, hs.stake_nonneg, by rw [hstake, sub_zero], by rw [hexpertise, sub_zero]⟩

/-- A payment lets its routes give stake, and then takes it from the stake and the expertise of its
source. -/
theorem payPowerDown_mirrors (h : payPowerDown name l = (.ok events, l')) (hl : l.Sound)
    (hs : l.state.Mirrored n) : ∃ a, l.state.accounts.get? name = some a ∧
      (∃ staked, State.Grows n staked 0 l.state (midPayment l name).state) ∧
      State.Shrinks n (if name = n then a.nextPayment else 0) (midPayment l name).state l'.state := by
  obtain ⟨a, l₁, routed, effects, ha, rfl, hr, -, rfl⟩ := payPowerDown_ok h
  obtain ⟨staked, hgrown⟩ := hr.grows (hl.linked.routeTargets name) hs
  have hstake := (hr.solvent hl.solvent.accounts).2 name
  obtain ⟨h₀, hle⟩ := (hl.solvent.accounts _ _ ha).nextPayment
  rw [State.stakeOf_of_get? ha] at hstake
  exact ⟨a, ha, ⟨staked, hgrown⟩, settle_shrinks (hr.keepsNames.contains.trans (contains_of_get? ha))
    h₀ (hle.trans hstake) (hgrown.mirrored hs)⟩

end LedgerM

theorem Upkeep.mirrors (h : Upkeep l l') : l'.state.stakeOf n = l.state.stakeOf n ∧
    l'.state.expertiseOf n = l.state.expertiseOf n := by
  refine ⟨State.stakeOf_congr (h.keepsStanding.map fun x => x.2.1), State.expertiseOf_congr ?_⟩
  cases h.footprint with
  | deactivation content =>
    obtain ⟨_, _, _, _, he⟩ := Ledger.deactivate_footprint l content
    rw [he]
  | rest => rfl

theorem Upkeeps.mirrors (h : Upkeeps l l') : l'.state.stakeOf n = l.state.stakeOf n ∧
    l'.state.expertiseOf n = l.state.expertiseOf n := by
  induction h with
  | refl => exact ⟨rfl, rfl⟩
  | tail _ h ih => exact ⟨h.mirrors.1.trans ih.1, h.mirrors.2.trans ih.2⟩

theorem Change.mirrored (h : Change l l') (hl : l.Sound) (hs : l.state.Mirrored n) :
    l'.state.Mirrored n := by
  cases h with
  | operation h =>
    obtain ⟨_, h⟩ := h.grows hs
    exact h.mirrored hs
  | reward h =>
    have hp := (h.sound hl.linked hl.apportioned hl.balanced).1
    exact (State.Grows.applyReward hs hp _).mirrored hs
  | payment h =>
    obtain ⟨_, -, ⟨_, hgrown⟩, hpaid⟩ := LedgerM.payPowerDown_mirrors h hl hs
    exact hpaid.mirrored (hgrown.mirrored hs)
  | upkeep h => exact (State.Grows.of_eq hs h.mirrors.1 h.mirrors.2).mirrored hs

/-- A genesis gives its accounts as much expertise as stake. -/
theorem State.mirrored_ofGenesis (h : ofGenesis config genesis = .ok s) (hg : genesis.Storable)
    (n : AccountName) : s.Mirrored n ∧ s.unstaked n = 0 := by
  suffices hs : 0 ≤ s.stakeOf n ∧ s.stakeOf n ≤ Amount.max ∧ s.expertiseOf n = s.stakeOf n from
    ⟨⟨hs.1, hs.2.2.ge, hs.2.2.trans_le hs.2.1⟩, Int.sub_eq_zero.2 hs.2.2⟩
  refine ofGenesis_invariant (P := fun s => 0 ≤ s.stakeOf n ∧ s.stakeOf n ≤ Amount.max ∧
    s.expertiseOf n = s.stakeOf n) h (fun _ => ⟨le_refl _, Amount.max_nonneg, rfl⟩)
    fun s s' hc hs => ?_
  cases hc with
  | discipline | witness => exact hs
  | @account g hmem hfree _ hct tokens he =>
    have hnone : g.name = n → s.expertiseOf n = 0 := by
      rintro rfl
      rw [hs.2.2, stakeOf_eq, contains_eq_false_iff.1 hfree]
      rfl
    -- The expertise is left out only for an account without stake, and then makes no difference.
    have hexpertise (s' : State) (h' : s'.expertTokens = tokens) :
        s'.expertiseOf n = if g.name = n then g.commonTokens else s.expertiseOf n := by
      by_cases hn : g.name = n
      · rw [if_pos hn]
        rcases he with ⟨hzero, rfl⟩ | rfl <;> rw [expertiseOf_congr h']
        · rw [hnone hn, hzero]
        · rw [expertiseOf_creditExpertise, if_pos ⟨hn, rfl⟩, hnone hn, zero_add,
            Amount.clamp_of_le hct (hg g hmem).2]
      · rw [if_neg hn]
        rcases he with ⟨-, rfl⟩ | rfl <;> rw [expertiseOf_congr h']
        rw [expertiseOf_creditExpertise, if_neg fun h => hn h.1]
    rw [stakeOf_of_insert rfl, hexpertise _ rfl]
    split
    · exact ⟨hct, (hg g hmem).2, rfl⟩
    · exact hs

end ResearchLedger
