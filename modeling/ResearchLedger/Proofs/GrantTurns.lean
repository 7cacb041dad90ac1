import ResearchLedger.Proofs.BlockEnd
import ResearchLedger.Proofs.RewardPass

/-! The turn of a grant. The parts of the groups come to no more than the payout, so each of them is paid
in full, and what is left is held on or returns to the owner. -/
namespace ResearchLedger

open SortedMap

variable {s : State} {l l' : Ledger} {id : GrantId} {g : Grant} {events : List Event}
  {payout : Amount} {d : Discipline} {shares shares' : SortedMap GroupId Amount}

/-- What the parts of all groups come to. -/
def SortedMap.totalParts (shares : SortedMap GroupId Amount) : Amount := shares.sumOf fun _ part => part

namespace State

/-- What a content adds to the parts is no more than its part by weight. -/
theorem addGrantShare_le {content : ContentId} {t : VoteTotals}
    (h : s.addGrantShare d payout shares content t = .ok shares') (h₀ : 0 ≤ payout)
    (hm : payout ≤ Amount.max) (hle : t.activeWeight ≤ d.activeWeight) (hb : d.activeWeight ≤ maxWord)
    (hp : shares.All fun _ part => 0 < part) : (shares'.All fun _ part => 0 < part) ∧
      shares'.totalParts ≤ shares.totalParts + part payout t.activeWeight d.activeWeight := by
  have hpart := part_nonneg (n := t.activeWeight) (d := d.activeWeight) h₀
  have hsame : (shares.All fun _ part => 0 < part) ∧
      shares.totalParts ≤ shares.totalParts + part payout t.activeWeight d.activeWeight :=
    ⟨hp, Int.le_add_of_nonneg_right hpart⟩
  unfold addGrantShare at h
  split at h
  · cases h; exact hsame
  · obtain ⟨c, -, h⟩ := bind_eq_ok.1 h
    split at h
    · cases h; exact hsame
    · rw [share_eq h₀ hm hle ((hle.trans hb).trans (by decide)), ok_bind] at h
      split at h
      · cases h; exact hsame
      · obtain ⟨r, -, h⟩ := bind_eq_ok.1 h
        cases h
        have hheld := (getD_le_sumOf (hp.mono fun _ _ h => h.le) r.group).1
        exact ⟨hp.insert (by lia), (sumOf_raise shares r.group _).le⟩

/-- The parts of the groups are more than nothing and come to no more than the payout. -/
theorem grantShares_le {id : DisciplineId} (hl : l.Balanced)
    (h : l.state.grantShares id payout = .ok shares) (h₀ : 0 ≤ payout) (hm : payout ≤ Amount.max) :
    (shares.All fun _ part => 0 < part) ∧ shares.totalParts ≤ payout := by
  have fold {d : Discipline} (hb : d.activeWeight ≤ maxWord) {xs : List (ContentId × VoteTotals)}
      (hxs : ∀ x ∈ xs, x.2.activeWeight ≤ d.activeWeight) {before after : SortedMap GroupId Amount}
      (hp : before.All fun _ part => 0 < part) (h : xs.foldlM
        (fun shares x => l.state.addGrantShare d payout shares x.1 x.2) before = .ok after) :
      (after.All fun _ part => 0 < part) ∧ after.totalParts ≤ before.totalParts +
        (xs.map fun x => part payout x.2.activeWeight d.activeWeight).sum := by
    induction xs generalizing before with
    | nil => cases h; exact ⟨hp, (add_zero _).ge⟩
    | cons x xs ih =>
      rw [List.forall_mem_cons] at hxs
      obtain ⟨mid, hx, h⟩ := foldlM_eq_ok_cons.1 h
      obtain ⟨hmid, hadd⟩ := addGrantShare_le hx h₀ hm hxs.1 hb hp
      obtain ⟨hafter, hrest⟩ := ih hxs.2 hmid h
      rw [List.map_cons, List.sum_cons]
      exact ⟨hafter, by linarith⟩
  unfold grantShares at h
  obtain ⟨d, hd, h⟩ := bind_eq_ok.1 h
  split at h
  · cases h; exact ⟨.empty, h₀⟩
  · -- The weight that is divided by counts all contents, those too that have no part.
    have hweight : ((l.state.votedIn id).map fun x => x.2.activeWeight).sum = d.activeWeight := by
      rw [sum_votedIn, hl.weighed.disciplines _ _ (discipline_eq_ok.1 hd)]
    have hb : d.activeWeight ≤ maxWord := by
      refine le_trans ?_ hl.weighed.head_le
      rw [hl.weighed.head]
      exact le_sumOf (f := fun _ (d : Discipline) => d.activeWeight) (fun _ _ _ => Nat.zero_le _)
        (discipline_eq_ok.1 hd)
    have hxs : ∀ x ∈ l.state.votedIn id, x.2.activeWeight ≤ d.activeWeight := fun x hx =>
      hweight ▸ List.single_le_sum (by simp) _ (List.mem_map_of_mem hx)
    obtain ⟨hpos, hle⟩ := fold hb hxs .empty h
    have hsum := sum_part_le (d := d.activeWeight) (fun x : ContentId × VoteTotals => x.2.activeWeight)
      (l.state.votedIn id) h₀
    rw [hweight] at hsum
    exact ⟨hpos, hle.trans ((zero_add _).trans_le (hsum.trans (part_le h₀ le_rfl)))⟩

/-- Parts that the money of the grant covers are paid in full. -/
theorem payShares_full {shares : List (GroupId × Amount)} {remaining : Amount}
    (hp : ∀ x ∈ shares, 0 < x.2) (hle : (shares.map (·.2)).sum ≤ remaining) :
    payShares id s remaining shares =
      (shares.foldl (fun s x => s.creditGroup x.1 x.2) s, remaining - (shares.map (·.2)).sum,
        shares.map fun x => .grantPaid id x.1 x.2) := by
  induction shares generalizing s remaining with
  | nil => simp [payShares]
  | cons x shares ih =>
    rw [List.forall_mem_cons] at hp
    rw [List.map_cons, List.sum_cons] at hle
    have hrest : 0 ≤ (shares.map (·.2)).sum := sum_map_nonneg fun y hy => (hp.2 y hy).le
    have hmin : min x.2 remaining = x.2 := min_eq_left (by linarith)
    rw [payShares, hmin, if_neg (not_le.2 hp.1), ih hp.2 (by linarith), List.map_cons, List.sum_cons,
      sub_add_eq_sub_sub]
    rfl

end State

namespace Grant

/-- A grant that still holds money and pays something in each of its blocks. -/
structure Funded (g : Grant) : Prop where
  amount : 0 < g.amount
  perBlock : 0 < g.perBlock

/-- Whether a grant ends with a block in which it has paid so much. -/
def Ends (g : Grant) (block : Nat) (paid : Amount) : Prop := g.endBlock ≤ block ∨ paid = g.amount

instance (g : Grant) (block : Nat) (paid : Amount) : Decidable (g.Ends block paid) := by
  unfold Ends
  infer_instance

/-- The turn of a grant: in its blocks it pays the parts of the groups in full, and no more than one
block may pay; at its end the rest returns to its owner, and else it is held. -/
structure Turn (g : Grant) (id : GrantId) (l : Ledger) (shares : SortedMap GroupId Amount)
    (events : List Event) (l' : Ledger) : Prop where
  granted : LedgerM.processGrant id l = (.ok events, l')
  due : g.startBlock ≤ l.head.block ∧ l.head.block ≤ g.endBlock →
    l.state.grantShares g.discipline g.payout = .ok shares
  idle : l.head.block < g.startBlock ∨ g.endBlock < l.head.block → shares = ∅
  positive : shares.All fun _ part => 0 < part
  paid_le : shares.totalParts ≤ min g.perBlock g.amount
  events_eq : events = (shares.entries.map fun x => .grantPaid id x.1 x.2) ++
    if g.Ends l.head.block shares.totalParts then
      [.grantFinished id g.owner (g.amount - shares.totalParts)] else []
  stored : l'.state.grants.get? id = if g.Ends l.head.block shares.totalParts then none
    else some { g with amount := g.amount - shares.totalParts }
  refunded : l'.state.balanceOf g.owner = if g.Ends l.head.block shares.totalParts then
    Amount.clamp (l.state.balanceOf g.owner + (g.amount - shares.totalParts))
    else l.state.balanceOf g.owner

theorem isOver_eq (g : Grant) (block : Nat) (paid : Amount) (hle : paid ≤ g.amount) :
    g.isOver block (g.amount - paid) = decide (g.Ends block paid) := by
  unfold isOver Ends
  refine decide_eq_decide.2 (or_congr_right ?_)
  constructor <;> intro <;> linarith

end Grant

/-- Every grant still holds money. -/
def State.GrantsFunded (s : State) : Prop := s.grants.All fun _ g => g.Funded

/-- All that the turns of grants rely on. -/
structure Ledger.Granting (l : Ledger) : Prop extends l.Ready where
  funded : l.state.GrantsFunded

section Funded

variable {op : CreateGrant} {block : Nat}

theorem CreateGrant.plan_funded (h : op.plan block s = .ok g) : g.Funded := by
  refine ⟨(plan_ok h).2.2.1, ?_⟩
  unfold plan at h
  obtain ⟨_, -, h⟩ := bind_eq_ok.1 h
  obtain ⟨-, h⟩ := guard_bind_eq_ok.1 h
  obtain ⟨_, -, h⟩ := bind_eq_ok.1 h
  obtain ⟨-, h⟩ := guard_bind_eq_ok.1 h
  obtain ⟨_, -, h⟩ := bind_eq_ok.1 h
  cases h
  exact lt_of_lt_of_le Int.one_pos (le_max_right _ _)

/-- A grant that goes on has something left. -/
theorem State.GrantsFunded.afterShares (hs : s.GrantsFunded) (shares : SortedMap GroupId Amount) :
    (s.afterShares block id g shares).GrantsFunded := by
  obtain ⟨groups, hp⟩ := payShares_footprint id shares.entries s g.amount
  unfold State.afterShares finishGrant
  generalize payShares id s g.amount shares.entries = paid at hp ⊢
  obtain ⟨s₁, rest, events⟩ := paid
  subst hp
  dsimp only
  split
  · split <;> exact hs.erase
  · have hover : ¬ (g.isOver block rest = true) := ‹_›
    unfold Grant.isOver at hover
    rw [decide_eq_true_eq, not_or] at hover
    exact hs.modify fun _ hg => ⟨not_le.1 hover.2, hg.perBlock⟩

theorem Change.grantsFunded (h : Change l l') (hs : l.state.GrantsFunded) : l'.state.GrantsFunded := by
  cases h with
  | @operation op _ h =>
    cases op with
    | createGrant op =>
      cases h with | createGrant hp =>
      exact hs.insert (CreateGrant.plan_funded hp)
    | _ => cases h.footprint; exact hs
  | @reward _ plan =>
    obtain ⟨_, _, _, he⟩ := State.applyReward_footprint l.state l.head.time plan
    rw [he]
    exact hs
  | payment h => obtain ⟨_, _, _, rfl⟩ := LedgerM.payPowerDown_footprint h; exact hs
  | upkeep h =>
    cases h with
    | grant hg h =>
      obtain rfl | ⟨shares, -, rfl⟩ := State.processGrant_ok h
      · exact hs
      · exact hs.afterShares _
    | requests | history | proposals | clock => exact hs
    | partners =>
      obtain ⟨_, _, he⟩ := State.changePartners_footprint l.state l.head.time
      rw [he]
      exact hs
    | returns =>
      obtain ⟨_, _, he⟩ := State.returnDelegations_footprint l.state l.head.time
      rw [he]
      exact hs
    | deactivation content =>
      obtain ⟨_, _, _, _, he⟩ := Ledger.deactivate_footprint l content
      rw [he]
      exact hs

theorem Change.granting (h : Change l l') (hl : l.Granting) : l'.Granting :=
  ⟨h.ready hl.toReady, h.grantsFunded hl.funded⟩

theorem Upkeeps.granting (h : Upkeeps l l') (hl : l.Granting) : l'.Granting :=
  h.invariant (fun _ _ => Change.granting) hl

theorem Ledger.Reachable.granting {config : Config} {genesis : Genesis}
    (h : l.Reachable config genesis) (hg : genesis.Storable) : l.Granting := by
  refine ⟨h.ready hg, h.invariant (fun l₀ h₀ => ?_) fun _ _ => Change.grantsFunded⟩
  refine State.ofGenesis_invariant (P := State.GrantsFunded) (ofGenesis_ok h₀).1 (fun _ => .empty) ?_
  exact fun _ _ hc hs => by cases hc <;> exact hs

end Funded

namespace State

variable {block : Nat}

/-- A credit to an existing account, as far as it can be stored. -/
theorem balanceOf_credit {m : AccountName} {x : Amount} (hm : s.accounts.contains m = true)
    (n : AccountName) : (s.credit m x).balanceOf n =
      if m = n then Amount.clamp (s.balanceOf n + x) else s.balanceOf n := by
  obtain ⟨a, ha⟩ := contains_iff.1 hm
  rw [balanceOf_eq, balanceOf_eq, credit, modifyAccount, get?_modify]
  split
  · subst n
    rw [ha]
    rfl
  · rfl

/-- The groups have their parts of a payout. -/
def payGroups (s : State) (shares : SortedMap GroupId Amount) : State :=
  shares.entries.foldl (fun s x => s.creditGroup x.1 x.2) s

theorem payGroups_footprint (s : State) (shares : SortedMap GroupId Amount) :
    ∃ groups, s.payGroups shares = { s with groups } :=
  foldl_creditGroup (α := GroupId × Amount) (·.1) (·.2) shares.entries s

theorem payShares_entries (hp : shares.All fun _ part => 0 < part)
    (hle : shares.totalParts ≤ g.amount) :
    payShares id s g.amount shares.entries = (s.payGroups shares, g.amount - shares.totalParts,
      shares.entries.map fun x => .grantPaid id x.1 x.2) :=
  payShares_full (fun _ hx => hp _ _ (mem_entries_iff.1 hx)) hle

/-- A grant that has paid parts in full ends, or is held on. -/
def afterTurn (s : State) (block : Nat) (id : GrantId) (g : Grant) (shares : SortedMap GroupId Amount) :
    State :=
  if g.Ends block shares.totalParts then
    (s.payGroups shares).finishGrant id g.owner (g.amount - shares.totalParts)
  else (s.payGroups shares).keepGrant id (g.amount - shares.totalParts)

/-- A grant waits for its first block, or it pays parts in full. -/
theorem processGrant_cases (hl : l.Granting) (hg : l.state.grants.get? id = some g)
    (h : l.state.processGrant block id g = .ok (s, events)) :
    (block < g.startBlock ∧ s = l.state ∧ events = []) ∨ ∃ shares,
      g.startBlock ≤ block ∧
      (block ≤ g.endBlock → l.state.grantShares g.discipline g.payout = .ok shares) ∧
      (g.endBlock < block → shares = ∅) ∧ (shares.All fun _ part => 0 < part) ∧
      shares.totalParts ≤ g.payout ∧ s = l.state.afterTurn block id g shares ∧
      events = (shares.entries.map fun x => .grantPaid id x.1 x.2) ++
        if g.Ends block shares.totalParts then
          [.grantFinished id g.owner (g.amount - shares.totalParts)] else [] := by
  obtain ⟨hamount, hper⟩ := hl.funded _ _ hg
  have hpayout : 0 < g.payout := lt_min hper hamount
  have hmax : g.payout ≤ Amount.max := (min_le_right _ _).trans (hl.scheduled.grants _ _ hg).1
  unfold processGrant at h
  split at h
  · cases h
    exact .inl ⟨‹_›, rfl, rfl⟩
  · right
    extract_lets pay at h
    obtain ⟨shares, hdue, hidle, ⟨hpos, hle⟩, h⟩ : ∃ shares,
        (block ≤ g.endBlock → l.state.grantShares g.discipline g.payout = .ok shares) ∧
        (g.endBlock < block → shares = ∅) ∧
        ((shares.All fun _ part => 0 < part) ∧ shares.totalParts ≤ g.payout) ∧
        pay shares = .ok (s, events) := by
      have hpays : g.pays block = true ↔ block ≤ g.endBlock :=
        decide_eq_true_iff.trans (and_iff_left hamount)
      by_cases hin : block ≤ g.endBlock
      · rw [if_pos (hpays.2 hin)] at h
        obtain ⟨shares, hshares, h⟩ := bind_eq_ok.1 h
        exact ⟨shares, fun _ => hshares, fun hout => absurd hin (not_le.2 hout),
          grantShares_le hl.sound.balanced hshares hpayout.le hmax, h⟩
      · rw [if_neg (mt hpays.1 hin)] at h
        exact ⟨∅, fun h => absurd h hin, fun _ => rfl, ⟨.empty, hpayout.le⟩, h⟩
    have hrest : shares.totalParts ≤ g.amount := hle.trans (min_le_right _ _)
    refine ⟨shares, not_lt.1 ‹_›, hdue, hidle, hpos, hle, ?_⟩
    dsimp only [pay] at h
    rw [payShares_entries hpos hrest] at h
    dsimp only at h
    rw [g.isOver_eq block _ hrest, max_eq_left (Int.sub_nonneg_of_le hrest)] at h
    unfold afterTurn
    by_cases hends : g.Ends block shares.totalParts
    · rw [if_pos (decide_eq_true hends)] at h
      cases h
      rw [if_pos hends, if_pos hends]
      exact ⟨rfl, rfl⟩
    · rw [if_neg (by simpa using hends)] at h
      cases h
      rw [if_neg hends, if_neg hends, List.append_nil]
      exact ⟨rfl, rfl⟩

/-- The grant itself after its turn, and what its owner has. -/
theorem afterTurn_own (block : Nat) (hg : s.grants.get? id = some g)
    (ho : s.accounts.contains g.owner = true)
    (hb : Amount.clamp (s.balanceOf g.owner) = s.balanceOf g.owner)
    (hle : shares.totalParts ≤ g.amount) :
    (s.afterTurn block id g shares).grants.get? id = (if g.Ends block shares.totalParts then none
      else some { g with amount := g.amount - shares.totalParts }) ∧
    (s.afterTurn block id g shares).balanceOf g.owner = if g.Ends block shares.totalParts then
      Amount.clamp (s.balanceOf g.owner + (g.amount - shares.totalParts)) else s.balanceOf g.owner := by
  obtain ⟨groups, hpaid⟩ := s.payGroups_footprint shares
  unfold afterTurn
  rw [hpaid]
  split
  · unfold finishGrant
    dsimp only
    split
    · exact ⟨get?_erase_self, (balanceOf_credit ho _).trans (if_pos rfl)⟩
    · have hzero : g.amount - shares.totalParts = 0 := by linarith
      rw [hzero, add_zero, hb]
      exact ⟨get?_erase_self, rfl⟩
  · refine ⟨?_, rfl⟩
    change (s.grants.modify id _).get? id = _
    rw [get?_modify_self, hg]
    rfl

end State

namespace LedgerM

/-- The turn of a grant is as it should be. -/
theorem processGrant_turn (hl : l.Granting) (hg : l.state.grants.get? id = some g)
    (h : processGrant id l = (.ok events, l')) : ∃ shares, g.Turn id l shares events l' := by
  obtain ⟨hamount, hper⟩ := hl.funded _ _ hg
  obtain ⟨-, hrange, -⟩ := hl.scheduled.grants _ _ hg
  have ho := (hl.sound.linked.grants _ _ hg).2
  have hb : Amount.clamp (l.state.balanceOf g.owner) = l.state.balanceOf g.owner := by
    obtain ⟨a, ha⟩ := contains_iff.1 ho
    rw [State.balanceOf_eq, ha]
    exact Amount.clamp_of_le (hl.sound.solvent.accounts _ _ ha).balance
      (hl.scheduled.accounts _ _ ha).balance_le
  obtain ⟨g', s, hg', hp, rfl⟩ := processGrant_eq_ok.1 h
  obtain rfl := Option.some.inj (hg.symm.trans hg')
  obtain ⟨hwait, rfl, rfl⟩ | ⟨shares, hstart, hdue, hidle, hpos, hle, rfl, rfl⟩ :=
    State.processGrant_cases hl hg hp
  · -- A grant that waits has paid nothing, and its last block is still to come.
    have hgoes : ¬ g.Ends l.head.block (∅ : SortedMap GroupId Amount).totalParts :=
      not_or.2 ⟨not_le.2 (lt_of_lt_of_le hwait hrange), hamount.ne⟩
    have hsame : some g = some { g with amount := g.amount - (0 : Amount) } := by rw [sub_zero]
    exact ⟨∅, {
      granted := h
      due := fun hin => absurd hwait (not_lt.2 hin.1)
      idle := fun _ => rfl
      positive := .empty
      paid_le := (lt_min hper hamount).le
      events_eq := by rw [if_neg hgoes]; rfl
      stored := by rw [if_neg hgoes]; exact hg.trans hsame
      refunded := by rw [if_neg hgoes] }⟩
  · obtain ⟨hstored, hrefunded⟩ := State.afterTurn_own l.head.block hg ho hb
      (hle.trans (min_le_right _ _))
    exact ⟨shares, {
      granted := h
      due := fun hin => hdue hin.2
      idle := fun hout => hidle (hout.resolve_left (not_lt.2 hstart))
      positive := hpos
      paid_le := hle
      events_eq := rfl
      stored := hstored
      refunded := hrefunded }⟩

end LedgerM

/-- Whether an event tells of a grant. -/
def Event.concerns (id : GrantId) : Event → Bool
  | grantPaid grant .. => grant = id
  | grantFinished grant .. => grant = id
  | _ => false

theorem Event.not_concerns_of_concerns {k : GrantId} {e : Event} (hk : k ≠ id)
    (h : e.concerns k = true) : ¬ e.concerns id = true := by
  cases e with
  | grantPaid | grantFinished => exact fun h' => hk ((of_decide_eq_true h).symm.trans (of_decide_eq_true h'))
  | _ => cases h

/-- A grant is left alone: it is stored as before, and nothing is told of it. -/
structure Ledger.LeavesGrant (l : Ledger) (id : GrantId) (events : List Event) (l' : Ledger) : Prop where
  stored : l'.state.grants.get? id = l.state.grants.get? id
  silent : events.filter (·.concerns id) = []

namespace Ledger.LeavesGrant

variable {l₁ : Ledger} {more : List Event}

theorem refl (l : Ledger) : l.LeavesGrant id [] l := ⟨rfl, rfl⟩

theorem trans (h : l.LeavesGrant id events l₁) (h' : l₁.LeavesGrant id more l') :
    l.LeavesGrant id (events ++ more) l' := by
  refine ⟨h'.stored.trans h.stored, ?_⟩
  rw [List.filter_append, h.silent, h'.silent]
  rfl

end Ledger.LeavesGrant

namespace LedgerM

variable {α : Type} {step : α → LedgerM (List Event)} {a : α} {as : List α} {l₁ : Ledger}

/-- What granted steps of a list do together is what each of them does in its turn. -/
theorem collect_relates {P : Ledger → Prop} {R : Ledger → List Event → Ledger → Prop}
    (refl : ∀ l, R l [] l)
    (trans : ∀ l e l₁ e' l', R l e l₁ → R l₁ e' l' → R l (e ++ e') l')
    (hs : ∀ a ∈ as, ∀ l events l', step a l = (.ok events, l') → P l → P l' ∧ R l events l')
    (h : collect step as l = (.ok events, l')) (hl : P l) : P l' ∧ R l events l' := by
  induction as generalizing l events with
  | nil => cases h; exact ⟨hl, refl _⟩
  | cons a as ih =>
    rw [List.forall_mem_cons] at hs
    obtain ⟨first, l₁, ha, h⟩ := bind_eq_ok.1 h
    obtain ⟨rest, _, has, h⟩ := bind_eq_ok.1 h
    cases h
    obtain ⟨h₁, hfirst⟩ := hs.1 _ _ _ ha hl
    obtain ⟨h', hrest⟩ := ih hs.2 has h₁
    exact ⟨h', trans _ _ _ _ _ hfirst hrest⟩

/-- A list of granted steps around the turn of one of them. -/
theorem collect_of_mem_turns (h : collect step as l = (.ok events, l'))
    (hmem : (l₁, a) ∈ l.turns step as) : ∃ bs cs before own l₂ after, as = bs ++ a :: cs ∧
      collect step bs l = (.ok before, l₁) ∧ step a l₁ = (.ok own, l₂) ∧
      collect step cs l₂ = (.ok after, l') ∧ events = before ++ (own ++ after) := by
  induction as generalizing l events with
  | nil => cases hmem
  | cons x as ih =>
    obtain ⟨first, l₀, hx, h⟩ := bind_eq_ok.1 h
    obtain ⟨rest, _, hrest, h⟩ := bind_eq_ok.1 h
    cases h
    rcases List.mem_cons.1 hmem with heq | hmem
    · cases heq
      exact ⟨[], as, [], first, l₀, rest, rfl, rfl, hx, hrest, rfl⟩
    · rw [hx] at hmem
      obtain ⟨bs, cs, before, own, l₂, after, rfl, hbs, ha, hcs, rfl⟩ := ih hrest hmem
      refine ⟨x :: bs, cs, first ++ before, own, l₂, after, rfl, ?_, ha, hcs,
        (List.append_assoc ..).symm⟩
      exact bind_eq_ok.2 ⟨first, l₀, hx, bind_eq_ok.2 ⟨before, l₁, hbs, rfl⟩⟩

end LedgerM

namespace State

/-- All that the payments of a grant tell is about it. -/
theorem payShares_concerns (k : GrantId) (shares : List (GroupId × Amount)) (s : State)
    (remaining : Amount) : ∀ e ∈ (payShares k s remaining shares).2.2, e.concerns k = true := by
  induction shares generalizing s remaining with
  | nil => exact List.forall_mem_nil _
  | cons x shares ih =>
    obtain ⟨group, part⟩ := x
    rw [payShares]
    split
    · exact List.forall_mem_nil _
    · exact List.forall_mem_cons.2 ⟨decide_eq_true rfl, ih _ _⟩

theorem processGrant_concerns {k : GrantId} {block : Nat} {s' : State}
    (h : s.processGrant block k g = .ok (s', events)) : ∀ e ∈ events, e.concerns k = true := by
  unfold processGrant at h
  split at h
  · cases h
    exact List.forall_mem_nil _
  · extract_lets pay at h
    obtain ⟨shares, h⟩ : ∃ shares, pay shares = .ok (s', events) := by
      split at h
      · obtain ⟨shares, -, h⟩ := bind_eq_ok.1 h
        exact ⟨shares, h⟩
      · exact ⟨∅, h⟩
    have hpaid := payShares_concerns k shares.entries s g.amount
    dsimp only [pay] at h
    split at h <;> cases h
    · exact List.forall_mem_append.2 ⟨hpaid, List.forall_mem_singleton.2 (decide_eq_true rfl)⟩
    · exact hpaid

/-- The turn of a grant tells of no other. -/
theorem processGrant_silent {k : GrantId} {block : Nat} {s' : State} (hk : k ≠ id)
    (h : s.processGrant block k g = .ok (s', events)) : events.filter (·.concerns id) = [] :=
  List.filter_eq_nil_iff.2 fun e he => Event.not_concerns_of_concerns hk (processGrant_concerns h e he)

end State

/-- The turn of one grant leaves the others alone. -/
theorem LedgerM.processGrant_leaves {k : GrantId} (hk : k ≠ id)
    (h : processGrant k l = (.ok events, l')) : l.LeavesGrant id events l' := by
  obtain ⟨g, s, hg, hp, rfl⟩ := processGrant_eq_ok.1 h
  refine ⟨?_, State.processGrant_silent hk hp⟩
  obtain rfl | ⟨shares, -, rfl⟩ := State.processGrant_ok hp
  · rfl
  · exact (State.grantServed_afterShares hg _ shares).others id hk.symm

/-- All that the turn of a grant tells is about it. -/
theorem Grant.Turn.concerns {shares : SortedMap GroupId Amount} (h : g.Turn id l shares events l') :
    events.filter (·.concerns id) = events := by
  rw [List.filter_eq_self, h.events_eq]
  intro e he
  rcases List.mem_append.1 he with he | he
  · obtain ⟨x, -, rfl⟩ := List.mem_map.1 he
    exact decide_eq_true rfl
  · split at he
    · rw [List.mem_singleton.1 he]
      exact decide_eq_true rfl
    · cases he

/-- When all grants have their turns, each has exactly one, and nothing else is told of it. -/
def Grant.Pass (g : Grant) (id : GrantId) (l : Ledger) (events : List Event) (l' : Ledger) : Prop :=
  ∃ l₁ shares own l₂, (l₁, id) ∈ l.turns LedgerM.processGrant l.state.grants.keys ∧
    l₁.head = l.head ∧ g.Turn id l₁ shares own l₂ ∧ events.filter (·.concerns id) = own ∧
    l'.state.grants.get? id = l₂.state.grants.get? id

theorem Grant.Pass.trans_leaves {l₁ : Ledger} {more : List Event} (h : g.Pass id l events l₁)
    (h' : l₁.LeavesGrant id more l') : g.Pass id l (events ++ more) l' := by
  obtain ⟨l₂, shares, own, l₃, hmem, hhead, hturn, hown, hstored⟩ := h
  refine ⟨l₂, shares, own, l₃, hmem, hhead, hturn, ?_, h'.stored.trans hstored⟩
  rw [List.filter_append, h'.silent, List.append_nil, hown]

namespace LedgerM

theorem processGrant_granting (hl : l.Granting) (h : processGrant id l = (.ok events, l')) :
    l'.Granting ∧ l'.head = l.head := by
  have hu := upkeeps_processGrant id l
  rw [h] at hu
  obtain ⟨_, _, -, -, rfl⟩ := processGrant_eq_ok.1 h
  exact ⟨hu.granting hl, rfl⟩

/-- Turns of other grants only. -/
theorem collect_processGrant_leaves {ids : List GrantId} (hid : id ∉ ids) (hl : l.Granting)
    (h : collect processGrant ids l = (.ok events, l')) :
    (l'.Granting ∧ l'.head = l.head) ∧ l.LeavesGrant id events l' := by
  refine collect_relates (P := fun x => x.Granting ∧ x.head = l.head)
    (R := fun l events l' => l.LeavesGrant id events l') .refl (fun _ _ _ _ _ => .trans)
    (fun k hk l₁ e l₂ h hl => ?_) h ⟨hl, rfl⟩
  obtain ⟨h₂, hhead⟩ := processGrant_granting hl.1 h
  exact ⟨⟨h₂, hhead.trans hl.2⟩, processGrant_leaves (fun he => hid (he ▸ hk)) h⟩

theorem processGrants_leaves (hl : l.Granting) (hg : l.state.grants.get? id = none)
    (h : processGrants l = (.ok events, l')) : l.LeavesGrant id events l' := by
  obtain ⟨_, _, hget, h⟩ := bind_eq_ok.1 h
  cases hget
  refine (collect_processGrant_leaves (fun hmem => ?_) hl h).2
  obtain ⟨g, hg'⟩ := contains_iff.1 (mem_keys_iff.1 hmem)
  cases hg.symm.trans hg'

theorem processGrants_pass (hl : l.Granting) (hg : l.state.grants.get? id = some g)
    (h : processGrants l = (.ok events, l')) : g.Pass id l events l' := by
  obtain ⟨_, _, hget, h⟩ := bind_eq_ok.1 h
  cases hget
  have hkey : id ∈ (l.turns processGrant l.state.grants.keys).map (·.2) := by
    rw [Ledger.map_turns]
    exact mem_keys_iff.2 (contains_of_get? hg)
  obtain ⟨⟨l₁, id⟩, hmem, rfl⟩ := List.mem_map.1 hkey
  obtain ⟨as, bs, before, own, l₂, after, hkeys, hbefore, hturn, hafter, rfl⟩ :=
    collect_of_mem_turns h hmem
  obtain ⟨-, htail, hdisjoint⟩ := List.nodup_append.1 (hkeys ▸ nodup_keys l.state.grants)
  have has : id ∉ as := fun hmem => hdisjoint id hmem id List.mem_cons_self rfl
  obtain ⟨⟨h₁, hhead⟩, hleft⟩ := collect_processGrant_leaves has hl hbefore
  obtain ⟨h₂, -⟩ := processGrant_granting h₁ hturn
  obtain ⟨-, hright⟩ := collect_processGrant_leaves (List.nodup_cons.1 htail).1 h₂ hafter
  obtain ⟨shares, hown⟩ := processGrant_turn h₁ (hleft.stored.trans hg) hturn
  refine ⟨l₁, shares, own, l₂, hmem, hhead, hown, ?_, hright.stored⟩
  rw [List.filter_append, List.filter_append, hleft.silent, hright.silent, List.append_nil,
    List.nil_append, hown.concerns]

end LedgerM

end ResearchLedger
