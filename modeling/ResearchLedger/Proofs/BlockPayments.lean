import ResearchLedger.Proofs.Elections
import ResearchLedger.Proofs.Schedule

/-! The payments at the end of a block. All that they refer to is there and no part of them is too
great to be stored, so none of them is ever refused. -/
namespace ResearchLedger

open SortedMap

variable {s : State} {l l' : Ledger} {config : Config} {genesis : Genesis} {a b : Account}
  {n : AccountName}

/-- All that the payments of a block rely on. -/
structure Ledger.Ready (l : Ledger) : Prop where
  sound : l.Sound
  lent : l.state.Lent
  chained : l.state.Chained
  scheduled : l.state.Scheduled

theorem Change.ready (h : Change l l') (hl : l.Ready) : l'.Ready where
  sound := h.sound hl.sound
  lent := h.lent hl.sound.solvent hl.lent
  chained := h.chained hl.sound.linked hl.chained
  scheduled := h.scheduled hl.scheduled

theorem Upkeeps.ready (h : Upkeeps l l') (hl : l.Ready) : l'.Ready :=
  h.invariant (fun _ _ => Change.ready) hl

theorem Ledger.Reachable.ready (h : l.Reachable config genesis) (hg : genesis.Storable) :
    l.Ready := by
  refine h.invariant (fun l₀ h₀ => ?_) fun _ _ => Change.ready
  have hs := (ofGenesis_ok h₀).1
  exact ⟨.ofGenesis h₀ hg, .ofGenesis hs, (State.Unpolled.ofGenesis hs).chained, .ofGenesis hs hg⟩

/-- Steps of a list are all granted if each is in its turn. What is relied on may tell of the steps
still to come. -/
theorem LedgerM.collect_total {α : Type} {step : α → LedgerM (List Event)}
    {P : List α → Ledger → Prop} (hs : ∀ a as l, P (a :: as) l →
      ∃ events l', step a l = (.ok events, l') ∧ P as l') (as : List α) (hl : P as l) :
    ∃ events l', collect step as l = (.ok events, l') ∧ P [] l' := by
  induction as generalizing l with
  | nil => exact ⟨[], l, rfl, hl⟩
  | cons a as ih =>
    obtain ⟨events, l₁, ha, h₁⟩ := hs a as l hl
    obtain ⟨rest, l', has, h'⟩ := ih h₁
    refine ⟨events ++ rest, l', ?_, h'⟩
    exact bind_eq_ok.2 ⟨events, l₁, ha, bind_eq_ok.2 ⟨rest, l', has, rfl⟩⟩

section Grants

variable {payout : Amount} {d : Discipline} {id : Nat} {g : Grant}

namespace State

/-- The part of each content can be computed: its weight is part of that of its discipline. -/
theorem addGrantShare_total (hl : l.Balanced) (hs : l.state.Linked) (h₀ : 0 ≤ payout)
    (hm : payout ≤ Amount.max) (hd : l.state.disciplines.get? id = some d) {content : ContentId}
    {t : VoteTotals} (ht : l.state.voteTotals.get? (content, id) = some t)
    (shares : SortedMap GroupId Amount) :
    ∃ shares', l.state.addGrantShare d payout shares content t = .ok shares' := by
  obtain ⟨c, hc⟩ := contains_iff.1 (hs.voteTotals _ _ ht).1
  obtain ⟨r, hr⟩ := contains_iff.1 (hs.contents _ _ hc).2.2.1
  obtain ⟨hle, e, he, hpart, -⟩ := Ledger.covers hs hl.weighed ht
  obtain rfl := Option.some.inj (hd.symm.trans he)
  have hshare := share_eq h₀ hm hpart ((hle.trans hl.weighed.head_le).trans (by decide))
  unfold addGrantShare
  split
  · exact ⟨_, rfl⟩
  · rw [content_eq_ok.2 hc, ok_bind]
    split
    · exact ⟨_, rfl⟩
    · rw [hshare, ok_bind]
      split
      · exact ⟨_, rfl⟩
      · rw [research_eq_ok.2 hr, ok_bind]
        exact ⟨_, rfl⟩

theorem grantShares_total (hl : l.Balanced) (hs : l.state.Linked) (hm : payout ≤ Amount.max)
    (hd : l.state.disciplines.contains id = true) :
    ∃ shares, l.state.grantShares id payout = .ok shares := by
  obtain ⟨d, hd⟩ := contains_iff.1 hd
  unfold grantShares
  rw [discipline_eq_ok.2 hd, ok_bind]
  split
  · exact ⟨_, rfl⟩
  · have h₀ : 0 ≤ payout := (not_le.1 (not_or.1 ‹_›).2).le
    exact foldlM_total (fun x hx shares =>
      addGrantShare_total hl hs h₀ hm hd (mem_votedIn.1 hx) shares) ∅

/-- A turn of a grant leaves the others alone, and the grant itself only with blocks to come. -/
structure GrantServed (s : State) (block : Nat) (id : GrantId) (s' : State) : Prop where
  others : ∀ k, k ≠ id → s'.grants.get? k = s.grants.get? k
  own : ∀ g, s'.grants.get? id = some g → block < g.endBlock

theorem grantServed_afterShares (hg : s.grants.get? id = some g) (block : Nat)
    (shares : SortedMap GroupId Amount) :
    s.GrantServed block id (s.afterShares block id g shares) := by
  obtain ⟨groups, hp⟩ := payShares_footprint id shares.entries s g.amount
  unfold afterShares finishGrant
  generalize payShares id s g.amount shares.entries = paid at hp ⊢
  obtain ⟨s₁, rest, events⟩ := paid
  subst hp
  dsimp only
  split
  · have hgone : s.GrantServed block id { s with groups, grants := s.grants.erase id } :=
      ⟨fun k hk => get?_erase_of_ne hk.symm, fun g' hg' => by simp at hg'⟩
    split
    · exact ⟨hgone.others, hgone.own⟩
    · exact hgone
  · have hover : ¬ (g.isOver block rest = true) := ‹_›
    unfold Grant.isOver at hover
    rw [decide_eq_true_eq, not_or] at hover
    refine ⟨fun k hk => get?_modify_of_ne hk.symm, fun g' hg' => ?_⟩
    change (s.grants.modify id _).get? id = some g' at hg'
    rw [get?_modify_self, hg] at hg'
    cases hg'
    exact not_le.1 hover.1

/-- A stored grant waits for its first block, or pays. -/
theorem processGrant_total (hl : l.Ready) (hg : l.state.grants.get? id = some g) (block : Nat) :
    ∃ s events, l.state.processGrant block id g = .ok (s, events) ∧
      l.state.GrantServed block id s := by
  obtain ⟨hmax, hrange, hd⟩ := hl.scheduled.grants _ _ hg
  unfold processGrant
  split
  · refine ⟨_, _, rfl, fun _ _ => rfl, fun g' hg' => ?_⟩
    obtain rfl := Option.some.inj (hg.symm.trans hg')
    exact lt_of_lt_of_le ‹_› hrange
  · extract_lets pay
    have hpay (shares : SortedMap GroupId Amount) : ∃ s events, pay shares = .ok (s, events) ∧
        l.state.GrantServed block id s := by
      refine ⟨l.state.afterShares block id g shares, ?_⟩
      suffices h : ∃ events, pay shares = .ok (l.state.afterShares block id g shares, events) by
        obtain ⟨events, h⟩ := h
        exact ⟨events, h, grantServed_afterShares hg block shares⟩
      unfold afterShares
      dsimp only [pay]
      split <;> exact ⟨_, rfl⟩
    split
    · have hpayout : g.payout ≤ Amount.max := (min_le_right _ _).trans hmax
      obtain ⟨shares, hshares⟩ :=
        grantShares_total hl.sound.balanced hl.sound.linked hpayout hd
      rw [hshares, ok_bind]
      exact hpay shares
    · exact hpay ∅

end State

/-- Some grants still have their turn to come, and the others are left only with blocks to come. -/
structure Ledger.GrantsPaid (l : Ledger) (ids : List GrantId) (l' : Ledger) : Prop where
  before : Upkeeps l l'
  head : l'.head = l.head
  nodup : ids.Nodup
  stored : ∀ id ∈ ids, l'.state.grants.contains id = true
  left : l'.state.grants.All fun id g => id ∈ ids ∨ l'.head.block < g.endBlock

theorem LedgerM.processGrant_paid {ids : List GrantId} (hl : l.Ready)
    (h : l.GrantsPaid (id :: ids) l') :
    ∃ events l'', processGrant id l' = (.ok events, l'') ∧ l.GrantsPaid ids l'' := by
  obtain ⟨hn, hnodup⟩ := List.nodup_cons.1 h.nodup
  obtain ⟨g, hg⟩ := contains_iff.1 (h.stored id List.mem_cons_self)
  obtain ⟨s, events, hp, hs⟩ := State.processGrant_total (h.before.ready hl) hg l'.head.block
  refine ⟨events, { l' with state := s }, processGrant_eq_ok.2 ⟨g, s, hg, hp, rfl⟩,
    h.before.tail (.grant hg hp), h.head, hnodup, fun k hk => ?_, fun k g' hg' => ?_⟩
  · have hne : k ≠ id := fun he => hn (he ▸ hk)
    obtain ⟨g', hg'⟩ := contains_iff.1 (h.stored k (List.mem_cons_of_mem _ hk))
    exact contains_iff.2 ⟨g', (hs.others k hne).trans hg'⟩
  · by_cases hk : k = id
    · subst k
      exact .inr (hs.own g' hg')
    · rw [hs.others k hk] at hg'
      refine (h.left k g' hg').imp_left fun hmem => ?_
      exact (List.mem_cons.1 hmem).resolve_left hk

/-- All grants pay in each block, and none stays beyond its last one. -/
theorem LedgerM.processGrants_total (hl : l.Ready) : ∃ events l',
    processGrants l = (.ok events, l') ∧ Upkeeps l l' ∧ l'.head = l.head ∧
      l'.state.grants.All fun _ g => l'.head.block < g.endBlock := by
  have hstart : l.GrantsPaid l.state.grants.keys l :=
    ⟨.refl, rfl, nodup_keys _, fun id hid => mem_keys_iff.1 hid,
      fun id g hg => .inl (mem_keys_iff.2 (contains_of_get? hg))⟩
  obtain ⟨events, l', hc, h⟩ := collect_total (P := fun ids l' => l.GrantsPaid ids l')
    (fun id ids l' h => processGrant_paid hl h) _ hstart
  refine ⟨events, l', ?_, h.before, h.head, fun id g hg => ?_⟩
  · exact bind_eq_ok.2 ⟨l, l, rfl, hc⟩
  · exact (h.left id g hg).resolve_left List.not_mem_nil

end Grants

section PowerDowns

variable {amount : Amount} {r : WithdrawRoute} {rs : List WithdrawRoute} {names : List AccountName}
  {events : List Event}

/-- One schedule is another after a single payment of something. -/
structure PowerDown.Filled (p p' : PowerDown) : Prop where
  positive : 0 < min p.rate (p.total - p.withdrawn)
  total_eq : p'.total = p.total
  withdrawn_eq : p'.withdrawn = p.withdrawn + min p.rate (p.total - p.withdrawn)

namespace LedgerM

theorem payRoute_total (source : AccountName) (hs : l.state.Chained)
    (ht : l.state.accounts.contains r.target = true) (h₀ : 0 ≤ amount) (hm : amount ≤ Amount.max)
    (hp : r.percent ≤ wholePercent) :
    ∃ paid l', payRoute source amount r l = (.ok paid, l') := by
  unfold payRoute
  rw [run_bind, run_lift, percentShare_eq h₀ hm hp]
  dsimp only
  split
  · exact ⟨_, _, rfl⟩
  · rw [run_bind, run_get]
    dsimp only
    split
    · obtain ⟨effects, he⟩ := State.stakeEffects_total hs ht (part amount r.percent wholePercent)
      rw [run_bind, run_lift, he]
      exact ⟨_, _, rfl⟩
    · exact ⟨_, _, rfl⟩

theorem payRoutes_total (source : AccountName) (hs : l.state.Chained)
    (ht : ∀ r ∈ rs, l.state.accounts.contains r.target = true) (h₀ : 0 ≤ amount)
    (hm : amount ≤ Amount.max) (hp : (rs.map (·.percent)).sum ≤ wholePercent) :
    ∃ paid l', payRoutes source amount rs l = (.ok paid, l') := by
  induction rs generalizing l with
  | nil => exact ⟨_, _, rfl⟩
  | cons r rs ih =>
    rw [List.map_cons, List.sum_cons] at hp
    obtain ⟨⟨deposit, _⟩, l₁, h⟩ :=
      payRoute_total source hs (ht r List.mem_cons_self) h₀ hm (by omega)
    have hr := routePaid_of_ok h
    obtain ⟨paid, l', h'⟩ := ih (hr.chained hs)
      (fun x hx => hr.keepsNames.contains.trans (ht x (List.mem_cons_of_mem _ hx))) (by omega)
    exact ⟨_, l', bind_eq_ok.2 ⟨_, l₁, h, bind_eq_ok.2 ⟨paid, l', h', rfl⟩⟩⟩

theorem payPowerDown_total (hl : l.Ready) (hn : l.state.accounts.contains n = true) :
    ∃ events l', payPowerDown n l = (.ok events, l') := by
  obtain ⟨a, ha⟩ := contains_iff.1 hn
  have hsa := hl.sound.solvent.accounts _ _ ha
  obtain ⟨h₀, hle⟩ := hsa.nextPayment
  obtain ⟨⟨routed, _⟩, l₁, hr⟩ := payRoutes_total n hl.chained (hl.sound.linked.routeTargets n) h₀
    (hle.trans hsa.commonTokens_le) (sum_routes_le hl.sound.solvent.routes n)
  have hpaid := routesPaid_of_ok hr
  obtain ⟨effects, he⟩ := State.stakeEffects_total (hpaid.chained hl.chained)
    (hpaid.keepsNames.contains.trans hn) (-a.nextPayment)
  unfold payPowerDown
  rw [run_bind, run_get]
  dsimp only
  rw [run_bind, run_lift, State.account_eq_ok.2 ha]
  dsimp only
  rw [run_bind, hr]
  dsimp only
  rw [run_bind, run_get]
  dsimp only
  rw [run_bind, run_lift, he]
  exact ⟨_, _, rfl⟩

theorem payPowerDown_others (h : payPowerDown n l = (.ok events, l')) {k : AccountName}
    (hk : n ≠ k) : (l'.state.accounts.get? k).map Account.powerDown =
      (l.state.accounts.get? k).map Account.powerDown := by
  obtain ⟨a, s, -, -, hkeeps, -, he⟩ := payPowerDown_settles h
  rw [he, State.modifyAccount, get?_modify_of_ne hk, hkeeps.map_eq]

theorem payPowerDown_own (ha : l.state.accounts.get? n = some a)
    (h : payPowerDown n l = (.ok events, l')) : ∃ b, l'.state.accounts.get? n = some b ∧
      b.powerDown.total = a.powerDown.total ∧
      b.powerDown.withdrawn = a.powerDown.withdrawn + a.nextPayment := by
  obtain ⟨a', s, ha', -, hkeeps, -, he⟩ := payPowerDown_settles h
  obtain rfl := Option.some.inj (ha.symm.trans ha')
  obtain ⟨b, hb, hdown⟩ := hkeeps.exists_after ha
  rw [he, State.modifyAccount, get?_modify_self, hb]
  refine ⟨_, rfl, ?_⟩
  unfold Account.afterPayment
  dsimp only
  rw [hdown]
  split <;> exact ⟨rfl, rfl⟩

end LedgerM

/-- The power-downs that are due have been paid once, and the others are as they were. -/
def Ledger.DuePaid (l : Ledger) (now : Seconds) (l' : Ledger) : Prop :=
  ∀ n a, l.state.accounts.get? n = some a → ∃ b, l'.state.accounts.get? n = some b ∧
    if a.powerDown.isDue now = true then a.powerDown.Filled b.powerDown
    else b.powerDown = a.powerDown

/-- Some power-downs still wait for their payment; the others of those that are due have had it. -/
structure Ledger.PowerDownsPaid (l : Ledger) (names : List AccountName) (l' : Ledger) : Prop where
  ready : l'.Ready
  nodup : names.Nodup
  due : ∀ n ∈ names, ∃ a, l.state.accounts.get? n = some a ∧ a.powerDown.isDue l.head.time = true
  accounts : ∀ n a, l.state.accounts.get? n = some a → ∃ b, l'.state.accounts.get? n = some b ∧
    if a.powerDown.isDue l.head.time = true ∧ n ∉ names then a.powerDown.Filled b.powerDown
    else b.powerDown = a.powerDown

namespace LedgerM

theorem mem_duePowerDowns (hs : l.state.Linked) : n ∈ duePowerDowns l ↔
    ∃ a, l.state.accounts.get? n = some a ∧ a.powerDown.isDue l.head.time = true :=
  hs.accounts.mem_picked

theorem payPowerDown_paid (hl : l.Ready) (h : l.PowerDownsPaid (n :: names) l') :
    ∃ events l'', payPowerDown n l' = (.ok events, l'') ∧ l.PowerDownsPaid names l'' := by
  obtain ⟨hn, hnodup⟩ := List.nodup_cons.1 h.nodup
  obtain ⟨a, ha, hdue⟩ := h.due n List.mem_cons_self
  obtain ⟨a', ha', hwaits⟩ := h.accounts n a ha
  rw [if_neg fun hx => hx.2 List.mem_cons_self] at hwaits
  obtain ⟨events, l'', hp⟩ := payPowerDown_total h.ready (contains_of_get? ha')
  refine ⟨events, l'', hp, (Change.payment hp).ready h.ready, hnodup,
    fun k hk => h.due k (List.mem_cons_of_mem _ hk), fun k b hb => ?_⟩
  by_cases hk : n = k
  · subst k
    obtain rfl := Option.some.inj (ha.symm.trans hb)
    obtain ⟨c, hc, htotal, hwithdrawn⟩ := payPowerDown_own ha' hp
    rw [(h.ready.lent.accounts _ _ ha').nextPayment_eq, hwaits] at hwithdrawn
    rw [hwaits] at htotal
    have hrate : 0 < a.powerDown.rate := by
      have := hdue
      unfold PowerDown.isDue at this
      simp only [Bool.and_eq_true, decide_eq_true_eq] at this
      exact this.1
    have hleft := (hl.scheduled.accounts _ _ ha).unfinished hrate
    refine ⟨c, hc, ?_⟩
    rw [if_pos ⟨hdue, hn⟩]
    exact ⟨lt_min hrate (Int.sub_pos_of_lt hleft), htotal, hwithdrawn⟩
  · have hsame := payPowerDown_others hp hk
    obtain ⟨c, hc, hpaid⟩ := h.accounts k b hb
    rw [hc, Option.map_some] at hsame
    obtain ⟨d, hd, hdown⟩ := Option.map_eq_some_iff.1 hsame
    refine ⟨d, hd, ?_⟩
    rw [hdown]
    simpa only [List.mem_cons, Ne.symm hk, false_or] using hpaid

/-- Every power-down that is due is paid exactly once. -/
theorem payPowerDowns_total (hl : l.Ready) : ∃ events l',
    payPowerDowns l = (.ok events, l') ∧ l'.Ready ∧
    Collects payPowerDown (duePowerDowns l) l l' ∧ l.DuePaid l.head.time l' := by
  have hstart : l.PowerDownsPaid (duePowerDowns l) l := by
    refine ⟨hl, hl.sound.linked.accounts.nodup_picked,
      fun n hn => (mem_duePowerDowns hl.sound.linked).1 hn, fun n a ha => ⟨a, ha, ?_⟩⟩
    rw [if_neg fun hx => hx.2 ((mem_duePowerDowns hl.sound.linked).2 ⟨a, ha, hx.1⟩)]
  obtain ⟨events, l', hc, h⟩ := collect_total (P := fun names l' => l.PowerDownsPaid names l')
    (fun n names l' h => payPowerDown_paid hl h) _ hstart
  refine ⟨events, l', bind_eq_ok.2 ⟨l, l, rfl, hc⟩, h.ready, collects_of_ok hc, fun n a ha => ?_⟩
  obtain ⟨b, hb, hpaid⟩ := h.accounts n a ha
  exact ⟨b, hb, by simpa using hpaid⟩

end LedgerM

end PowerDowns

end ResearchLedger
