import ResearchLedger.Proofs.BlockEnd
import ResearchLedger.Proofs.History
import ResearchLedger.Proofs.Safeguards

/-! What a power-down pays in the course of time: its total, in equal instalments but for a smaller last
one, each of them at its time or later. -/
namespace ResearchLedger

open SortedMap

variable {l l' : Ledger} {config : Config} {genesis : Genesis} {n : AccountName} {k : Nat}
  {a : Account} {names : List AccountName} {step : Step} {steps : List Step} {events : List Event}

/-- A total to be paid in instalments from a time on. -/
structure Instalments where
  total : Amount
  rate : Amount
  start : Seconds
  interval : Seconds

/-- The instalments that an account asks for. -/
def WithdrawCommonTokens.instalments (op : WithdrawCommonTokens) (config : Config) (now : Seconds) :
    Instalments where
  total := op.total
  rate := max (op.total / (config.withdrawIntervals : Int)) 1
  start := now
  interval := config.withdrawIntervalSeconds

namespace Instalments

variable {i : Instalments}

/-- How many instalments there are; only the last one may be smaller than the rate. -/
def count (i : Instalments) : Nat := ((i.total + i.rate - 1) / i.rate).toNat

/-- When an instalment becomes due. They are numbered from zero, and the first one waits already. -/
def due (i : Instalments) (k : Nat) : Seconds := i.start.after ((k + 1) * i.interval)

/-- What an instalment takes. -/
def amount (i : Instalments) (k : Nat) : Amount := min i.rate (i.total - k * i.rate)

/-- The power-down of which so many instalments are paid. -/
def paid (i : Instalments) (k : Nat) : PowerDown :=
  if k < i.count then ⟨i.rate, i.due k, i.total, k * i.rate⟩ else ⟨0, never, i.total, i.total⟩

theorem lt_count_iff (hr : 0 < i.rate) : k < i.count ↔ k * i.rate < i.total := by
  rw [count, Int.lt_toNat, ← Int.add_one_le_iff, Int.le_ediv_iff_mul_le hr, add_mul, one_mul]
  lia

theorem due_succ : (i.due k).after i.interval = i.due (k + 1) := by
  have hsucc : (k + 1 + 1) * i.interval = (k + 1) * i.interval + i.interval := Nat.succ_mul ..
  unfold due Seconds.after
  rw [hsucc]
  lia

theorem paid_zero (ht : 0 < i.total) (hr : 0 < i.rate) :
    i.paid 0 = ⟨i.rate, i.start.after i.interval, i.total, 0⟩ := by
  have hcount : 0 < i.count := (lt_count_iff hr).2 (by simpa using ht)
  rw [paid, if_pos hcount, due]
  simp

theorem isDue_paid (hr : 0 < i.rate) {now : Seconds} :
    (i.paid k).isDue now = true ↔ k < i.count ∧ i.due k ≤ now := by
  unfold paid PowerDown.isDue
  split <;> simp [*]

/-- The payment that comes next is the next instalment, as what is lent is out of its reach. -/
theorem nextPayment_eq {given taken back : Amount} (hl : a.Lends given taken back)
    (hk : k < i.count) (ha : a.powerDown = i.paid k) : a.nextPayment = i.amount k := by
  rw [hl.nextPayment_eq, ha, paid, if_pos hk]
  rfl

/-- An instalment leads to the next one, or to the end. That no free stake is left ends the power-down
early only when nothing is left to pay. -/
theorem afterPayment_paid {given taken back : Amount} (hr : 0 < i.rate) (hl : a.Lends given taken back)
    (hk : k < i.count) (ha : a.powerDown = i.paid k) :
    (a.afterPayment (i.amount k) i.interval).powerDown = i.paid (k + 1) := by
  -- What is free covers what is left, so both conditions for the end come true together.
  have hfree := hl.free
  have hsucc : ((k + 1 : Nat) : Int) * i.rate = k * i.rate + i.rate := by push_cast; ring
  have hleft := (lt_count_iff hr).1 hk
  have hnext := lt_count_iff (k := k + 1) hr
  rw [hsucc] at hnext
  rw [paid, if_pos hk] at ha
  rw [ha] at hfree
  dsimp only at hfree
  unfold Account.afterPayment amount paid
  rw [ha]
  dsimp only
  by_cases hlast : k + 1 < i.count
  · have hrest := hnext.1 hlast
    rw [min_eq_left (by linarith), if_neg (by lia), if_pos hlast, due_succ, hsucc]
  · have hrest := not_lt.1 (mt hnext.2 hlast)
    have htotal : k * i.rate + (i.total - k * i.rate) = i.total := by ring
    rw [min_eq_right (by linarith), htotal, if_pos (.inl (le_refl _)), if_neg hlast]

/-- An instalment is paid at its time or later: it is taken from what the routes have left of the
stake, and reported. -/
structure Paid (i : Instalments) (k : Nat) (n : AccountName) (l : Ledger) : Prop where
  due_le : i.due k ≤ l.head.time
  granted : ∃ events l' rest, LedgerM.payPowerDown n l = (.ok events, l') ∧
    .withdrawFilled n n (i.amount k) rest false ∈ events ∧
    l'.state.stakeOf n = (LedgerM.midPayment l n).state.stakeOf n - i.amount k

end Instalments

/-- Whatever a payment gives to routes, it reports what it takes from its source. -/
theorem LedgerM.payPowerDown_reports (h : payPowerDown n l = (.ok events, l'))
    (ha : l.state.accounts.get? n = some a) :
    ∃ rest, .withdrawFilled n n a.nextPayment rest false ∈ events := by
  unfold payPowerDown at h
  obtain ⟨_, _, hl, h⟩ := bind_eq_ok.1 h
  cases hl
  obtain ⟨b, _, hx, h⟩ := bind_eq_ok.1 h
  obtain ⟨hb, rfl⟩ := lift_eq_ok.1 hx
  obtain rfl := Option.some.inj (ha.symm.trans (State.account_eq_ok.1 hb))
  obtain ⟨⟨routed, _⟩, _, -, h⟩ := bind_eq_ok.1 h
  obtain ⟨_, _, -, h⟩ := bind_eq_ok.1 h
  obtain ⟨_, _, -, h⟩ := bind_eq_ok.1 h
  obtain ⟨_, _, -, h⟩ := bind_eq_ok.1 h
  cases h
  exact ⟨_, List.mem_append_right _ List.mem_cons_self⟩

/-- An account is being paid, and so many instalments are behind it. -/
structure Ledger.Pays (l : Ledger) (i : Instalments) (n : AccountName) (k : Nat) : Prop where
  ready : l.Ready
  interval_eq : l.state.config.withdrawIntervalSeconds = i.interval
  powerDown : (l.state.accounts.get? n).map Account.powerDown = some (i.paid k)

namespace Ledger.Pays

variable {i : Instalments}

theorem change (h : l.Pays i n k) (hc : Change l l')
    (hk : (l'.state.accounts.get? n).map Account.powerDown =
      (l.state.accounts.get? n).map Account.powerDown) : l'.Pays i n k where
  ready := hc.ready h.ready
  interval_eq := by rw [hc.config_eq, h.interval_eq]
  powerDown := hk.trans h.powerDown

theorem upkeeps (h : l.Pays i n k) (hu : Upkeeps l l') : l'.Pays i n k := by
  induction hu with
  | refl => exact h
  | tail _ hu ih =>
    exact ih.change (.upkeep hu) ((hu.keeps (fun _ _ => rfl) (fun _ _ => rfl) fun _ _ => rfl).map_eq n)

end Ledger.Pays

/-- Only an account's own order changes its power-down. -/
theorem Operation.Effect.powerDown_eq {op : Operation} (h : op.Effect l l')
    (hno : ∀ o, op = .withdrawCommonTokens o → o.account ≠ n)
    (hn : l.state.accounts.contains n = true) :
    (l'.state.accounts.get? n).map Account.powerDown =
      (l.state.accounts.get? n).map Account.powerDown := by
  have hk := h.keepsCore
  cases op with
  | accountCreate op =>
    cases h with | accountCreate hc =>
    dsimp only
    rw [AccountCreate.accounts_commit, get?_insert_of_ne (AccountCreate.name_ne hc hn)]
    refine Keeps.map_eq (f := Account.powerDown) ?_ n
    exact .modify_self fun _ => rfl
  | transfer =>
    cases h
    refine Keeps.map_eq (f := Account.powerDown) ?_ n
    exact .modify_both (fun _ => rfl) fun _ => rfl
  | transferToCommonTokens op =>
    cases h with | @transferToCommonTokens _ effects _ =>
    refine Keeps.map_eq (f := Account.powerDown) (.trans ?_
      (State.applyProxyEffects_keeps (fun _ _ => rfl) effects)) n
    exact .modify_both (fun _ => rfl) fun _ => rfl
  | withdrawCommonTokens op =>
    cases h
    exact congrArg _ (get?_modify_of_ne (hno op rfl))
  | delegateCommonTokens =>
    cases h with | @delegateCommonTokens _ plan _ =>
    exact (plan.keeps (f := Account.powerDown) (fun _ _ => rfl) (fun _ _ => rfl) _).map_eq n
  | createGrant =>
    cases h
    refine Keeps.map_eq (f := Account.powerDown) ?_ n
    exact .modify_self fun _ => rfl
  | _ => exact ((hk rfl).map fun a => a.powerDown).map_eq n

namespace Ledger.Pays

variable {i : Instalments}

theorem operations {ops : List Operation} (h : l.Pays i n k)
    (hc : LedgerM.Collects Operation.apply ops l l')
    (hno : ∀ x ∈ l.turns Operation.apply ops, ∀ o, x.2 = .withdrawCommonTokens o → o.account ≠ n) :
    l'.Pays i n k := by
  induction hc with
  | nil => exact h
  | cons ho _ ih =>
    rw [turns, List.forall_mem_cons, ho] at hno
    have he := Operation.effect_of_run (LedgerM.apply_ok ho)
    obtain ⟨a, ha, -⟩ := Option.map_eq_some_iff.1 h.powerDown
    exact ih (h.change (.operation he) (he.powerDown_eq hno.1 (contains_of_get? ha))) hno.2

/-- A payment of the account is its next instalment. -/
theorem payment (h : l.Pays i n k) (hr : 0 < i.rate) (hk : k < i.count) (hdue : i.due k ≤ l.head.time)
    (hp : LedgerM.payPowerDown n l = (.ok events, l')) :
    i.Paid k n l ∧ l'.Pays i n (k + 1) := by
  obtain ⟨a, ha, hdown⟩ := Option.map_eq_some_iff.1 h.powerDown
  obtain ⟨a', s, ha', hlent, hkeeps, hstake, he⟩ := LedgerM.payPowerDown_settles hp
  obtain rfl := Option.some.inj (ha.symm.trans ha')
  obtain ⟨b, hb, hsame⟩ := hkeeps.exists_after ha
  obtain ⟨rest, hreport⟩ := LedgerM.payPowerDown_reports hp ha
  have hlends := h.ready.lent.accounts _ _ ha
  rw [Instalments.nextPayment_eq hlends hk hdown] at hreport he
  rw [h.interval_eq] at he
  have hchange := Change.payment hp
  refine ⟨⟨hdue, _, l', rest, hp, hreport, ?_⟩, hchange.ready h.ready,
    by rw [hchange.config_eq, h.interval_eq], ?_⟩
  · rw [he, ← hstake, State.stakeOf_modifyAccount, if_pos rfl, hb, State.stakeOf_of_get? hb]
    rfl
  · rw [he, State.modifyAccount, get?_modify_self, hb]
    have hlends := (hlent h.ready.sound.solvent h.ready.lent).accounts _ _ hb
    exact congrArg some (Instalments.afterPayment_paid hr hlends hk (hsame.trans hdown))

end Ledger.Pays

/-- On the way to a ledger an account has been paid instalments, the next ones after the first `k`. -/
structure Instalments.Serves (i : Instalments) (n : AccountName) (k : Nat)
    (fills : List (Ledger × AccountName)) (l' : Ledger) : Prop where
  pays : l'.Pays i n (k + fills.length)
  paid : ∀ j p, fills[j]? = some p → i.Paid (k + j) n p.1
  le_count : k ≤ i.count → k + fills.length ≤ i.count

namespace Instalments.Serves

variable {i : Instalments} {fills fills' : List (Ledger × AccountName)}

theorem none (h : l.Pays i n k) : i.Serves n k [] l := ⟨h, by simp, fun h => h⟩

theorem one {p : Ledger × AccountName} (hp : i.Paid k n p.1) (hk : k < i.count) (h : l.Pays i n (k + 1)) :
    i.Serves n k [p] l where
  pays := h
  paid j q hq := by
    obtain ⟨rfl, rfl⟩ : j = 0 ∧ p = q := by simpa [List.getElem?_singleton] using hq
    exact hp
  le_count _ := hk

theorem trans (h : i.Serves n k fills l) (h' : i.Serves n (k + fills.length) fills' l') :
    i.Serves n k (fills ++ fills') l' where
  pays := by
    rw [List.length_append, ← add_assoc]
    exact h'.pays
  paid j p hj := by
    rw [List.getElem?_append] at hj
    split at hj
    · exact h.paid j p hj
    · have hsum : k + fills.length + (j - fills.length) = k + j := by omega
      exact hsum ▸ h'.paid _ p hj
  le_count hk := by
    rw [List.length_append, ← add_assoc]
    exact h'.le_count (h.le_count hk)

theorem upkeeps (h : i.Serves n k fills l) (hu : Upkeeps l l') : i.Serves n k fills l' :=
  { h with pays := h.pays.upkeeps hu }

/-- The payments of a block serve an account if it is among them. -/
theorem payments (hr : 0 < i.rate) (hc : LedgerM.Collects LedgerM.payPowerDown names l l')
    (h : l.Pays i n k) (hnodup : names.Nodup)
    (hdue : n ∈ names → k < i.count ∧ i.due k ≤ l.head.time) :
    i.Serves n k ((l.turns LedgerM.payPowerDown names).filter (·.2 = n)) l' := by
  induction hc generalizing k with
  | nil => exact .none h
  | @cons m names events l l₁ l' hp _ ih =>
    obtain ⟨hm, hnodup⟩ := List.nodup_cons.1 hnodup
    rw [Ledger.turns, hp, List.filter_cons]
    by_cases hn : m = n
    · subst hn
      obtain ⟨hk, hdue⟩ := hdue List.mem_cons_self
      obtain ⟨hpaid, h₁⟩ := h.payment hr hk hdue hp
      rw [if_pos (by simp)]
      -- Its turn comes once, so that the turns of the others leave it where it is now.
      exact (one hpaid hk h₁).trans (ih h₁ hnodup fun hmem => absurd hmem hm)
    · have h₁ := h.change (.payment hp) (LedgerM.payPowerDown_others hp hn)
      rw [if_neg (by simpa using hn)]
      refine ih h₁ hnodup fun hmem => ?_
      obtain ⟨_, _, _, rfl⟩ := LedgerM.payPowerDown_footprint hp
      exact hdue (List.mem_cons_of_mem _ hmem)

theorem next (hr : 0 < i.rate) (hstep : step.Storable) (h : l.Pays i n k)
    (hno : ∀ x ∈ step.carriedOut l, ∀ o, x.2 = .withdrawCommonTokens o → o.account ≠ n) :
    i.Serves n k ((step.payments l).filter (·.2 = n)) (step.next l) := by
  cases step.proceeds l hstep with
  | upkeep hu _ hp =>
    rw [hp]
    exact .none (h.upkeeps hu)
  | operations hc hstages hp =>
    rw [Step.carriedOut_of_stages hstages hp] at hno
    rw [hp]
    exact .none (h.operations hc hno)
  | @reward plan _ hplan hn _ hp =>
    have hkeeps : Keeps Account.powerDown l.state.accounts
        (l.state.applyReward l.head.time plan).accounts :=
      State.applyReward_keeps (fun _ _ => rfl) _ _ _
    rw [hp, hn]
    exact .none (h.change (.reward hplan) (hkeeps.map_eq n))
  | block before paid after _ hp _ _ _ hdue =>
    -- The turns are those of the accounts that are due when the payments begin.
    have h₁ := h.upkeeps before
    have hlinked := h₁.ready.sound.linked
    rw [hp]
    refine (payments hr paid h₁ (hdue ▸ hlinked.accounts.nodup_picked) fun hmem => ?_).upkeeps after
    rw [hdue, LedgerM.mem_duePowerDowns hlinked] at hmem
    obtain ⟨a, ha, hisDue⟩ := hmem
    have hdown := h₁.powerDown
    rw [ha, Option.map_some, Option.some.injEq] at hdown
    rw [hdown] at hisDue
    exact (isDue_paid hr).1 hisDue

/-- A run in which the account does not order anew serves it again and again. -/
theorem after (hr : 0 < i.rate) (hsteps : ∀ step ∈ steps, step.Storable) (h : l.Pays i n k)
    (hno : ∀ x ∈ l.carriedOut steps, ∀ o, x.2 = .withdrawCommonTokens o → o.account ≠ n) :
    i.Serves n k ((l.payments steps).filter (·.2 = n)) (l.after steps) := by
  induction steps generalizing l k with
  | nil => exact .none h
  | cons step steps ih =>
    rw [List.forall_mem_cons] at hsteps
    rw [Ledger.carriedOut, List.forall_mem_append] at hno
    have hnext := next hr hsteps.1 h hno.1
    rw [Ledger.payments, List.filter_append]
    exact hnext.trans (ih hsteps.2 hnext.pays hno.2)

end Instalments.Serves

/-- No request pays an account twice. -/
theorem Step.payments_nodup (step : Step) (hs : step.Storable) (hl : l.Ready) :
    ((step.payments l).map (·.2)).Nodup := by
  cases step.proceeds l hs with
  | upkeep _ _ hp | operations _ _ hp | reward _ _ _ hp =>
    rw [hp]
    exact List.nodup_nil
  | block before _ _ _ hp _ _ _ hdue =>
    rw [hp, Ledger.map_turns, hdue]
    exact (before.ready hl).sound.linked.accounts.nodup_picked

theorem WithdrawCommonTokens.instalments_rate_pos (op : WithdrawCommonTokens) (config : Config)
    (now : Seconds) : 0 < (op.instalments config now).rate := lt_of_lt_of_le Int.one_pos (le_max_right _ _)

/-- An order starts its instalments. -/
theorem WithdrawCommonTokens.pays {op : WithdrawCommonTokens} (hl : l.Ready)
    (h : (Operation.withdrawCommonTokens op).apply l = (.ok events, l')) (hpos : 0 < op.total) :
    l'.Pays (op.instalments l.state.config l.head.time) op.account 0 := by
  have he := Operation.effect_of_run (LedgerM.apply_ok h)
  have hchange := Change.operation he
  refine ⟨hchange.ready hl, by rw [hchange.config_eq]; rfl, ?_⟩
  cases he with | @withdrawCommonTokens _ schedule hp =>
  obtain ⟨⟨a, ha, -⟩, -, ⟨hzero, -⟩ | ⟨-, rfl⟩⟩ := plan_cases hp
  · exact absurd hzero hpos.ne'
  · rw [Instalments.paid_zero hpos (op.instalments_rate_pos _ _)]
    dsimp only
    rw [commit, State.modifyAccount, get?_modify_self, ha]
    rfl

namespace Ledger

/-- From an order to power down on, and whatever is done until the account orders anew, no request pays
it twice, and it is paid at most so many times as the rate fits into the total, the last time for what is
left. Each payment comes when it is due or later, and takes its amount from the stake that the routes have
left; loans never keep it from that. The schedule tells exactly what is still to come, a block that ends
late enough pays it, and with the last payment the total is reached and the power-down ends. -/
theorem Reachable.pays_instalments (h : l.Reachable config genesis) (hg : genesis.Storable)
    {op : WithdrawCommonTokens} (hpos : 0 < op.total)
    (hop : (Operation.withdrawCommonTokens op).apply l = (.ok events, l'))
    (hsteps : ∀ step ∈ steps, step.Storable)
    (honly : ∀ x ∈ l'.carriedOut steps, ∀ o, x.2 = .withdrawCommonTokens o → o.account ≠ op.account) :
    let i := op.instalments config l.head.time
    let fills := (l'.payments steps).filter (·.2 = op.account)
    (∀ step : Step, step.Storable →
      ((step.payments (l'.after steps)).map (·.2)).count op.account ≤ 1) ∧
    fills.length ≤ i.count ∧
    (∀ k p, fills[k]? = some p → i.Paid k op.account p.1) ∧
    ∃ a, (l'.after steps).state.accounts.get? op.account = some a ∧
      (fills.length < i.count →
        a.powerDown = ⟨i.rate, i.due fills.length, op.total, fills.length * i.rate⟩ ∧
        ∀ seconds, i.due fills.length ≤ (l'.after steps).head.time.after seconds →
          op.account ∈ ((Step.endBlock seconds).payments (l'.after steps)).map (·.2)) ∧
      (fills.length = i.count → a.powerDown = ⟨0, never, op.total, op.total⟩) := by
  intro i fills
  have hstart := op.pays (h.ready hg) hop hpos
  rw [h.config_eq] at hstart
  have hr : 0 < i.rate := op.instalments_rate_pos _ _
  have hserves : i.Serves op.account 0 fills (l'.after steps) := .after hr hsteps hstart honly
  have hpays := hserves.pays
  rw [zero_add] at hpays
  obtain ⟨a, ha, hdown⟩ := Option.map_eq_some_iff.1 hpays.powerDown
  refine ⟨fun step hs => List.nodup_iff_count_le_one.1 (step.payments_nodup hs hpays.ready) _,
    by simpa using hserves.le_count (Nat.zero_le _), by simpa using hserves.paid, a, ha,
    fun hlt => ⟨?_, ?_⟩, fun heq => ?_⟩
  · rw [hdown, Instalments.paid, if_pos hlt]
    rfl
  · intro seconds hdue
    refine ((Step.payments_endBlock hpays.ready seconds).2 _).2 ⟨a, ha, ?_⟩
    rw [hdown]
    exact (Instalments.isDue_paid hr).2 ⟨hlt, hdue⟩
  · rw [hdown, Instalments.paid, if_neg heq.not_lt]
    rfl

end Ledger

namespace Sample

/-- A power-down is to be paid in two parts. -/
def halved : Config := { withdrawIntervals := 2 }

/-- The ledger of the founders under these parameters. -/
def foundedHalved : Ledger := foundedUnder halved (founders 300 20 1)

/-- Alice powers down five. -/
def orderFive : WithdrawCommonTokens := ⟨alice, 5⟩

/-- The ledger after the order. -/
def fiveOrdered : Ledger := ((Operation.withdrawCommonTokens orderFive).apply foundedHalved).2

/-- Alice lends bob all that is free, routes a part back to her stake, and blocks end. -/
def drained : List Step :=
  [.operation (.delegateCommonTokens ⟨alice, bob, 295⟩),
    .operation (.setWithdrawRoute ⟨alice, alice, 5000, true⟩),
    .endBlock 604800, .endBlock 604800, .endBlock 604800]

/-- Five is paid in three instalments of two at most, although the order divides it by two. -/
theorem drained_pays_five : (orderFive.instalments halved 0).count = 3 ∧
    ((fiveOrdered.payments drained).filter (·.2 = alice)).length = 3 ∧
    ∃ a, (fiveOrdered.after drained).state.accounts.get? alice = some a ∧
      a.powerDown = ⟨0, never, 5, 5⟩ := by
  have hreached : foundedHalved.Reachable halved (founders 300 20 1) :=
    ⟨foundedHalved, [], by rfl, by simp, rfl⟩
  have hlength : ((fiveOrdered.payments drained).filter (·.2 = alice)).length = 3 := by
    decide +kernel
  have honly : ∀ x ∈ fiveOrdered.carriedOut drained, ∀ o,
      x.2 = .withdrawCommonTokens o → o.account ≠ alice := by
    have hordered : (fiveOrdered.carriedOut drained).map (·.2) =
        [.delegateCommonTokens ⟨alice, bob, 295⟩, .setWithdrawRoute ⟨alice, alice, 5000, true⟩] := by
      decide +kernel
    intro x hx o ho
    have hmem := List.mem_map_of_mem (f := (·.2)) hx
    rw [hordered, ho] at hmem
    simp at hmem
  obtain ⟨-, -, -, a, ha, -, hend⟩ := @Ledger.Reachable.pays_instalments foundedHalved fiveOrdered
    halved (founders 300 20 1) drained [] hreached (by decide) orderFive (by decide) (by rfl)
    (by decide) honly
  exact ⟨by rfl, hlength, a, ha, hend hlength⟩

end Sample

end ResearchLedger
