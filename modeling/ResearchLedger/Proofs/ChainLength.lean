import ResearchLedger.Proofs.Elections
import ResearchLedger.Proofs.History

/-! How long chains of proxies become along a run, and how far the stakes behind them reach. -/
namespace ResearchLedger

open SortedMap

variable {s s' : State} {l l' : Ledger} {op : Operation} {n q w : AccountName} {a : Account}
  {config : Config} {genesis : Genesis} {steps : List Step} {k : Nat}

namespace State

/-- No chain of proxies has more accounts than the greatest depth. -/
def ShortChains (s : State) : Prop := ∀ n, climb s.proxyOf maxProxyDepth n = none

theorem ShortChains.congr (hp : s'.proxyOf = s.proxyOf) : s'.ShortChains ↔ s.ShortChains := by
  unfold ShortChains
  rw [hp]

theorem Unpolled.shortChains (h : s.Unpolled) : s.ShortChains := by
  intro n
  rw [maxProxyDepth, climb, h.proxyOf_eq]
  rfl

/-- A chain that passes the check ends within the room it has. -/
theorem checkChain_short {room : Nat} {chain : List AccountName} {u : Unit}
    (ha : s.accounts.get? q = some a) (h : s.checkChain room chain a = .ok u) :
    climb s.proxyOf (room + 1) q = none := by
  rw [climb, proxyOf_of_get? ha]
  induction room generalizing q a chain with
  | zero =>
    unfold checkChain at h
    generalize a.proxy = o at h
    cases o with
    | none => rfl
    | some proxy =>
      obtain ⟨next, -, h⟩ := bind_eq_ok.1 h
      cases (guard_bind_eq_ok.1 h).2
  | succ room ih =>
    unfold checkChain at h
    generalize a.proxy = o at h
    cases o with
    | none => rfl
    | some proxy =>
      obtain ⟨next, hnext, h⟩ := bind_eq_ok.1 h
      have hnext := account_eq_ok.1 hnext
      have hrest := ih hnext (guard_bind_eq_ok.1 h).2
      rw [← proxyOf_of_get? hnext] at hrest
      exact hrest

/-- A new proxy that is admitted makes a short chain with the account. -/
theorem checkNewProxy_short {u : Unit} (h : s.checkNewProxy n q = .ok u) :
    climb s.proxyOf (maxProxyDepth - 1) q = none := by
  unfold checkNewProxy at h
  obtain ⟨-, h⟩ := guard_bind_eq_ok.1 h
  obtain ⟨a, ha, h⟩ := bind_eq_ok.1 h
  exact checkChain_short (account_eq_ok.1 ha) h

/-- Every chain of proxies comes to an end. -/
theorem Chained.exists_end (hs : s.Chained) (n : AccountName) :
    ∃ k x, climb s.proxyOf k n = some x ∧ s.proxyOf x = none := by
  refine exists_end_of_none (hs.acyclic.climb_card s.accounts.keys.toFinset (fun x y hxy => ?_) n)
  rw [List.mem_toFinset, mem_keys_iff]
  exact hs.proxies x y hxy

/-- A stake counts for the witnesses that the end of its chain approves, if the end is within the
greatest depth. -/
theorem Chained.counts_votes (hs : s.Chained) {x : AccountName} (hx : climb s.proxyOf k n = some x)
    (hend : s.proxyOf x = none) (w : AccountName) :
    s.counts (.votes w) n = (decide (k ≤ maxProxyDepth) && s.approves x w) := by
  rw [Bool.eq_iff_iff, Bool.and_eq_true, decide_eq_true_eq]
  simp only [counts, List.any_eq_true, List.mem_range, Option.any_eq_true]
  constructor
  · rintro ⟨i, hi, y, hy, hw⟩
    obtain rfl := climb_end_unique hx hend hy (hs.voters y w hw).1
    cases hx.symm.trans hy
    exact ⟨Nat.lt_succ_iff.1 hi, hw⟩
  · rintro ⟨hk, hw⟩
    exact ⟨k, Nat.lt_succ_of_le hk, x, hx, hw⟩

end State

/-- The chain of the new proxy is short enough for every chain that leads to the account. -/
def SetWitnessProxy.LeavesRoom (op : SetWitnessProxy) (s : State) : Prop :=
  ∀ n i, climb s.proxyOf i n = some op.account →
    op.proxy.bind (climb s.proxyOf (maxProxyDepth - (i + 1))) = none

namespace Operation

/-- An operation makes no chain of proxies too long. -/
def LeavesRoom (s : State) : Operation → Prop
  | setWitnessProxy op => op.LeavesRoom s
  | _ => True

/-- Only one kind of operation changes proxies. -/
theorem Effect.proxyOf_eq (h : op.Effect l l') (hop : ∀ o, op ≠ .setWitnessProxy o) :
    l'.state.proxyOf = l.state.proxyOf := by
  funext n
  by_cases hp : op.polls = false
  · exact State.proxyOf_keeps ((h.samePoll hp).accounts.map (·.2.2.1)) n
  cases h with
  | @accountCreate op hc =>
    obtain ⟨s₁, h₁, hn, h₂⟩ := AccountCreate.poll_commit l.head.time hc
    have hnew : State.proxyOf
        { s₁ with accounts := s₁.accounts.insert op.name (op.account l.head.time) } n =
          s₁.proxyOf n := State.proxyOf_insert hn rfl n
    exact (State.proxyOf_keeps (h₂.accounts.map (·.2.2.1)) n).trans
      (hnew.trans (State.proxyOf_keeps (h₁.accounts.map (·.2.2.1)) n))
  | @transferToCommonTokens op effects _ =>
    have hk : Keeps Account.proxy l.state.accounts
        (op.commit l.head.time effects l.state).accounts := by
      unfold TransferToCommonTokens.commit
      refine .trans ?_ (State.applyProxyEffects_keeps (fun _ _ => rfl) effects)
      exact .modify_both (fun _ => rfl) fun _ => rfl
    exact State.proxyOf_keeps hk n
  | setWitnessProxy => exact absurd rfl (hop _)
  | witnessUpdate => rfl
  | witnessVote => exact WitnessVote.proxyOf_commit _ _ n
  | _ => exact absurd rfl hp

/-- An operation keeps the chains short exactly if it leaves room. -/
theorem Effect.shortChains_iff (h : op.Effect l l') (hl : l.state.Linked) (hs : l.state.Chained)
    (hshort : l.state.ShortChains) : l'.state.ShortChains ↔ op.LeavesRoom l.state := by
  by_cases hop : ∀ o, op ≠ .setWitnessProxy o
  · have hroom : op.LeavesRoom l.state := by
      cases op with
      | setWitnessProxy o => exact absurd rfl (hop o)
      | _ => trivial
    exact iff_of_true ((State.ShortChains.congr (h.proxyOf_eq hop)).2 hshort) hroom
  · obtain ⟨o, rfl⟩ : ∃ o, op = .setWitnessProxy o := by simpa using hop
    cases h with | setWitnessProxy hp =>
    have hnew := SetWitnessProxy.proxyOf_commit hp
    have hself := (hnew o.account).trans (if_pos rfl)
    refine (climb_short_iff hs.acyclic (fun x hx => (hnew x).trans (if_neg hx)) ?_ hshort).trans ?_
    · rw [hself]
      cases hq : o.proxy with
      | none => exact .none
      | some q => exact (SetWitnessProxy.avoids hl hp q hq).2
    · rw [hself]
      rfl

end Operation

/-- What no operation does changes no proxy. -/
theorem Drift.proxyOf_eq (h : Drift l l') : l'.state.proxyOf = l.state.proxyOf := by
  funext n
  cases h with
  | @reward _ plan =>
    have hpoll := State.samePoll_applyReward l.state l.head.time plan
    exact State.proxyOf_keeps (hpoll.accounts.map (·.2.2.1)) n
  | payment h =>
    exact State.proxyOf_keeps (LedgerM.payPowerDown_keeps (f := Account.proxy) (fun _ _ => rfl)
      (fun _ _ => rfl) (fun _ _ => rfl) (fun _ _ _ => rfl) h) n
  | upkeep h => exact State.proxyOf_keeps (h.samePoll.accounts.map (·.2.2.1)) n

theorem Upkeeps.proxyOf_eq (h : Upkeeps l l') : l'.state.proxyOf = l.state.proxyOf := by
  induction h with
  | refl => rfl
  | tail _ hc ih => exact (Drift.upkeep hc).proxyOf_eq.trans ih

namespace LedgerM

theorem shortChains_operations {ops : List Operation} (h : Collects Operation.apply ops l l')
    (hl : l.state.Linked) (hs : l.state.Chained) (hshort : l.state.ShortChains) :
    (l'.state.ShortChains ∧ ∀ x ∈ l.turns Operation.apply ops, x.1.state.ShortChains) ↔
      ∀ x ∈ l.turns Operation.apply ops, x.2.LeavesRoom x.1.state := by
  induction h with
  | nil => simp [Ledger.turns, hshort]
  | @cons op ops events l l₁ l' h hrest ih =>
    rw [Ledger.turns, List.forall_mem_cons, List.forall_mem_cons, h]
    have heffect := Operation.effect_of_run (apply_ok h)
    have hiff := heffect.shortChains_iff hl hs hshort
    have ih := ih (heffect.linked hl) (heffect.chained hl hs)
    constructor
    · rintro ⟨hend, -, hturns⟩
      have h₁ : l₁.state.ShortChains := by
        cases hrest with
        | nil => exact hend
        | cons => exact hturns (l₁, _) List.mem_cons_self
      exact ⟨hiff.1 h₁, (ih h₁).1 ⟨hend, hturns⟩⟩
    · rintro ⟨hroom, hrooms⟩
      obtain ⟨hend, hturns⟩ := (ih (hiff.2 hroom)).2 hrooms
      exact ⟨hend, hshort, hturns⟩

theorem proxyOf_payments {names : List AccountName} (h : Collects payPowerDown names l l') :
    l'.state.proxyOf = l.state.proxyOf ∧
      ∀ x ∈ l.turns payPowerDown names, x.1.state.proxyOf = l.state.proxyOf :=
  h.invariant (P := fun l' => l'.state.proxyOf = l.state.proxyOf)
    (fun _ _ _ _ h hp => (Drift.payment h).proxyOf_eq.trans hp) rfl

end LedgerM

/-- A request leaves the chains short at all its stages exactly if its operations leave room. -/
theorem Step.shortChains_iff (step : Step) (hstep : step.Storable) (hl : l.state.Linked)
    (hs : l.state.Chained) (hshort : l.state.ShortChains) :
    ((step.next l).state.ShortChains ∧ ∀ l' ∈ step.stages l, l'.state.ShortChains) ↔
      ∀ x ∈ step.carriedOut l, x.2.LeavesRoom x.1.state := by
  cases step.proceeds l hstep with
  | upkeep h hstages hp =>
    rw [carriedOut_eq_nil (by rw [hstages, hp, List.map_nil]), hstages,
      State.ShortChains.congr h.proxyOf_eq]
    simp [hshort]
  | operations h hstages hp =>
    rw [carriedOut_of_stages hstages hp, hstages, List.forall_mem_map]
    exact LedgerM.shortChains_operations h hl hs hshort
  | reward h hn hstages hp =>
    have hn : (step.next l).state.proxyOf = l.state.proxyOf := hn ▸ (Drift.reward h).proxyOf_eq
    rw [carriedOut_eq_nil (by rw [hstages, hp, List.map_nil]), hstages, State.ShortChains.congr hn]
    simp [hshort]
  | block before paid after hstages hp =>
    obtain ⟨hpaid, hturns⟩ := LedgerM.proxyOf_payments paid
    rw [carriedOut_eq_nil hstages, hstages, hp, List.forall_mem_map]
    refine iff_of_true ⟨?_, fun x hx => ?_⟩ (by simp)
    · rwa [State.ShortChains.congr (after.proxyOf_eq.trans (hpaid.trans before.proxyOf_eq))]
    · rwa [State.ShortChains.congr ((hturns x hx).trans before.proxyOf_eq)]

namespace Ledger

theorem shortChains_visited_iff (hsteps : ∀ step ∈ steps, step.Storable) (hl : l.state.Linked)
    (hs : l.state.Chained) (hshort : l.state.ShortChains) :
    (∀ l' ∈ l.visited steps, l'.state.ShortChains) ↔
      ∀ x ∈ l.carriedOut steps, x.2.LeavesRoom x.1.state := by
  induction steps generalizing l with
  | nil => simp [visited, carriedOut, hshort]
  | cons step steps ih =>
    obtain ⟨hstep, hsteps⟩ := List.forall_mem_cons.1 hsteps
    have hstart := (step.next l).mem_visited_self steps
    have hnext := (step.invariant (P := fun l => l.state.Linked ∧ l.state.Chained) hstep
      (fun _ _ h hp => ⟨h.linked hp.1, h.chained hp.1 hp.2⟩) ⟨hl, hs⟩).1
    have hiff := step.shortChains_iff hstep hl hs hshort
    have ih := ih hsteps hnext.1 hnext.2
    rw [visited, carriedOut, List.forall_mem_cons, List.forall_mem_append, List.forall_mem_append]
    constructor
    · rintro ⟨-, hstages, hrest⟩
      exact ⟨hiff.1 ⟨hrest _ hstart, hstages⟩, (ih (hrest _ hstart)).1 hrest⟩
    · rintro ⟨hroom, hrooms⟩
      obtain ⟨hend, hstages⟩ := hiff.2 hroom
      exact ⟨hshort, hstages, (ih hend).2 hrooms⟩

/-- Along a run each new proxy makes a short chain with its account; yet all chains stay short exactly
if each also leaves room for the chains that already lead to the account. Every chain has an end, and
all stake on it reaches the witnesses approved there, but for that which is farther away than the
greatest depth: of this nothing arrives. -/
theorem shortChains_iff_room (h : ofGenesis config genesis = .ok l)
    (hsteps : ∀ step ∈ steps, step.Storable) :
    (∀ x ∈ l.carriedOut steps, ∀ o, x.2 = .setWitnessProxy o → ∀ q, o.proxy = some q →
      climb x.1.state.proxyOf (maxProxyDepth - 1) q = none) ∧
    ((∀ l' ∈ l.visited steps, l'.state.ShortChains) ↔
      ∀ x ∈ l.carriedOut steps, x.2.LeavesRoom x.1.state) ∧
    ∀ l' ∈ l.visited steps, ∀ n, l'.state.accounts.contains n = true →
      ∃ k x, climb l'.state.proxyOf k n = some x ∧ l'.state.proxyOf x = none ∧
        ∀ w, l'.state.counts (.votes w) n = (decide (k ≤ maxProxyDepth) && l'.state.approves x w) ∧
          ∀ amount, ∃ effects, l'.state.stakeEffects n amount = .ok effects ∧
            effects.change (.votes w) = if l'.state.counts (.votes w) n then amount else 0 := by
  have hl : l.state.Linked := .ofGenesis (ofGenesis_ok h).1
  have hunpolled := State.Unpolled.ofGenesis (ofGenesis_ok h).1
  refine ⟨?_, shortChains_visited_iff hsteps hl hunpolled.chained hunpolled.shortChains, ?_⟩
  · rintro ⟨l₁, op⟩ hx o rfl q hq
    obtain ⟨before, after, hsplit⟩ := List.append_of_mem hx
    obtain ⟨-, events, l₂, ho, -⟩ := (passes_after hsteps).of_append hsplit
    cases Operation.effect_of_run (LedgerM.apply_ok ho) with | setWitnessProxy hp =>
    obtain ⟨a, e, -, hcheck, -⟩ := SetWitnessProxy.plan_ok hp
    exact State.checkNewProxy_short (hcheck q hq)
  · intro l' hl' n hn
    have hs := ((visited_invariant (P := fun l => l.state.Linked ∧ l.state.Chained) hsteps
      (fun _ _ hc hp => ⟨hc.linked hp.1, hc.chained hp.1 hp.2⟩) ⟨hl, hunpolled.chained⟩).2 l' hl').2
    obtain ⟨k, x, hx, hend⟩ := hs.exists_end n
    refine ⟨k, x, hx, hend, fun w => ⟨hs.counts_votes hx hend w, fun amount => ?_⟩⟩
    obtain ⟨effects, he⟩ := State.stakeEffects_total hs hn amount
    exact ⟨effects, he, State.stakeEffects_change hs he _⟩

end Ledger

namespace Sample

/-- Six accounts with different stakes; frank is a witness. -/
def six : Genesis where
  accounts := [⟨alice, .empty, 0, 1⟩, ⟨bob, .empty, 0, 2⟩, ⟨carol, .empty, 0, 4⟩,
    ⟨dave, .empty, 0, 8⟩, ⟨erin, .empty, 0, 16⟩, ⟨frank, .empty, 0, 32⟩]
  witnesses := [frank]

/-- The ledger of the six. -/
def foundedBySix : Ledger :=
  match Ledger.ofGenesis {} six with
  | .ok l => l
  | .error _ => ⟨.empty {}, .start 0 0⟩

/-- Frank votes for himself, and the others make a chain that grows at its end. -/
def upward : List Step :=
  [.operation (.witnessVote ⟨frank, frank, true⟩),
    .operation (.setWitnessProxy ⟨alice, some bob⟩),
    .operation (.setWitnessProxy ⟨bob, some carol⟩),
    .operation (.setWitnessProxy ⟨carol, some dave⟩),
    .operation (.setWitnessProxy ⟨dave, some erin⟩),
    .operation (.setWitnessProxy ⟨erin, some frank⟩)]

/-- The chain has six accounts, and the stake of alice does not reach the votes for frank. -/
theorem upward_too_long : (foundedBySix.after upward).Reachable {} six ∧
    climb (foundedBySix.after upward).state.proxyOf 5 alice = some frank ∧
    ¬ (foundedBySix.after upward).state.ShortChains ∧
    (foundedBySix.after upward).state.approves frank frank = true ∧
    ((foundedBySix.after upward).state.witnesses.get? frank).map (·.votes) =
      some ((foundedBySix.after upward).state.stakes - 1) :=
  ⟨⟨foundedBySix, upward, by decide +kernel, by decide, rfl⟩, by decide +kernel,
    fun h => absurd (h alice) (by decide +kernel), by decide +kernel, by decide +kernel⟩

/-- Some of the new proxies leave no room below, and no change of alice's stake reaches frank. -/
theorem upward_leaves_no_room : (∀ step ∈ upward, step.Storable) ∧
    (¬ ∀ x ∈ foundedBySix.carriedOut upward, x.2.LeavesRoom x.1.state) ∧
    ∀ amount, ∃ effects,
      (foundedBySix.after upward).state.stakeEffects alice amount = .ok effects ∧
        effects.change (.votes frank) = 0 := by
  have hsteps : ∀ step ∈ upward, step.Storable := by decide
  obtain ⟨-, hiff, hreach⟩ := @Ledger.shortChains_iff_room foundedBySix {} six upward
    (by decide +kernel) hsteps
  have hend := foundedBySix.after_mem_visited upward
  refine ⟨hsteps, fun hroom => ?_, fun amount => ?_⟩
  · exact absurd (hiff.2 hroom _ hend alice) (by decide +kernel)
  · obtain ⟨k, x, -, -, hvotes⟩ := hreach _ hend alice (by decide +kernel)
    obtain ⟨effects, he, hchange⟩ := (hvotes frank).2 amount
    have hcounts : (foundedBySix.after upward).state.counts (.votes frank) alice = false := by
      decide +kernel
    rw [hcounts] at hchange
    exact ⟨effects, he, hchange⟩

end Sample

end ResearchLedger
