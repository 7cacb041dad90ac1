import ResearchLedger.Proofs.Partners
import ResearchLedger.Proofs.PlacedRuns
import ResearchLedger.Proofs.Safeguards

/-! Recovery partners change when a block ends, and only as the account has wished for long enough: what
counts is the last wish, and a wish for the present partner takes the open one back. -/
namespace ResearchLedger

open SortedMap

variable {s : State} {l l' l₀ : Ledger} {n : AccountName} {op : Operation} {now : Seconds}
  {history : List (Ledger × Operation)} {config : Config} {genesis : Genesis} {steps : List Step}
  {x : Ledger × Operation}

/-- The wish for another recovery partner of an account, if an operation is one. -/
def Operation.wishFor (n : AccountName) : Operation → Option ChangeRecoveryPartner
  | changeRecoveryPartner op => if op.account = n then some op else none
  | _ => none

/-- The last wish in a history for another recovery partner of an account. -/
def lastWish (n : AccountName) (history : List (Ledger × Operation)) :
    Option (Ledger × ChangeRecoveryPartner) :=
  (history.filterMap fun x => (x.2.wishFor n).map (x.1, ·)).getLast?

/-- Whether a wish takes back the open one, as it names the present partner. -/
def ChangeRecoveryPartner.cancels (op : ChangeRecoveryPartner) (s : State) : Bool :=
  s.partnerChanges.contains op.account && s.partner? op.account == some (some op.partner)

theorem lastWish_snoc : lastWish n (history ++ [x]) =
    ((x.2.wishFor n).map (x.1, ·)).or (lastWish n history) := by
  unfold lastWish
  rw [List.filterMap_append, List.getLast?_append]
  cases h : x.2.wishFor n with
  | none => simp [h]
  | some op => simp [h]

theorem Operation.Effect.partnerChange_eq (h : op.Effect l l') (hop : op.wishFor n = none) :
    l'.state.partnerChanges.get? n = l.state.partnerChanges.get? n := by
  cases op with
  | changeRecoveryPartner op =>
    cases h with | changeRecoveryPartner hp =>
    exact ChangeRecoveryPartner.get?_commit hp fun hn => by simp [wishFor, hn] at hop
  | _ => cases h.footprint; rfl

/-- A wish that is admitted takes the open one back, or waits in its place from now on. -/
theorem ChangeRecoveryPartner.plan_eq {op : ChangeRecoveryPartner} {plan : Plan}
    (h : op.plan now s = .ok plan) : plan = if op.cancels s then .cancel op.account else
      .store ⟨op.account, op.partner, now.after s.config.ownerRecoveryPeriod⟩ := by
  unfold ChangeRecoveryPartner.plan at h
  obtain ⟨a, ha, h⟩ := bind_eq_ok.1 h
  obtain ⟨_, -, h⟩ := bind_eq_ok.1 h
  have hcancels : op.cancels s =
      (s.partnerChanges.contains op.account && a.recoveryPartner == some op.partner) := by
    unfold cancels State.partner?
    rw [State.account_eq_ok.1 ha, Option.map_some, Option.some_beq_some]
  rw [hcancels]
  split at h <;> cases h
  · rw [if_pos ‹_›]
  · rw [if_neg ‹_›]

/-- What a ledger keeps of the partner of an account follows from the last wish: if that took back another
one, or there is none, then nothing waits; else it waits, or has been given effect to. -/
structure Heeds (config : Config) (n : AccountName) (history : List (Ledger × Operation)) (l : Ledger) :
    Prop where
  unwished : lastWish n history = none → l.state.partnerChanges.get? n = none
  cancelled : ∀ lr wish, lastWish n history = some (lr, wish) → wish.cancels lr.state = true →
    l.state.partnerChanges.get? n = none ∧ l.state.partner? n = some (some wish.partner)
  standing : ∀ lr wish, lastWish n history = some (lr, wish) → wish.cancels lr.state = false →
    l.state.partnerChanges.get? n =
        some ⟨n, wish.partner, lr.head.time.after config.ownerRecoveryPeriod⟩ ∨
      l.state.partnerChanges.get? n = none ∧ l.state.partner? n = some (some wish.partner)

namespace Heeds

theorem samePartners (h : Heeds config n history l) (hs : l.state.SamePartners l'.state) :
    Heeds config n history l' := by
  obtain ⟨hnone, hcancelled, hstanding⟩ := h
  rw [← hs.changes] at hnone
  simp only [← hs.changes, ← hs.partner?_eq] at hcancelled hstanding
  exact ⟨hnone, hcancelled, hstanding⟩

/-- What is due is given effect to. -/
theorem changePartners (h : Heeds config n history l)
    (hkeys : l.state.partnerChanges.All fun n c => c.account = n)
    (hplaced : ∀ c, l.state.partnerChanges.get? n = some c → l.state.accounts.contains n = true) :
    Heeds config n history { l with state := l.state.changePartners l.head.time } := by
  have hwaits := State.get?_partnerChanges_changePartners (n := n) hkeys l.head.time
  have hpartner := State.partner?_changePartners hkeys l.head.time n
  have hnothing (hc : l.state.partnerChanges.get? n = none) :
      (l.state.changePartners l.head.time).partnerChanges.get? n = none ∧
        (l.state.changePartners l.head.time).partner? n = l.state.partner? n := by
    rw [hwaits, hpartner, State.duePartner, hc, Option.filter_none, Option.filter_none,
      map_partnerAfter_none]
    exact ⟨rfl, rfl⟩
  constructor
  · exact fun hw => (hnothing (h.unwished hw)).1
  · intro lr wish hw hcancels
    obtain ⟨hc, hp⟩ := h.cancelled lr wish hw hcancels
    obtain ⟨hc', hp'⟩ := hnothing hc
    exact ⟨hc', hp'.trans hp⟩
  · intro lr wish hw hcancels
    obtain hc | ⟨hc, hp⟩ := h.standing lr wish hw hcancels
    · obtain ⟨a, ha⟩ := contains_iff.1 (hplaced _ hc)
      dsimp only
      rw [hwaits, hpartner, State.duePartner, hc, State.partner?, ha]
      generalize hchange : (⟨n, wish.partner, _⟩ : PartnerChange) = change
      have hwish : change.partner = wish.partner := hchange ▸ rfl
      cases hdue : change.isDue l.head.time with
      | true => exact .inr (by simp [hdue, hwish, Option.filter])
      | false => exact .inl (by simp [hdue, Option.filter])
    · obtain ⟨hc', hp'⟩ := hnothing hc
      exact .inr ⟨hc', hp'.trans hp⟩

theorem operation (h : Heeds config n history l) (ho : op.Effect l l')
    (hconfig : l.state.config = config) : Heeds config n (history ++ [(l, op)]) l' := by
  cases hop : op.wishFor n with
  | none =>
    have hwish : lastWish n (history ++ [(l, op)]) = lastWish n history := by
      rw [lastWish_snoc, hop]
      rfl
    have hkept {partner : AccountName} (hp : l.state.partner? n = some (some partner)) :
        l'.state.partner? n = some (some partner) := by
      have hn : l.state.accounts.contains n = true := by
        rw [← State.partner?_isSome, hp, Option.isSome_some]
      rw [ho.partner?_eq hn, hp]
    constructor
    all_goals rw [hwish, ho.partnerChange_eq hop]
    · exact h.unwished
    · intro lr wish hw hcancels
      obtain ⟨hc, hp⟩ := h.cancelled lr wish hw hcancels
      exact ⟨hc, hkept hp⟩
    · intro lr wish hw hcancels
      obtain hc | ⟨hc, hp⟩ := h.standing lr wish hw hcancels
      · exact .inl hc
      · exact .inr ⟨hc, hkept hp⟩
  | some wish =>
    have hwish : lastWish n (history ++ [(l, op)]) = some (l, wish) := by
      rw [lastWish_snoc, hop]
      rfl
    cases ho with
    | @changeRecoveryPartner op plan hp =>
      obtain ⟨rfl, he⟩ := Option.ite_none_right_eq_some.1 hop
      obtain rfl := Option.some.inj he
      have hplan := ChangeRecoveryPartner.plan_eq hp
      constructor
      all_goals rw [hwish]
      · exact fun hw => nomatch hw
      · rintro lr wish ⟨⟩ hcancels
        rw [if_pos hcancels] at hplan
        subst hplan
        exact ⟨get?_erase_self, eq_of_beq (Bool.and_eq_true_iff.1 hcancels).2⟩
      · rintro lr wish ⟨⟩ hcancels
        rw [if_neg (Bool.eq_false_iff.1 hcancels), hconfig] at hplan
        subst hplan
        exact .inl get?_insert_self
    | _ => cases hop

/-- On any way from a reachable ledger on which no change of the account's partner waits, the wishes are
heeded. -/
theorem passes (hp : Passes l₀ history l) (hreach : l₀.Reachable config genesis)
    (hstart : l₀.state.partnerChanges = ∅) : Heeds config n history l := by
  induction hp with
  | refl =>
    constructor
    · intro _
      rw [hstart]
      rfl
    · exact fun _ _ hw => nomatch hw
    · exact fun _ _ hw => nomatch hw
  | @drift history l₁ l₂ hp hd ih =>
    have hplaced := hreach.placed_along hp
    obtain hs | rfl := hd.partners
    · exact ih.samePartners hs
    · exact ih.changePartners (fun k c hc => (hplaced.partnerChanges k c hc).account)
        fun c hc => (hplaced.partnerChanges n c hc).known
  | operation hp ho ih =>
    exact ih.operation (Operation.effect_of_run (LedgerM.apply_ok ho)) (hp.config_eq.trans hreach.config_eq)

/-- What takes effect is the last wish, and has waited for the period. -/
theorem of_partnerChange {step : Step} (h : Heeds config n history l) {change : PartnerChange}
    (hchange : step.partnerChange l n = some change) :
    ∃ lr wish, lastWish n history = some (lr, wish) ∧ wish.partner = change.partner ∧
      wish.cancels lr.state = false ∧
      lr.head.time.after config.ownerRecoveryPeriod ≤ (step.onTime l).head.time := by
  obtain ⟨hc, hdue⟩ := Step.partnerChange_eq_some hchange
  have hwaits : l.state.partnerChanges.get? n ≠ none := by simp [hc]
  cases hw : lastWish n history with
  | none => exact absurd (h.unwished hw) hwaits
  | some x =>
    obtain ⟨lr, wish⟩ := x
    cases hcancels : wish.cancels lr.state with
    | true => exact absurd (h.cancelled lr wish hw hcancels).1 hwaits
    | false =>
      obtain hc' | ⟨hnone, -⟩ := h.standing lr wish hw hcancels
      · obtain rfl := Option.some.inj (hc.symm.trans hc')
        exact ⟨lr, wish, rfl, rfl, hcancels, hdue⟩
      · exact absurd hnone hwaits

end Heeds

/-- Take any run from a genesis, and one more request. It changes the partner of an account only if it ends
a block and the change has waited for the period. The change is then the last wish of the account, and is
not one that took another one back; so a wish that was followed by another one, or taken back, has no
effect any more. Every other last wish has effect at the latest with the first block after the period. -/
theorem Ledger.partner_changes_delayed (h : ofGenesis config genesis = .ok l₀)
    (hsteps : ∀ step ∈ steps, step.Storable) (hl : l = l₀.after steps)
    (hn : l.state.accounts.contains n = true) (step : Step) :
    (step.next l).state.partner? n = (l.state.partner? n).map (partnerAfter (step.partnerChange l n)) ∧
    (step.endsBlock = false → (step.next l).state.partner? n = l.state.partner? n) ∧
    (∀ change, step.partnerChange l n = some change →
      ∃ lr wish, lastWish n (l₀.carriedOut steps) = some (lr, wish) ∧ wish.partner = change.partner ∧
        wish.cancels lr.state = false ∧
        lr.head.time.after config.ownerRecoveryPeriod ≤ (step.onTime l).head.time) ∧
    (∀ lr wish, lastWish n (l₀.carriedOut steps) = some (lr, wish) → wish.cancels lr.state = true →
      step.partnerChange l n = none ∧ (step.next l).state.partner? n = some (some wish.partner)) ∧
    ∀ lr wish, lastWish n (l₀.carriedOut steps) = some (lr, wish) → wish.cancels lr.state = false →
      step.endsBlock = true → step.granted l = true →
      lr.head.time.after config.ownerRecoveryPeriod ≤ (step.onTime l).head.time →
      (step.next l).state.partner? n = some (some wish.partner) := by
  have hreach : l₀.Reachable config genesis := ⟨l₀, [], h, fun _ hs => (List.not_mem_nil hs).elim, rfl⟩
  have hpasses : Passes l₀ (l₀.carriedOut steps) l := hl ▸ passes_after hsteps
  have hstart : l₀.state.partnerChanges = ∅ :=
    State.ofGenesis_invariant (P := fun s => s.partnerChanges = ∅) (ofGenesis_ok h).1
      (fun _ => rfl) fun _ _ hc hs => by cases hc <;> exact hs
  have hheeds : Heeds config n (l₀.carriedOut steps) l := .passes hpasses hreach hstart
  have hkeys : l.state.partnerChanges.All fun n c => c.account = n :=
    (hreach.placed_along hpasses).partnerChanges.mono fun _ _ hc => hc.account
  have hnext := step.partner?_next hkeys hn
  have hkeep (hc : l.state.partnerChanges.get? n = none) :
      (step.next l).state.partner? n = l.state.partner? n := by
    rw [hnext, Step.partnerChange_eq_none hc, map_partnerAfter_none]
  refine ⟨hnext, fun hends => step.partner?_next_of_not_endsBlock hends hn,
    fun change => hheeds.of_partnerChange, fun lr wish hw hcancels => ?_,
    fun lr wish hw hcancels hends hgranted htime => ?_⟩
  · obtain ⟨hc, hp⟩ := hheeds.cancelled lr wish hw hcancels
    exact ⟨Step.partnerChange_eq_none hc, (hkeep hc).trans hp⟩
  · obtain hc | ⟨hc, hp⟩ := hheeds.standing lr wish hw hcancels
    · obtain ⟨a, ha⟩ := contains_iff.1 hn
      rw [hnext, Step.partnerChange_of_due hends hgranted hc htime, State.partner?, ha]
      rfl
    · exact (hkeep hc).trans hp

namespace Sample

/-- A wish of alice for another recovery partner. -/
def wish (partner : AccountName) : Step := .operation (.changeRecoveryPartner ⟨alice, partner⟩)

/-- Alice wishes for bob and soon after that for carol, and waits until the wish for bob would be due. -/
def waver : List Step := [wish bob, .endBlock 100, wish carol, .endBlock 2591900]

/-- When carol is her partner, alice wishes for bob again, and takes that back. -/
def regret : List Step := waver ++ [.endBlock 100, wish bob, wish carol]

/-- The wish for carol has effect 100 seconds after the time when that for bob would have had. The second
wish for bob has none. -/
theorem waver_partner_changes : ((founded 1 300 20).after waver).state.partner? alice = some none ∧
    ((Step.endBlock 100).next ((founded 1 300 20).after waver)).state.partner? alice =
      some (some carol) ∧
    ((Step.endBlock 3000000).next ((founded 1 300 20).after regret)).state.partner? alice =
      some (some carol) := by
  have hfounded : Ledger.ofGenesis {} (founders 1 300 20) = .ok (founded 1 300 20) := rfl
  have hlast : (lastWish alice ((founded 1 300 20).carriedOut regret)).map
      (fun x => (x.2.partner, x.2.cancels x.1.state)) = some (carol, true) := by decide +kernel
  obtain ⟨⟨lr, last⟩, hw, he⟩ := Option.map_eq_some_iff.1 hlast
  obtain ⟨hcarol, hcancels⟩ := Prod.mk.inj he
  have hwavers : ∀ step ∈ waver, step.Storable := by decide
  have hregrets : ∀ step ∈ regret, step.Storable := by decide
  have hknown : ((founded 1 300 20).after waver).state.accounts.contains alice = true := by
    decide +kernel
  have hknown' : ((founded 1 300 20).after regret).state.accounts.contains alice = true := by
    decide +kernel
  obtain ⟨hwaver, -⟩ :=
    Ledger.partner_changes_delayed hfounded hwavers rfl hknown (.endBlock 100)
  obtain ⟨-, -, -, hregret, -⟩ :=
    Ledger.partner_changes_delayed hfounded hregrets rfl hknown' (.endBlock 3000000)
  exact ⟨by decide +kernel, hwaver.trans (by decide +kernel), hcarol ▸ (hregret lr last hw hcancels).2⟩

end Sample

end ResearchLedger
