import ResearchLedger.Proofs.Bystander
import ResearchLedger.Proofs.Disciplines
import ResearchLedger.Proofs.Minting

/-! What operations credit to expert tokens: an account gains exactly what it is credited, as long as the
sum can be stored. -/
namespace ResearchLedger

open SortedMap

variable {s s' : State} {l l' : Ledger} {config : Config} {genesis : Genesis} {n k : AccountName}
  {d e : DisciplineId} {x : Amount} {now : Seconds} {events : List Event}

namespace Operation

/-- Whose expertise an operation raises. -/
def beneficiary : Operation → Option AccountName
  | accountCreate op => some op.name
  | transferToCommonTokens op => some op.target
  | addExpertise op => some op.account
  | _ => none

/-- What an operation credits to its beneficiary, one discipline after the other. -/
def credits : Operation → List (DisciplineId × Amount)
  | accountCreate op => if 0 < op.fee.amount then [(commonDiscipline, op.fee.amount)] else []
  | transferToCommonTokens op => [(commonDiscipline, op.amount.amount)]
  | addExpertise op => op.additions
  | _ => []

/-- What an operation credits in a discipline altogether. -/
def credited (op : Operation) (d : DisciplineId) : Amount :=
  (op.credits.map fun e => if e.1 = d then e.2 else 0).sum

/-- What an operation credits can be stored on top of what its beneficiary has. -/
def CreditsFit (op : Operation) (s : State) : Prop :=
  ∀ n, op.beneficiary = some n → ∀ d, s.expertiseIn n d + op.credited d ≤ Amount.max

end Operation

namespace State.ExpertiseSound

/-- A credit counts as far as the sum can be stored. -/
theorem credit (h : s.ExpertiseSound) (hx : 0 ≤ x) : (s.creditExpertise n e x now).expertiseIn n d =
    min (s.expertiseIn n d + if e = d then x else 0) Amount.max := by
  obtain ⟨h₀, hle⟩ := h.expertiseIn n d
  rw [expertiseIn_creditExpertise]
  by_cases he : e = d
  · rw [if_pos ⟨rfl, he⟩, if_pos he, Amount.clamp_of_nonneg (Int.add_nonneg h₀ hx)]
  · rw [if_neg fun hn => he hn.2, if_neg he, add_zero, min_eq_left hle]

/-- Credits in a row come to the end of the range at most once, and stay there. -/
theorem foldl_credit {xs : List (DisciplineId × Amount)} (h : s.ExpertiseSound)
    (hx : ∀ e ∈ xs, 0 ≤ e.2) :
    0 ≤ (xs.map fun e => if e.1 = d then e.2 else 0).sum ∧
    (xs.foldl (fun s e => s.creditExpertise n e.1 e.2 now) s).expertiseIn n d =
      min (s.expertiseIn n d + (xs.map fun e => if e.1 = d then e.2 else 0).sum) Amount.max := by
  induction xs generalizing s with
  | nil => exact ⟨le_refl _, by simpa using (h.expertiseIn n d).2⟩
  | cons e xs ih =>
    rw [List.forall_mem_cons] at hx
    have hcredited : (s.creditExpertise n e.1 e.2 now).ExpertiseSound := h.creditExpertise hx.1
    obtain ⟨hsum, hrest⟩ := ih hcredited hx.2
    have hfirst : (0 : Amount) ≤ if e.1 = d then e.2 else 0 := by
      split
      · exact hx.1
      · exact le_refl _
    rw [List.map_cons, List.sum_cons, List.foldl_cons, hrest, h.credit hx.1]
    constructor <;> lia

end State.ExpertiseSound

/-- Without an account there is no expertise. -/
theorem State.Placed.expertiseIn_eq_zero {dir : Directory} (h : s.Placed dir) (hn : ¬ dir.account n) :
    s.expertiseIn n d = 0 := by
  have hnone : s.expertTokens.get? n = none := h.expertTokens.get?_eq_none fun _ hts => hn hts.1
  rw [expertiseIn, expertToken?, hnone]
  rfl

namespace AddExpertise

variable {op : AddExpertise}

/-- An order of the registrar with which nothing is wrong but perhaps its amounts. -/
structure Proper (op : AddExpertise) (s : State) : Prop where
  owner : s.accounts.contains op.owner = true
  registrar : op.owner = s.config.registrar
  account : s.accounts.contains op.account = true
  additions : ∀ e ∈ op.additions, s.disciplines.contains e.1 = true ∧ 0 < e.2

/-- Each addition is checked against what the account has before all of them. -/
theorem checkAddition_eq (hd : s.disciplines.contains e = true) (hx : 0 < x) :
    op.checkAddition s (e, x) = if Amount.Fits (s.expertiseIn op.account e + x) then .ok ()
      else .error (.overflow .expertTokenAmount) := by
  obtain ⟨r, hr⟩ := contains_iff.1 hd
  have hchecked (present : Amount) :
      (if ¬ Amount.Fits (present + x) then throw (LedgerError.overflow .expertTokenAmount) else pure () :
        Except LedgerError Unit) =
      if Amount.Fits (present + x) then .ok () else .error (.overflow .expertTokenAmount) := by
    rw [ite_not]
    rfl
  unfold checkAddition State.expertiseIn
  rw [State.discipline_eq_ok.2 hr, ok_bind, if_neg (Int.not_le.2 hx)]
  dsimp only
  cases s.expertToken? op.account e with
  | none => exact hchecked 0
  | some t => exact hchecked t.amount

theorem check_eq (h : op.Proper s) : op.check s =
    if ∀ e ∈ op.additions, Amount.Fits (s.expertiseIn op.account e.1 + e.2) then .ok ()
    else .error (.overflow .expertTokenAmount) := by
  unfold check
  rw [State.checkAccount_eq_ok (u := ()).2 h.owner, ok_bind, if_neg (not_not.2 h.registrar),
    State.checkAccount_eq_ok (u := ()).2 h.account, ok_bind]
  exact forM_eq_ite fun e he => checkAddition_eq (h.additions e he).1 (h.additions e he).2

theorem check_proper {u : Unit} (h : op.check s = .ok u) : op.Proper s := by
  obtain ⟨ha, hadditions⟩ := check_ok h
  unfold check at h
  obtain ⟨_, howner, h⟩ := bind_eq_ok.1 h
  obtain ⟨hregistrar, -⟩ := guard_bind_eq_ok.1 h
  exact ⟨State.checkAccount_eq_ok.1 howner, not_not.1 hregistrar, ha, hadditions⟩

/-- What is admitted fits, addition by addition. -/
theorem check_fits {u : Unit} (h : op.check s = .ok u) :
    ∀ e ∈ op.additions, Amount.Fits (s.expertiseIn op.account e.1 + e.2) := by
  rw [check_eq (check_proper h)] at h
  by_contra hno
  rw [if_neg hno] at h
  cases h

/-- If no discipline is named twice, each has at most one addition. -/
theorem sum_of_nodup {xs : List (DisciplineId × Amount)} (hn : (xs.map (·.1)).Nodup) :
    (xs.map fun e => if e.1 = d then e.2 else 0).sum = 0 ∨
      ∃ e ∈ xs, e.1 = d ∧ (xs.map fun e => if e.1 = d then e.2 else 0).sum = e.2 := by
  induction xs with
  | nil => exact .inl rfl
  | cons e xs ih =>
    obtain ⟨hfirst, hn⟩ := List.nodup_cons.1 hn
    rw [List.map_cons, List.sum_cons]
    by_cases he : e.1 = d
    · have hrest : (xs.map fun e => if e.1 = d then e.2 else 0).sum = 0 := by
        refine List.sum_eq_zero fun y hy => ?_
        obtain ⟨f, hf, rfl⟩ := List.mem_map.1 hy
        exact if_neg fun hd => hfirst (List.mem_map.2 ⟨f, hf, hd.trans he.symm⟩)
      exact .inr ⟨e, List.mem_cons_self, he, by rw [if_pos he, hrest, add_zero]⟩
    · rw [if_neg he, zero_add]
      exact (ih hn).imp_right fun ⟨f, hf, hd⟩ => ⟨f, List.mem_cons_of_mem _ hf, hd⟩

end AddExpertise

namespace TransferToCommonTokens

/-- A transfer to stake with which nothing is wrong but perhaps its amount. -/
structure Proper (op : TransferToCommonTokens) (s : State) : Prop where
  symbol : op.amount.symbol = .primary
  positive : 0 < op.amount.amount
  target : s.accounts.contains op.target = true
  paid : s.checkBalance op.sender op.amount = .ok ()

theorem plan_overflow {op : TransferToCommonTokens} (h : op.Proper s)
    (hover : Amount.max < s.stakeOf op.target + op.amount.amount) :
    op.plan s = .error (.overflow .commonTokens) := by
  obtain ⟨a, ha⟩ := contains_iff.1 h.target
  rw [State.stakeOf_of_get? ha] at hover
  have hsymbol : op.amount.ensureSymbol .primary = .ok () := if_pos h.symbol
  unfold plan
  rw [hsymbol, ok_bind, if_neg (Int.not_le.2 h.positive), State.account_eq_ok.2 ha, ok_bind, h.paid,
    ok_bind, if_pos fun hf => Int.not_le.2 hover hf.2]
  rfl

end TransferToCommonTokens

theorem AccountCreate.credits_eq {op : AccountCreate} : (Operation.accountCreate op).credits =
    if 0 < op.fee.amount then [(commonDiscipline, op.fee.amount)] else [] := rfl

namespace Operation

/-- No credit is negative, and all of them are booked one after the other, whatever else changes. -/
theorem Effect.credits {op : Operation} (h : op.Effect l l') (hn : op.beneficiary = some n) :
    (∀ e ∈ op.credits, 0 ≤ e.2) ∧
    ∃ s : State, s.expertTokens = l.state.expertTokens ∧ l'.state.expertTokens =
      (op.credits.foldl (fun s e => s.creditExpertise n e.1 e.2 l.head.time) s).expertTokens := by
  cases op with
  | accountCreate op =>
    cases h
    obtain rfl := Option.some.inj hn
    rw [AccountCreate.credits_eq]
    unfold AccountCreate.commit
    extract_lets made
    by_cases hfee : 0 < op.fee.amount
    · rw [if_pos hfee, if_pos hfee]
      exact ⟨by simpa using hfee.le, made, rfl, rfl⟩
    · rw [if_neg hfee, if_neg hfee]
      exact ⟨by simp, made, rfl, rfl⟩
  | transferToCommonTokens op =>
    cases h with | transferToCommonTokens hp =>
    obtain rfl := Option.some.inj hn
    refine ⟨by simpa [Operation.credits] using (TransferToCommonTokens.plan_ok hp).1.le,
      (l.state.debit op.sender op.amount.amount).modifyAccount op.target (·.stake op.amount.amount),
      rfl, ?_⟩
    unfold TransferToCommonTokens.commit
    rw [State.applyProxyEffects_eq]
    rfl
  | addExpertise op =>
    cases h with | addExpertise hc =>
    obtain rfl := Option.some.inj hn
    exact ⟨fun e he => ((AddExpertise.check_ok hc).2 e he).2.le, l.state, rfl, rfl⟩
  | _ => cases hn

/-- The beneficiary gains what is credited, as far as the sum can be stored. -/
theorem Effect.expertiseIn_eq {op : Operation} (h : op.Effect l l') (hs : l.state.ExpertiseSound)
    (hn : op.beneficiary = some n) (d : DisciplineId) :
    l'.state.expertiseIn n d = min (l.state.expertiseIn n d + op.credited d) Amount.max := by
  obtain ⟨hpos, s, hbefore, hafter⟩ := h.credits hn
  rw [State.expertiseIn_congr hafter, ((hs.congr hbefore).foldl_credit hpos).2,
    State.expertiseIn_congr hbefore]
  rfl

end Operation

/-- A fee can be stored: the creator had it, and the new account has no expertise yet. -/
theorem AccountCreate.creditsFit {op : AccountCreate} {dir : Directory} {u : Unit}
    (h : op.check s = .ok u) (hfit : s.BalancesFit) (hs : s.Placed dir)
    (hdir : ∀ n, dir.account n → s.accounts.contains n = true) :
    (Operation.accountCreate op).CreditsFit s := by
  rintro _ ⟨⟩ d
  obtain ⟨-, hnew, a, ha, hle⟩ := check_ok h
  have hbefore : s.expertiseIn op.name d = 0 :=
    hs.expertiseIn_eq_zero fun hn => Bool.false_ne_true (hnew.symm.trans (hdir _ hn))
  have hfee : op.fee.amount ≤ Amount.max := hle.trans (hfit _ _ ha)
  have hmax := Amount.max_nonneg
  rw [hbefore, zero_add, Operation.credited, credits_eq]
  split
  · rw [List.map_singleton, List.sum_singleton]
    split
    · exact hfee
    · exact hmax
  · exact hmax

/-- Additions in different disciplines do not add up. -/
theorem AddExpertise.creditsFit {op : AddExpertise} {u : Unit} (h : op.check s = .ok u)
    (hs : s.ExpertiseSound) (hn : (op.additions.map (·.1)).Nodup) :
    (Operation.addExpertise op).CreditsFit s := by
  rintro _ ⟨⟩ d
  obtain hsum | ⟨e, he, rfl, hsum⟩ := sum_of_nodup (d := d) hn
  · refine (le_of_eq ?_).trans (hs.expertiseIn op.account d).2
    exact (congrArg _ hsum).trans (add_zero _)
  · refine (le_of_eq ?_).trans (check_fits h e he).2
    exact congrArg _ hsum

namespace Ledger

/-- Whoever an operation is granted for gains exactly what it credits if all of it can be stored, and else
comes to the end of the range. What a fee credits can always be stored, and so can additions that name no
discipline twice; a single addition or a stake that is too large is refused. -/
theorem Reachable.credits_exact_iff (h : l.Reachable config genesis) (hg : genesis.Storable) :
    (∀ (op : Operation) events l', op.apply l = (.ok events, l') → ∀ n, op.beneficiary = some n →
      (∀ d, l'.state.expertiseIn n d = min (l.state.expertiseIn n d + op.credited d) Amount.max) ∧
      ((∀ d, l'.state.expertiseIn n d = l.state.expertiseIn n d + op.credited d) ↔
        op.CreditsFit l.state)) ∧
    (∀ op events l', (Operation.accountCreate op).apply l = (.ok events, l') →
      (Operation.accountCreate op).CreditsFit l.state) ∧
    (∀ op events l', (Operation.addExpertise op).apply l = (.ok events, l') →
      (op.additions.map (·.1)).Nodup → (Operation.addExpertise op).CreditsFit l.state) ∧
    (∀ op : AddExpertise, op.Proper l.state →
      (∃ e ∈ op.additions, ¬ Amount.Fits (l.state.expertiseIn op.account e.1 + e.2)) →
      (Operation.addExpertise op).apply l = (.error (.overflow .expertTokenAmount), l)) ∧
    ∀ op : TransferToCommonTokens, op.Proper l.state →
      Amount.max < l.state.stakeOf op.target + op.amount.amount →
      (Operation.transferToCommonTokens op).apply l = (.error (.overflow .commonTokens), l) := by
  have hs := h.expertiseSound hg
  refine ⟨fun op events l' ha n hn => ?_, fun op events l' ha => ?_, fun op events l' ha hnodup => ?_,
    fun op hproper hover => ?_, fun op hproper hover => ?_⟩
  · have hgain := (Operation.effect_of_run (LedgerM.apply_ok ha)).expertiseIn_eq hs hn
    refine ⟨hgain, fun hexact m hm d => ?_, fun hfit d => ?_⟩
    · obtain rfl := Option.some.inj (hn.symm.trans hm)
      exact hexact d ▸ (hgain d).trans_le (min_le_right _ _)
    · rw [hgain d, min_eq_left (hfit n hn d)]
  · cases Operation.effect_of_run (LedgerM.apply_ok ha) with | accountCreate hc =>
    exact AccountCreate.creditsFit hc (h.balancesFit hg) h.placed fun _ hn => hn
  · cases Operation.effect_of_run (LedgerM.apply_ok ha) with | addExpertise hc =>
    exact AddExpertise.creditsFit hc hs hnodup
  · obtain ⟨e, he, hover⟩ := hover
    have hrefused : op.check l.state = .error (.overflow .expertTokenAmount) := by
      rw [AddExpertise.check_eq hproper, if_neg fun hall => hover (hall e he)]
    rw [LedgerM.run_apply, Operation.run, hrefused]
    rfl
  · rw [LedgerM.run_apply, Operation.run, TransferToCommonTokens.plan_overflow hproper hover]
    rfl

end Ledger

namespace Sample

/-- The registrar and alice. -/
def registered : Genesis where
  accounts := [⟨.registrar, .empty, 0, 0⟩, ⟨alice, .empty, 0, 0⟩]

/-- Their ledger. -/
def registry : Ledger := foundedUnder {} registered

/-- The registrar adds twice to the common expertise of alice. -/
def addTwice (x y : Amount) : AddExpertise := ⟨.registrar, alice, [(0, x), (0, y)]⟩

/-- The ledger after both additions. -/
def addedTwice (x y : Amount) : Ledger :=
  ((Operation.addExpertise (addTwice x y)).apply registry).2

theorem registry_reachable : registry.Reachable {} registered :=
  ⟨registry, [], by rfl, by simp, rfl⟩

/-- Small additions count in full. On top of them one is refused that is too large. -/
theorem additions_exact : (addedTwice 70 30).state.expertiseIn alice 0 = 0 + (70 + 30) ∧
    (Operation.addExpertise (addTwice 1 Amount.max)).apply (addedTwice 70 30) =
      (.error (.overflow .expertTokenAmount), addedTwice 70 30) := by
  obtain ⟨hgain, -⟩ := Ledger.Reachable.credits_exact_iff registry_reachable (by decide)
  obtain ⟨-, hexact⟩ :=
    hgain (.addExpertise (addTwice 70 30)) [] (addedTwice 70 30) (by rfl) alice rfl
  have hadded : (addedTwice 70 30).Reachable {} registered :=
    ⟨registry, [.operation (.addExpertise (addTwice 70 30))], by rfl, by decide, by rfl⟩
  obtain ⟨-, -, -, hrefused, -⟩ := Ledger.Reachable.credits_exact_iff hadded (by decide)
  refine ⟨hexact.2 ?_ 0, hrefused _ ⟨by decide +kernel, by decide +kernel, by decide +kernel,
    by decide +kernel⟩ ⟨(0, Amount.max), by decide, by decide +kernel⟩⟩
  rintro _ ⟨⟩ d
  refine (zero_add ((Operation.addExpertise (addTwice 70 30)).credited d)).trans_le ?_
  by_cases hd : (0 : DisciplineId) = d
  · subst hd
    decide
  · have hnone : (Operation.addExpertise (addTwice 70 30)).credited d = 0 := by
      simp [Operation.credited, Operation.credits, addTwice, hd]
    rw [hnone]
    exact Amount.max_nonneg

/-- The second addition is granted, since the first is not counted yet when it is checked, and alice
gains nothing by it. -/
theorem second_addition_lost : registry.Reachable {} registered ∧
    (Operation.addExpertise (addTwice Amount.max 1)).apply registry =
      (.ok [], addedTwice Amount.max 1) ∧
    registry.state.expertiseIn alice 0 = 0 ∧
    (Operation.addExpertise (addTwice Amount.max 1)).credited 0 = Amount.max + 1 ∧
    (addedTwice Amount.max 1).state.expertiseIn alice 0 = Amount.max := by
  refine ⟨registry_reachable, by rfl, by rfl, by rfl, ?_⟩
  decide +kernel

end Sample

end ResearchLedger
