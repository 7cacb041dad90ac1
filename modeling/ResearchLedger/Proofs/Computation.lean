import ResearchLedger.Account.Lifecycle
import ResearchLedger.Proofs.MapSum

/-! What a successful computation has passed through, and what the look-ups find. -/
namespace ResearchLedger

section Except

variable {ε α β : Type} {x : Except ε α} {f : α → Except ε β} {g : Except ε β} {a : α} {b : β} {e : ε}
  {c : Prop} [Decidable c]

theorem bind_eq_ok : (x >>= f) = .ok b ↔ ∃ a, x = .ok a ∧ f a = .ok b := by
  cases x <;> simp [bind, Except.bind]

theorem ok_bind : (Except.ok a >>= f) = f a := rfl

/-- A check that refuses under `c` has been passed without it. -/
theorem guard_bind_eq_ok {h : α → Except ε β} :
    (if c then throw e >>= h else g) = .ok b ↔ ¬ c ∧ g = .ok b := by
  split <;> simp_all [throw, throwThe, MonadExceptOf.throw, bind, Except.bind]

theorem guard_eq_ok : (if c then throw e else pure a : Except ε α) = .ok a' ↔ ¬ c ∧ a = a' := by
  split <;> simp_all [throw, throwThe, MonadExceptOf.throw, pure, Except.pure]

theorem foldlM_eq_ok_cons {γ : Type} {step : γ → α → Except ε γ} {s t : γ} {l : List α} :
    (a :: l).foldlM step s = .ok t ↔ ∃ s', step s a = .ok s' ∧ l.foldlM step s' = .ok t := by
  rw [List.foldlM_cons, bind_eq_ok]

/-- A fold whose steps are never refused is not refused. -/
theorem foldlM_total {γ : Type} {step : γ → α → Except ε γ} {l : List α}
    (h : ∀ a ∈ l, ∀ s, ∃ s', step s a = .ok s') (s : γ) : ∃ t, l.foldlM step s = .ok t := by
  induction l generalizing s with
  | nil => exact ⟨s, rfl⟩
  | cons a l ih =>
    obtain ⟨s', ha⟩ := h a List.mem_cons_self s
    obtain ⟨t, ht⟩ := ih (fun b hb => h b (List.mem_cons_of_mem _ hb)) s'
    exact ⟨t, foldlM_eq_ok_cons.2 ⟨s', ha, ht⟩⟩

end Except

section LedgerM

variable {α β : Type} {x : LedgerM α} {f : α → LedgerM β} {l l' : Ledger} {b : β}

theorem LedgerM.run_bind : (x >>= f) l =
    match x l with
    | (.ok a, l₁) => f a l₁
    | (.error e, l₁) => (.error e, l₁) := by
  change (ExceptT.bind x f) l = _
  simp only [ExceptT.bind, ExceptT.mk, ExceptT.bindCont, bind, StateT.bind]
  rcases x l with ⟨a | a, l₁⟩ <;> rfl

theorem LedgerM.bind_eq_ok : (x >>= f) l = (.ok b, l') ↔
    ∃ a l₁, x l = (.ok a, l₁) ∧ f a l₁ = (.ok b, l') := by
  rw [run_bind]
  rcases x l with ⟨e | a, l₁⟩
  · constructor
    · intro h; cases h
    · rintro ⟨a, l₂, h, -⟩; cases h
  · constructor
    · intro h; exact ⟨a, l₁, rfl, h⟩
    · rintro ⟨a', l₂, h, h'⟩; cases h; exact h'

theorem LedgerM.run_get : (get : LedgerM Ledger) l = (.ok l, l) := rfl

theorem LedgerM.run_lift {x : Except LedgerError α} : (liftM x : LedgerM α) l = (x, l) := by
  cases x <;> rfl

theorem LedgerM.lift_eq_ok {x : Except LedgerError α} {a : α} :
    (liftM x : LedgerM α) l = (.ok a, l') ↔ x = .ok a ∧ l = l' := by
  rw [run_lift]
  exact Prod.mk.injEq .. ▸ Iff.rfl

end LedgerM

namespace State

variable {s : State} {n : AccountName} {a : Account} {e : LedgerError}

theorem found_eq_ok {α : Type} {o : Option α} {x : α} : found o e = .ok x ↔ o = some x := by
  cases o <;> simp [found]

theorem account_eq_ok : s.account n = .ok a ↔ s.accounts.get? n = some a := found_eq_ok

theorem discipline_eq_ok {d : Discipline} {id : DisciplineId} :
    s.discipline id = .ok d ↔ s.disciplines.get? id = some d := found_eq_ok

theorem group_eq_ok {g : ResearchGroup} {id : GroupId} :
    s.group id = .ok g ↔ s.groups.get? id = some g := found_eq_ok

theorem research_eq_ok {r : Research} {id : ResearchId} :
    s.research id = .ok r ↔ s.researches.get? id = some r := found_eq_ok

theorem content_eq_ok {c : Content} {id : ContentId} :
    s.content id = .ok c ↔ s.contents.get? id = some c := found_eq_ok

theorem review_eq_ok {r : Review} {id : ReviewId} :
    s.review id = .ok r ↔ s.reviews.get? id = some r := found_eq_ok

theorem witness_eq_ok {w : Witness} : s.witness n = .ok w ↔ s.witnesses.get? n = some w :=
  found_eq_ok

theorem grant_eq_ok {g : Grant} {id : GrantId} : s.grant id = .ok g ↔ s.grants.get? id = some g :=
  found_eq_ok

theorem checkAccount_eq_ok {u : Unit} :
    s.checkAccount n = .ok u ↔ s.accounts.contains n = true := by
  simp only [checkAccount, bind_eq_ok, account_eq_ok, SortedMap.contains_iff]
  simp [pure, Except.pure]

theorem checkContent_eq_ok {u : Unit} {id : ContentId} :
    (do let _ ← s.content id : Except LedgerError Unit) = .ok u ↔ s.contents.contains id = true := by
  simp only [bind_eq_ok, content_eq_ok, SortedMap.contains_iff]
  simp [pure, Except.pure]

theorem checkBalance_eq_ok {u : Unit} {x : Asset} : s.checkBalance n x = .ok u ↔
    ∃ a, s.accounts.get? n = some a ∧ a.balance.symbol = x.symbol ∧ x.amount ≤ a.balance.amount := by
  simp only [checkBalance, bind_eq_ok, account_eq_ok, Asset.atLeast, Asset.ensureSymbol]
  constructor
  · rintro ⟨a, ha, ok, ⟨_, hs, hok⟩, h⟩
    refine ⟨a, ha, ?_⟩
    split at hs
    · cases hok
      by_cases hx : x.amount ≤ a.balance.amount
      · exact ⟨‹_›, hx⟩
      · simp [hx, throw, throwThe, MonadExceptOf.throw] at h
    · simp at hs
  · rintro ⟨a, ha, hs, hx⟩
    exact ⟨a, ha, true, ⟨⟨⟩, by simp [hs], by simp [hx, pure, Except.pure]⟩, by simp [pure, Except.pure]⟩

end State

theorem forM_eq_ok {α ε : Type} {f : α → Except ε Unit} {l : List α} {u : PUnit} :
    (l.forM f : Except ε PUnit) = .ok u ↔ ∀ a ∈ l, f a = .ok () := by
  induction l with
  | nil => simp [pure, Except.pure]
  | cons a l ih =>
    change (f a >>= fun _ => l.forM f) = _ ↔ _
    rw [bind_eq_ok]
    simp only [List.mem_cons, forall_eq_or_imp, ih]
    constructor
    · rintro ⟨⟨⟩, ha, hl⟩
      exact ⟨ha, hl⟩
    · rintro ⟨ha, hl⟩
      exact ⟨⟨⟩, ha, hl⟩

/-- A list of checks that can fail in one way only. -/
theorem forM_eq_ite {α ε : Type} {f : α → Except ε Unit} {p : α → Prop} [DecidablePred p] {e : ε}
    {l : List α} (h : ∀ a ∈ l, f a = if p a then .ok () else .error e) :
    (l.forM f : Except ε PUnit) = if ∀ a ∈ l, p a then .ok () else .error e := by
  induction l with
  | nil => rw [if_pos fun _ ha => absurd ha List.not_mem_nil]; rfl
  | cons a l ih =>
    obtain ⟨ha, hl⟩ := List.forall_mem_cons.1 h
    change (f a >>= fun _ => l.forM f) = _
    rw [ha, ih hl]
    by_cases hp : p a
    · simp only [hp, List.forall_mem_cons, true_and, if_true, ok_bind]
    · simp only [hp, List.forall_mem_cons, false_and, if_false]
      rfl

end ResearchLedger
