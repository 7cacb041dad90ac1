import Mathlib.Logic.Function.Basic
import ResearchLedger.Proofs.PlacedRuns
import ResearchLedger.Proofs.ProxyChain

/-! The disciplines and their parents: no request changes them, so whether they make a forest is decided
by the genesis. -/
namespace ResearchLedger

open SortedMap

variable {s s' s'' : State} {l l' : Ledger} {op : Operation} {config : Config} {genesis : Genesis}
  {g : GenesisDiscipline} {gs : List GenesisDiscipline} {d d' : DisciplineId} {x y : Discipline}

section Chains

variable {α : Type} {p : α → Option α} {a b : α} {j k : Nat}

/-- A chain that starts where `P` holds, and on which each step leads to such places, stays there. -/
theorem climb_mem {P : α → Prop} (hp : ∀ a b, p a = some b → P b) (ha : P a)
    (h : climb p k a = some b) : P b := by
  cases k with
  | zero => cases h; exact ha
  | succ k =>
    rw [climb_succ] at h
    obtain ⟨c, -, hc⟩ := Option.bind_eq_some_iff.1 h
    exact hp c b hc

/-- A chain that has come back comes back again and again. -/
theorem climb_round (h : climb p j a = some a) : climb p (k * j) a = some a := by
  induction k with
  | zero => rw [Nat.zero_mul]; rfl
  | succ k ih => rw [Nat.succ_mul, climb_add, ih]; exact h

/-- On a loop no chain has an end. -/
theorem climb_ne_none (h : climb p (j + 1) a = some a) : climb p k a ≠ none := by
  intro hk
  have hround : climb p (k * (j + 1)) a = some a := climb_round h
  rw [climb_none_of_le hk (Nat.le_mul_of_pos_right k (Nat.succ_pos j))] at hround
  cases hround

end Chains

/-- Every discipline stays, and keeps what `f` tells of it. -/
def KeepsDisciplines {β : Type} (f : Discipline → β) (s s' : State) : Prop :=
  ∀ d, (s'.disciplines.get? d).map f = (s.disciplines.get? d).map f

namespace KeepsDisciplines

variable {β : Type} {f : Discipline → β}

theorem of_eq (h : s'.disciplines = s.disciplines) : KeepsDisciplines f s s' := fun d => by rw [h]

theorem trans (h : KeepsDisciplines f s s') (h' : KeepsDisciplines f s' s'') :
    KeepsDisciplines f s s'' := fun d => (h' d).trans (h d)

/-- A discipline is replaced by one of which `f` tells the same. -/
theorem insert (hd : s.disciplines.get? d = some x) (hf : f y = f x)
    (hs : s'.disciplines = s.disciplines.insert d y) : KeepsDisciplines f s s' := by
  intro e
  rw [hs, get?_insert]
  split
  · subst e
    rw [hd, Option.map_some, Option.map_some, hf]
  · rfl

theorem castsAll {ps : List ContentVotePlan} (h : ContentVotePlan.CastsAll ps l) (hl : l.state.Linked)
    (hr : ∀ x tokens reward active, f (Discipline.raise x tokens reward active) = f x) :
    KeepsDisciplines f l.state (ps.foldl (fun l p => p.commit l) l).state := by
  induction h with
  | nil => exact .of_eq rfl
  | @cons p ps l c x reward h _ ih =>
    refine trans (insert h.discipline (y := p.discipline) ?_ ?_) (ih (h.linked hl))
    · rw [h.raised]
      exact hr ..
    · have hid : p.discipline.id = p.key.2 := by
        rw [h.raised]
        exact hl.disciplines p.key.2 x h.discipline
      rw [← hid]
      exact ContentVotePlan.disciplines_commit p l

/-- All operations but votes on reviews change of a discipline at most what votes on contents raise. -/
theorem of_effect (h : op.Effect l l') (hl : l.state.Linked) (hop : ∀ o, op ≠ .voteForReview o)
    (hr : ∀ x tokens reward active, f (Discipline.raise x tokens reward active) = f x) :
    KeepsDisciplines f l.state l'.state := by
  cases op with
  | voteForContent =>
    cases h with | voteForContent hp =>
    obtain ⟨c, x, reward, hc, -⟩ := VoteForContent.plan_ok hp
    exact castsAll (.cons hc .nil) hl hr
  | makeReview =>
    cases h with | @makeReview _ plan hp =>
    have hv := (MakeReview.plan_ok hl.disciplines hp).2.2.2
    have hrecord : KeepsDisciplines f l.state (plan.record l).state := .of_eq rfl
    exact hrecord.trans (castsAll hv (MakeReview.record_linked hl hp) hr)
  | voteForReview => exact absurd rfl (hop _)
  | _ => cases h.footprint; exact .of_eq rfl

/-- Time changes of a discipline at most what an expired content gives up. -/
theorem of_upkeep (h : Upkeep l l') (hw : ∀ x t, f (Discipline.withdraw x t) = f x) :
    KeepsDisciplines f l.state l'.state := by
  cases h.footprint with
  | deactivation content =>
    refine Ledger.deactivate_preserves (P := fun l' => KeepsDisciplines f l.state l'.state) ?_ (.of_eq rfl)
    intro l₁ d t _ h
    refine h.trans fun e => ?_
    rw [Ledger.disciplines_withdrawTotals, get?_modify]
    split
    · subst e
      rw [Option.map_map]
      exact congrArg (Option.map · _) (funext fun x => hw x t)
    · rfl
  | rest => exact .of_eq rfl

end KeepsDisciplines

namespace State

/-- The parent of a discipline. -/
def parentOf (s : State) (d : DisciplineId) : Option DisciplineId :=
  (s.disciplines.get? d).bind (·.parent)

/-- Each parent exists, and the way up from every discipline ends at one without a parent. -/
structure Forest (s : State) : Prop where
  parents : s.disciplines.All fun _ x => ∀ p ∈ x.parent, s.disciplines.contains p = true
  roots : ∀ d, s.disciplines.contains d = true →
    ∃ k r x, climb s.parentOf k d = some r ∧ s.disciplines.get? r = some x ∧ x.parent = none

theorem parentOf_of_get? (h : s.disciplines.get? d = some x) : s.parentOf d = x.parent := by
  rw [parentOf, h, Option.bind_some]

theorem parentOf_eq_some (h : s.parentOf d = some d') :
    ∃ x, s.disciplines.get? d = some x ∧ x.parent = some d' := Option.bind_eq_some_iff.1 h

/-- Where all parents exist, the disciplines make a forest exactly if no way up leads back. -/
theorem forest_iff
    (hp : s.disciplines.All fun _ x => ∀ p ∈ x.parent, s.disciplines.contains p = true) :
    s.Forest ↔ Acyclic s.parentOf := by
  constructor
  · intro h n k hk
    obtain ⟨m, hm, -⟩ := Option.bind_eq_some_iff.1 hk
    obtain ⟨x, hx, -⟩ := parentOf_eq_some hm
    obtain ⟨j, r, y, hj, hr, hy⟩ := h.roots n (contains_of_get? hx)
    refine climb_ne_none (k := j + 1) hk ?_
    rw [climb_succ, hj, Option.bind_some, parentOf_of_get? hr, hy]
  · intro h
    have hmem : ∀ a b, s.parentOf a = some b → s.disciplines.contains b = true := by
      intro a b hab
      obtain ⟨x, hx, hb⟩ := parentOf_eq_some hab
      exact hp a x hx b hb
    refine ⟨hp, fun d hd => ?_⟩
    have hcard := h.climb_card s.disciplines.keys.toFinset (fun a b hab => ?_) d
    · obtain ⟨j, r, hj, hr⟩ := exists_end_of_none hcard
      obtain ⟨x, hx⟩ := contains_iff.1 (climb_mem (P := (s.disciplines.contains · = true)) hmem hd hj)
      exact ⟨j, r, x, hj, hx, (parentOf_of_get? hx).symm.trans hr⟩
    · rw [List.mem_toFinset, mem_keys_iff]
      exact hmem a b hab

/-- An entry of a genesis sets the parent of its discipline, whether or not that stands already. -/
theorem addGenesisDiscipline_inserts (h : s.addGenesisDiscipline g = .ok s') :
    (∀ p ∈ g.parent, s.disciplines.contains p = true) ∧
      s'.disciplines = s.disciplines.insert g.id (.fresh g.id g.parent g.name) := by
  unfold addGenesisDiscipline at h
  split at h
  · rename_i parent hparent
    obtain ⟨_, hfound, h⟩ := bind_eq_ok.1 h
    cases h
    refine ⟨fun p hp => ?_, rfl⟩
    obtain rfl := Option.some.inj (hparent.symm.trans hp)
    exact contains_of_get? (discipline_eq_ok.1 hfound)
  · rename_i hnone
    cases h
    exact ⟨fun p hp => absurd hp (hnone p), rfl⟩

theorem parentOf_addGenesisDiscipline (h : s.addGenesisDiscipline g = .ok s') :
    s'.parentOf d = if g.id = d then g.parent else s.parentOf d := by
  unfold parentOf
  rw [(addGenesisDiscipline_inserts h).2, get?_insert]
  split <;> rfl

/-- The last entry for a discipline decides on its parent. -/
theorem parentOf_foldlM (h : gs.foldlM addGenesisDiscipline s = .ok s') :
    s'.parentOf d = ((gs.reverse.find? (·.id = d)).map (·.parent)).getD (s.parentOf d) := by
  induction gs generalizing s with
  | nil => cases h; rfl
  | cons g gs ih =>
    obtain ⟨s₁, hg, h⟩ := foldlM_eq_ok_cons.1 h
    rw [ih h, parentOf_addGenesisDiscipline hg, List.reverse_cons, List.find?_append]
    cases gs.reverse.find? (·.id = d) with
    | some _ => rfl
    | none =>
      by_cases hd : g.id = d
      · simp [hd]
      · simp [hd]

/-- Entries for new disciplines close no loop: what leads up from a parent stands already. -/
theorem acyclic_foldlM (h : gs.foldlM addGenesisDiscipline s = .ok s') (hn : (gs.map (·.id)).Nodup)
    (hnew : ∀ g ∈ gs, s.disciplines.contains g.id = false)
    (hp : ∀ a b, s.parentOf a = some b → s.disciplines.contains b = true) (ha : Acyclic s.parentOf) :
    Acyclic s'.parentOf := by
  induction gs generalizing s with
  | nil => cases h; exact ha
  | cons g gs ih =>
    obtain ⟨s₁, hg, h⟩ := foldlM_eq_ok_cons.1 h
    obtain ⟨hparent, hs₁⟩ := addGenesisDiscipline_inserts hg
    obtain ⟨hfirst, hn⟩ := List.nodup_cons.1 hn
    obtain ⟨hgid, hnew⟩ := List.forall_mem_cons.1 hnew
    have hat (d : DisciplineId) := parentOf_addGenesisDiscipline (d := d) hg
    refine ih h hn (fun x hx => ?_) (fun a b hab => ?_) ?_
    · rw [hs₁, ← Bool.not_eq_true, contains_insert, not_or, Bool.not_eq_true]
      exact ⟨fun he => hfirst (List.mem_map.2 ⟨x, hx, he.symm⟩), hnew x hx⟩
    · rw [hs₁, contains_insert]
      rw [hat] at hab
      split at hab
      · exact .inr (hparent b hab)
      · exact .inr (hp a b hab)
    · refine ha.reset (n := g.id) (fun a hne => (hat a).trans (if_neg hne.symm)) ?_
      rw [hat, if_pos rfl]
      intro k hk
      obtain ⟨b, hb, hk⟩ := Option.bind_eq_some_iff.1 hk
      have hold := climb_mem (P := (s.disciplines.contains · = true)) hp (hparent b hb) hk
      rw [hgid] at hold
      cases hold

/-- What is founded without entries for disciplines leaves them as they are. -/
theorem disciplines_founds (hg : genesis.disciplines = [])
    (h : Relation.ReflTransGen (Founds genesis) s s') : s'.disciplines = s.disciplines := by
  induction h with
  | refl => rfl
  | tail _ hc ih =>
    rw [← ih]
    cases hc with
    | discipline hmem => rw [hg] at hmem; cases hmem
    | account => rfl
    | witness => rfl

/-- The entries for disciplines alone decide on the disciplines. -/
theorem disciplines_ofGenesis (h : ofGenesis config genesis = .ok s) : ∃ s₁,
    genesis.disciplines.foldlM addGenesisDiscipline (empty config) = .ok s₁ ∧
      s.disciplines = s₁.disciplines := by
  obtain ⟨s₀, h₀, hrest⟩ := bind_eq_ok.1 h
  unfold ofConfig at h₀
  split at h₀
  · cases h₀
    obtain ⟨s₁, h₁, hrest⟩ := bind_eq_ok.1 hrest
    obtain ⟨s₂, h₂, hrest⟩ := bind_eq_ok.1 hrest
    -- The same accounts and witnesses, founded without any discipline.
    let rest : Genesis := { genesis with disciplines := [] }
    have ha : ∀ a ∈ genesis.accounts, ∀ s s', s.addGenesisAccount rest.time a = .ok s' →
      Founds rest s s' := fun _ ha _ _ => addGenesisAccount_ok ha
    have hw : ∀ owner ∈ genesis.witnesses, ∀ s s', s.addGenesisWitness rest.time owner = .ok s' →
      Founds rest s s' := fun _ _ _ _ => addGenesisWitness_ok
    have hf : Relation.ReflTransGen (Founds rest) s₁ s :=
      (founds_of_foldlM ha h₂).trans (founds_of_foldlM hw hrest)
    exact ⟨s₁, h₁, disciplines_founds rfl hf⟩
  · cases h₀

end State

/-- The parent that a genesis gives a discipline: the last entry for it counts. -/
def Genesis.parentOf (genesis : Genesis) (d : DisciplineId) : Option DisciplineId :=
  (genesis.disciplines.reverse.find? (·.id = d)).bind (·.parent)

namespace State

theorem parentOf_empty : (empty config).parentOf d = none := by
  unfold parentOf empty
  rw [get?_insert]
  split <;> simp [Discipline.fresh]

theorem parentOf_ofGenesis (h : ofGenesis config genesis = .ok s) : s.parentOf = genesis.parentOf := by
  obtain ⟨s₁, h₁, hs⟩ := disciplines_ofGenesis h
  funext d
  have hd := parentOf_foldlM (d := d) h₁
  rw [parentOf_empty] at hd
  unfold parentOf at hd ⊢
  rw [hs, hd, Genesis.parentOf]
  cases genesis.disciplines.reverse.find? (·.id = d) <;> rfl

/-- A genesis that names no discipline twice, nor the common one, makes no loop. -/
theorem acyclic_ofGenesis (h : ofGenesis config genesis = .ok s)
    (hn : (commonDiscipline :: genesis.disciplines.map (·.id)).Nodup) : Acyclic s.parentOf := by
  obtain ⟨s₁, h₁, hs⟩ := disciplines_ofGenesis h
  have hsame : s.parentOf = s₁.parentOf := by
    funext d
    unfold parentOf
    rw [hs]
  obtain ⟨hcommon, hn⟩ := List.nodup_cons.1 hn
  rw [hsame]
  refine acyclic_foldlM h₁ hn (fun g hg => ?_) (fun a b hab => ?_) fun n k hk => ?_
  · rw [contains_eq_false_iff]
    exact get?_insert_of_ne fun he => hcommon (List.mem_map.2 ⟨g, hg, he.symm⟩)
  · rw [parentOf_empty] at hab
    cases hab
  · rw [climb, parentOf_empty] at hk
    cases hk

end State

theorem KeepsDisciplines.parentOf_eq (h : KeepsDisciplines Discipline.parent s s') :
    s'.parentOf = s.parentOf := by
  funext d
  have hd := h d
  unfold State.parentOf
  cases hx : s.disciplines.get? d <;> cases hy : s'.disciplines.get? d <;> simp_all

/-- No single change gives a discipline another parent. -/
theorem Change.parentOf_eq (h : Change l l') (hl : l.state.Linked) :
    l'.state.parentOf = l.state.parentOf := by
  refine KeepsDisciplines.parentOf_eq ?_
  cases h with
  | @operation op _ h =>
    by_cases hop : ∀ o, op ≠ .voteForReview o
    · exact .of_effect h hl hop fun _ _ _ _ => rfl
    · obtain ⟨o, rfl⟩ : ∃ o, op = .voteForReview o := by simpa using hop
      cases h with | @voteForReview _ plan hp =>
      obtain ⟨r, x, reward, hc⟩ := VoteForReview.plan_casts hp
      exact .insert hc.discipline (by rw [hc.raised]) (hc.disciplines_commit hl)
  | @reward _ plan =>
    obtain ⟨_, _, _, he⟩ := State.applyReward_footprint l.state l.head.time plan
    rw [he]
    exact .of_eq rfl
  | payment h =>
    obtain ⟨_, _, _, rfl⟩ := LedgerM.payPowerDown_footprint h
    exact .of_eq rfl
  | upkeep h => exact .of_upkeep h fun _ _ => rfl

namespace Ledger

theorem Reachable.parentOf_eq (h : l.Reachable config genesis) :
    l.state.parentOf = genesis.parentOf :=
  (h.invariant (P := fun l => l.state.Linked ∧ l.state.parentOf = genesis.parentOf)
    (fun _ h₀ => ⟨.ofGenesis (ofGenesis_ok h₀).1, State.parentOf_ofGenesis (ofGenesis_ok h₀).1⟩)
    fun _ _ hc hl => ⟨hc.linked hl.1, (hc.parentOf_eq hl.1).trans hl.2⟩).2

/-- In every reachable ledger each parent exists, and the parents are those of the last entries of the
genesis. The disciplines make a forest exactly if these entries close no loop, and they close none if the
genesis names no discipline twice and not the common one. -/
theorem Reachable.forest_iff_acyclic (h : l.Reachable config genesis) :
    (l.state.disciplines.All fun _ x => ∀ p ∈ x.parent, l.state.disciplines.contains p = true) ∧
    l.state.parentOf = genesis.parentOf ∧
    (l.state.Forest ↔ Acyclic genesis.parentOf) ∧
    ((commonDiscipline :: genesis.disciplines.map (·.id)).Nodup → l.state.Forest) := by
  have hparents : l.state.disciplines.All fun _ x =>
      ∀ p ∈ x.parent, l.state.disciplines.contains p = true :=
    h.placed.disciplines.mono fun _ _ hx => hx.parent
  have hiff : l.state.Forest ↔ Acyclic genesis.parentOf := by
    rw [State.forest_iff hparents, h.parentOf_eq]
  refine ⟨hparents, h.parentOf_eq, hiff, fun hn => hiff.2 ?_⟩
  obtain ⟨l₀, _, h₀, -⟩ := h
  have h₀ := (ofGenesis_ok h₀).1
  exact State.parentOf_ofGenesis h₀ ▸ State.acyclic_ofGenesis h₀ hn

end Ledger

namespace Sample

/-- Physics stand below the common discipline, and optics below physics. -/
def layered : Genesis where
  disciplines := [⟨1, some 0, "Physics"⟩, ⟨2, some 1, "Optics"⟩]

/-- The common discipline stands already, and an entry puts it below itself. -/
def circular : Genesis where
  disciplines := [⟨0, some 0, "Common"⟩]

/-- Up from optics are physics and the common discipline, which has no parent. -/
theorem layered_forest : (foundedUnder {} layered).state.Forest ∧
    climb (foundedUnder {} layered).state.parentOf 2 2 = some 0 ∧
    (foundedUnder {} layered).state.parentOf 0 = none :=
  have h := @Ledger.Reachable.forest_iff_acyclic (foundedUnder {} layered) {} layered
    ⟨foundedUnder {} layered, [], rfl, by simp, rfl⟩
  ⟨h.2.2.2 (by decide), by decide +kernel, by decide +kernel⟩

/-- The way up from the common discipline never ends. -/
theorem circular_no_forest : (foundedUnder {} circular).Reachable {} circular ∧
    (foundedUnder {} circular).state.parentOf 0 = some 0 ∧ ¬ (foundedUnder {} circular).state.Forest := by
  have hloop : (foundedUnder {} circular).state.parentOf 0 = some 0 := by decide +kernel
  refine ⟨⟨foundedUnder {} circular, [], rfl, by simp, rfl⟩, hloop, fun h => ?_⟩
  refine (State.forest_iff h.parents).1 h 0 0 ?_
  rw [climb, hloop]
  rfl

end Sample

end ResearchLedger
