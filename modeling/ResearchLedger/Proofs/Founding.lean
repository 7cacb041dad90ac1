import ResearchLedger.Proofs.Links

/-! What holds of a genesis, and from it of every ledger that it leads to. -/
namespace ResearchLedger

variable {config : Config} {genesis : Genesis} {s s' : State} {l : Ledger}

namespace State

/-- The single changes that build the state of a genesis. -/
inductive Founds (genesis : Genesis) (s : State) : State → Prop
  | discipline {g : GenesisDiscipline} (hg : g ∈ genesis.disciplines)
      (hp : ∀ p ∈ g.parent, s.disciplines.contains p = true) :
      Founds genesis s { s with disciplines := s.disciplines.insert g.id (.fresh g.id g.parent g.name) }
  | account {g : GenesisAccount} (hg : g ∈ genesis.accounts)
      (hn : s.accounts.contains g.name = false) (hb : 0 ≤ g.balance) (hc : 0 ≤ g.commonTokens)
      (expertTokens) (he : g.commonTokens = 0 ∧ expertTokens = s.expertTokens ∨ expertTokens =
        (s.creditExpertise g.name commonDiscipline g.commonTokens genesis.time).expertTokens) :
      Founds genesis s { s with
        accounts := s.accounts.insert g.name (g.account genesis.time)
        authorities := s.authorities.insert g.name g.authority
        expertTokens }
  | witness {owner : AccountName} {a : Account} (ha : s.accounts.get? owner = some a) :
      Founds genesis s { s with
        witnesses := s.witnesses.insert owner (.fresh owner a.memoKey genesis.time) }

theorem founds_of_foldlM {α : Type} {step : State → α → Except LedgerError State} {xs : List α}
    (hs : ∀ x ∈ xs, ∀ s s', step s x = .ok s' → Founds genesis s s')
    (h : xs.foldlM step s = .ok s') : Relation.ReflTransGen (Founds genesis) s s' := by
  induction xs generalizing s with
  | nil => cases h; exact .refl
  | cons x xs ih =>
    obtain ⟨s₁, hx, h⟩ := foldlM_eq_ok_cons.1 h
    exact .head (hs x List.mem_cons_self _ _ hx) (ih (fun y hy => hs y (List.mem_cons_of_mem _ hy)) h)

theorem addGenesisDiscipline_ok {g : GenesisDiscipline} (hg : g ∈ genesis.disciplines)
    (h : s.addGenesisDiscipline g = .ok s') : Founds genesis s s' := by
  unfold addGenesisDiscipline at h
  split at h
  · rename_i parent hparent
    obtain ⟨_, hfound, h⟩ := bind_eq_ok.1 h
    cases h
    refine .discipline hg fun p hp => ?_
    obtain rfl := Option.some.inj (hparent.symm.trans hp)
    exact SortedMap.contains_of_get? (discipline_eq_ok.1 hfound)
  · rename_i hnone
    cases h
    exact .discipline hg fun p hp => absurd hp (hnone p)

theorem addGenesisAccount_ok {g : GenesisAccount} (hg : g ∈ genesis.accounts)
    (h : s.addGenesisAccount genesis.time g = .ok s') : Founds genesis s s' := by
  unfold addGenesisAccount at h
  obtain ⟨hn, h⟩ := guard_bind_eq_ok.1 h
  obtain ⟨hp, h⟩ := guard_bind_eq_ok.1 h
  obtain ⟨hb, hc⟩ := not_or.1 hp
  dsimp only at h
  split at h <;> cases h
  · exact .account hg (by simpa using hn) (by lia) (by lia) _ (Or.inr rfl)
  · exact .account hg (by simpa using hn) (by lia) (by lia) _ (Or.inl ⟨by lia, rfl⟩)

theorem addGenesisWitness_ok {owner : AccountName} (h : s.addGenesisWitness genesis.time owner = .ok s') :
    Founds genesis s s' := by
  obtain ⟨a, ha, h⟩ := bind_eq_ok.1 h
  cases h
  exact .witness (account_eq_ok.1 ha)

/-- A genesis is built from the empty state by single changes, under parameters that are accepted. -/
theorem founds_of_ofGenesis (h : ofGenesis config genesis = .ok s) :
    config.validate = .ok () ∧ Relation.ReflTransGen (Founds genesis) (empty config) s := by
  obtain ⟨s₀, h₀, hrest⟩ := bind_eq_ok.1 h
  unfold ofConfig at h₀
  split at h₀
  · cases h₀
    obtain ⟨s₁, h₁, hrest⟩ := bind_eq_ok.1 hrest
    obtain ⟨s₂, h₂, hrest⟩ := bind_eq_ok.1 hrest
    have hw : ∀ owner ∈ genesis.witnesses, ∀ s s', s.addGenesisWitness genesis.time owner = .ok s' →
      Founds genesis s s' := fun _ _ _ _ => addGenesisWitness_ok
    refine ⟨‹_›, ?_⟩
    exact ((founds_of_foldlM (fun _ hx _ _ => addGenesisDiscipline_ok hx) h₁).trans
      (founds_of_foldlM (fun _ hx _ _ => addGenesisAccount_ok hx) h₂)).trans
      (founds_of_foldlM hw hrest)
  · cases h₀

/-- What holds of the empty state and is kept by every single change holds of a genesis. -/
theorem ofGenesis_invariant {P : State → Prop} (h : ofGenesis config genesis = .ok s)
    (start : config.validate = .ok () → P (empty config))
    (change : ∀ s s', Founds genesis s s' → P s → P s') : P s := by
  obtain ⟨hv, hf⟩ := founds_of_ofGenesis h
  clear h
  induction hf with
  | refl => exact start hv
  | tail _ hc ih => exact change _ _ hc ih

theorem config_ofGenesis (h : ofGenesis config genesis = .ok s) : s.config = config :=
  ofGenesis_invariant (P := fun s => s.config = config) h (fun _ => rfl)
    fun _ _ hc he => by cases hc <;> exact he

end State

namespace Ledger

theorem ofGenesis_ok (h : ofGenesis config genesis = .ok l) :
    State.ofGenesis config genesis = .ok l.state ∧ l.head.activeWeight = 0 := by
  obtain ⟨s, hs, h⟩ := bind_eq_ok.1 h
  cases h
  exact ⟨hs, rfl⟩

end Ledger

namespace State.Linked

theorem empty (config : Config) : (empty config).Linked where
  accounts := .empty
  disciplines := .insert .empty rfl
  groups := .empty
  researches := .empty
  contents := .empty
  reviews := .empty
  grants := .empty
  voteTotals := .empty
  votes := .empty
  reviewVotes := .empty
  researchTokens := .empty
  withdrawRoutes := .empty

theorem founds (h : Founds genesis s s') (hs : s.Linked) : s'.Linked := by
  cases h with
  | discipline =>
    exact { hs with
      disciplines := hs.disciplines.insert rfl
      voteTotals := hs.voteTotals.mono fun _ _ h => ⟨h.1, SortedMap.Within.insert _ h.2⟩ }
  | @account g _ _ _ _ _ =>
    have hn : (s.accounts.insert g.name (g.account genesis.time)).All fun n a => a.name = n :=
      hs.accounts.insert rfl
    exact { hs.withAccounts .insert hn with }
  | witness => exact { hs with }

theorem ofGenesis (h : ofGenesis config genesis = .ok s) : s.Linked :=
  ofGenesis_invariant h (fun _ => empty config) fun _ _ => founds

end State.Linked

theorem Ledger.Reachable.linked (h : l.Reachable config genesis) : l.state.Linked :=
  h.invariant (fun _ h₀ => .ofGenesis (ofGenesis_ok h₀).1) fun _ _ => Change.linked

/-! A small ledger on which the general results can be followed. -/

namespace Sample

def alice : AccountName := ⟨"alice", by decide⟩
def bob : AccountName := ⟨"bob", by decide⟩
def carol : AccountName := ⟨"carol", by decide⟩
def dave : AccountName := ⟨"dave", by decide⟩
def erin : AccountName := ⟨"erin", by decide⟩
def frank : AccountName := ⟨"frank", by decide⟩

/-- The ledger of a genesis that is accepted. -/
def foundedUnder (config : Config) (genesis : Genesis) : Ledger :=
  match Ledger.ofGenesis config genesis with
  | .ok l => l
  | .error _ => ⟨.empty {}, .start 0 0⟩

/-- Three accounts with the given stakes; carol is a witness. -/
def founders (a b c : Amount) : Genesis where
  accounts := [⟨alice, .empty, 0, a⟩, ⟨bob, .empty, 0, b⟩, ⟨carol, .empty, 0, c⟩]
  witnesses := [carol]

/-- The ledger of the founders. -/
def founded (a b c : Amount) : Ledger :=
  match Ledger.ofGenesis {} (founders a b c) with
  | .ok l => l
  | .error _ => ⟨.empty {}, .start 0 0⟩

/-- Alice founds a group, publishes a content and votes for it. -/
def publish : List Step :=
  [.operation (.createGroup ⟨alice, "Group", "group", "", 5000⟩),
    .operation (.createResearch ⟨alice, 0, "Research", "", "research", 1000, [0]⟩),
    .operation (.createContent ⟨alice, 0, .milestone, "Content", "", "content", [alice], [], []⟩),
    .operation (.voteForContent ⟨alice, 0, 10000, 0, 0⟩)]

def published : Ledger := (founded 1 300 20).after publish

theorem published_reachable : published.Reachable {} (founders 1 300 20) :=
  ⟨founded 1 300 20, publish, rfl, by decide, rfl⟩

/-- Bob reviews alice's content; when both are a window old, he and carol vote for the content, and carol
for the review. -/
def ripen : List Step :=
  publish.take 3 ++ [.operation (.makeReview ⟨bob, 0, "Sound", false, [], []⟩), .endBlock 86400,
    .operation (.voteForContent ⟨bob, 0, 10000, 0, 0⟩),
    .operation (.voteForContent ⟨carol, 0, 10000, 0, 0⟩),
    .operation (.voteForReview ⟨carol, 0, 5000, 0⟩)]

def ripened : Ledger := (founded 1 300 20).after ripen

theorem ripened_reachable : ripened.Reachable {} (founders 1 300 20) :=
  ⟨founded 1 300 20, ripen, rfl, by decide, rfl⟩

end Sample

end ResearchLedger
