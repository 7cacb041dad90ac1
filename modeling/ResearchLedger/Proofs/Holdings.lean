import ResearchLedger.Proofs.Apportionment
import ResearchLedger.Proofs.Bystander
import ResearchLedger.Proofs.Requests

/-! Research tokens: a transfer moves them from the group or from a holder to a holder, and together they
stay the whole of a research. -/
namespace ResearchLedger

open SortedMap

variable {s s' : State} {l l' : Ledger} {n : AccountName} {config : Config} {genesis : Genesis}
  {events : List Event}

/-- What a transfer of research tokens moves: they leave the group or the sender and reach the receiver.
Nothing else differs. -/
structure TransferResearchTokens.Moved (op : TransferResearchTokens) (s s' : State) : Prop where
  stores : s' = { s with researches := s'.researches, researchTokens := s'.researchTokens }
  research : ∃ r owned, s.researches.get? op.research = some r ∧
    s'.researches.get? op.research = some { r with ownedTokens := owned } ∧
    owned + (if op.fromGroup then op.amount else 0) = r.ownedTokens
  holding : ∀ n, s'.researchTokensOf op.research n +
      (if op.fromGroup = false ∧ op.sender = n then op.amount else 0) =
    s.researchTokensOf op.research n + if op.receiver = n then op.amount else 0
  otherResearch : ∀ id ≠ op.research, s'.researches.get? id = s.researches.get? id
  otherHolding : ∀ id ≠ op.research, ∀ n, s'.researchTokensOf id n = s.researchTokensOf id n

/-- No holding is stored that has no tokens. -/
def State.Held (s : State) : Prop :=
  s.researchTokens.All fun _ holders => holders.All fun _ tokens => 0 < tokens

namespace TransferResearchTokens

variable {op : TransferResearchTokens} {holders : SortedMap AccountName Nat} {u : Unit}

/-- Giving takes the amount from the giver, also where that empties the holding. -/
theorem getD_takeFrom_self :
    (op.takeFrom holders).getD op.sender 0 = holders.getD op.sender 0 - op.amount := by
  unfold takeFrom
  rw [getD_eq, getD_eq]
  split
  · rename_i hnone
    rw [hnone, Option.getD_none, Nat.zero_sub]
  · rename_i held hheld
    rw [hheld, Option.getD_some]
    split
    · rename_i hempty
      rw [get?_erase_self, Option.getD_none, hempty]
    · rw [get?_insert_self, Option.getD_some]

theorem takeFrom_held (h : holders.All fun _ tokens => 0 < tokens) :
    (op.takeFrom holders).All fun _ tokens => 0 < tokens := by
  unfold takeFrom
  split
  · exact h
  · split
    · exact h.erase
    · exact h.insert (Nat.pos_of_ne_zero ‹_›)

theorem held (h : op.check s = .ok u) (hs : s.Held) : (op.commit s).Held := by
  obtain ⟨_, -, -, hpos, -⟩ := check_ok h
  have hholders : (s.researchTokens.getD op.research ∅).All fun _ tokens => 0 < tokens := hs.getD
  rw [commit_eq]
  refine hs.insert (All.insert ?_ (Nat.add_pos_right _ (Nat.pos_of_ne_zero hpos)))
  split
  · exact hholders
  · exact takeFrom_held hholders

/-- What an account holds after a transfer. The receiver may be the sender if the group gives. -/
theorem researchTokensOf_commit (h : op.check s = .ok u) (n : AccountName) :
    (op.commit s).researchTokensOf op.research n +
        (if op.fromGroup = false ∧ op.sender = n then op.amount else 0) =
      s.researchTokensOf op.research n + if op.receiver = n then op.amount else 0 := by
  obtain ⟨_, -, -, -, hle⟩ := check_ok h
  have hcommit : (op.commit s).researchTokensOf op.research n = (op.holdersAfter s).getD n 0 := by
    rw [commit_eq]
    unfold State.researchTokensOf
    rw [getD_insert_self]
  have hgive : ∀ rest : SortedMap AccountName Nat,
      (rest.insert op.receiver (rest.getD op.receiver 0 + op.amount)).getD n 0 =
        rest.getD n 0 + if op.receiver = n then op.amount else 0 := by
    intro rest
    by_cases hn : op.receiver = n
    · rw [← hn, getD_insert_self, if_pos rfl]
    · rw [getD_insert_of_ne hn, if_neg hn, Nat.add_zero]
  rw [hcommit, holdersAfter, hgive, Nat.add_right_comm]
  congr 1
  unfold State.researchTokensOf at hle ⊢
  by_cases hgroup : op.fromGroup = true
  · have hgives : ¬ (op.fromGroup = false ∧ op.sender = n) := by simp [hgroup]
    rw [if_pos hgroup, if_neg hgives, Nat.add_zero]
  rw [if_neg hgroup] at hle ⊢
  by_cases hsend : op.sender = n
  · have hgives : op.fromGroup = false ∧ op.sender = n := ⟨by simpa using hgroup, hsend⟩
    rw [if_pos hgives, ← hsend, getD_takeFrom_self]
    exact Nat.sub_add_cancel hle
  · have hgives : ¬ (op.fromGroup = false ∧ op.sender = n) := fun hn => hsend hn.2
    rw [if_neg hgives, getD_takeFrom hsend, Nat.add_zero]

theorem moved (h : op.check s = .ok u) : op.Moved s (op.commit s) where
  stores := by rw [commit_eq]
  research := by
    obtain ⟨r, hr, -, -, hle⟩ := check_ok h
    rw [commit_eq]
    dsimp only
    by_cases hgroup : op.fromGroup = true
    · rw [if_pos hgroup] at hle ⊢
      rw [if_pos hgroup]
      refine ⟨r, r.ownedTokens - op.amount, hr, ?_, Nat.sub_add_cancel hle⟩
      rw [get?_modify_self, hr, Option.map_some]
    · rw [if_neg hgroup, if_neg hgroup]
      exact ⟨r, r.ownedTokens, hr, hr, rfl⟩
  holding := researchTokensOf_commit h
  otherResearch := fun id hid => by
    rw [commit_eq]
    dsimp only
    split
    · exact get?_modify_of_ne hid.symm
    · rfl
  otherHolding := fun id hid n => by
    rw [commit_eq]
    unfold State.researchTokensOf
    rw [getD_insert_of_ne hid.symm]

end TransferResearchTokens

theorem Operation.Effect.held {op : Operation} (h : op.Effect l l') (hs : l.state.Held) :
    l'.state.Held := by
  cases op with
  | transferResearchTokens op =>
    cases h with | transferResearchTokens hc =>
    exact TransferResearchTokens.held hc hs
  | _ => cases h.footprint; exact hs

theorem Change.held (h : Change l l') (hs : l.state.Held) : l'.state.Held := by
  obtain ⟨op, h⟩ | h := h.operation_or_drift
  · exact h.held hs
  · cases h.footprint
    exact hs

namespace Ledger

theorem Reachable.held (h : l.Reachable config genesis) : l.state.Held := by
  refine h.invariant (P := fun l => l.state.Held) (fun l₀ h₀ => ?_) fun _ _ => Change.held
  have hnone : l₀.state.researchTokens = ∅ :=
    State.ofGenesis_invariant (P := fun s => s.researchTokens = ∅) (ofGenesis_ok h₀).1
      (fun _ => rfl) fun _ _ hc hs => by cases hc <;> exact hs
  unfold State.Held
  rw [hnone]
  exact .empty

/-- A stored holding has tokens, is no more than the whole, and is that of an account in a research. -/
theorem Reachable.holding_bounds (h : l.Reachable config genesis) {id : ResearchId}
    {holders : SortedMap AccountName Nat} {tokens : Nat}
    (hid : l.state.researchTokens.get? id = some holders) (hn : holders.get? n = some tokens) :
    1 ≤ tokens ∧ tokens ≤ wholePercent ∧ l.state.researches.contains id = true ∧
      l.state.accounts.contains n = true := by
  obtain ⟨hresearch, haccounts⟩ := h.linked.researchTokens id holders hid
  obtain ⟨r, hr⟩ := contains_iff.1 hresearch
  have hsum : r.ownedTokens + _ = wholePercent := h.apportioned.holders id r hr
  rw [getD_eq, hid, Option.getD_some] at hsum
  have hle : tokens ≤ holders.sumOf fun _ tokens => tokens :=
    le_sumOf (f := fun _ (tokens : Nat) => tokens) (fun _ _ _ => Nat.zero_le _) hn
  exact ⟨h.held id holders hid n tokens hn, hle.trans (hsum ▸ Nat.le_add_left ..), hresearch,
    haccounts n tokens hn⟩

/-- In every reachable ledger the tokens of the group and of all holders are together the whole of the
research. Every holding that is stored has a token at least and the whole at most, and is that of an
account in a research. A transfer that is accepted moves its amount from the group or from the sender to
the receiver, and changes nothing else. -/
theorem Reachable.research_tokens_conserved (h : l.Reachable config genesis) :
    (∀ id r, l.state.researches.get? id = some r →
      r.ownedTokens + ((l.state.researchTokens.getD id ∅).sumOf fun _ tokens => tokens) =
        wholePercent) ∧
    (∀ id holders n tokens, l.state.researchTokens.get? id = some holders →
      holders.get? n = some tokens →
      1 ≤ tokens ∧ tokens ≤ wholePercent ∧ l.state.researches.contains id = true ∧
        l.state.accounts.contains n = true) ∧
    ∀ (op : TransferResearchTokens) events l',
      (Operation.transferResearchTokens op).apply l = (.ok events, l') →
      events = [] ∧ l'.head = l.head ∧ op.Moved l.state l'.state := by
  refine ⟨h.apportioned.holders, fun id holders n tokens => h.holding_bounds, fun op events l' ha => ?_⟩
  obtain ⟨_, hc, hrun⟩ := bind_eq_ok.1 (LedgerM.apply_ok ha)
  cases hrun
  exact ⟨rfl, rfl, TransferResearchTokens.moved hc⟩

end Ledger

namespace Sample

/-- The group gives bob a part of the research, all of which he passes on to carol. -/
def passOn : List Step :=
  [.operation (.transferResearchTokens ⟨0, alice, bob, 3000, true⟩),
    .operation (.transferResearchTokens ⟨0, bob, carol, 3000, false⟩)]

def passedOn : Ledger := (founded 1 300 20).after (publish ++ passOn)

/-- Alice gives herself a part of what the group has left. -/
def keepPart : TransferResearchTokens := ⟨0, alice, alice, 2500, true⟩

/-- Of the holders only alice sees her transfer; bob has given away all that he had. -/
theorem passedOn_conserved : passedOn.state.researchTokensOf 0 bob = 0 ∧
    ∃ l', (Operation.transferResearchTokens keepPart).apply passedOn = (.ok [], l') ∧
      l'.state.researchTokensOf 0 alice = 2500 ∧ l'.state.researchTokensOf 0 carol = 3000 := by
  have hreach : passedOn.Reachable {} (founders 1 300 20) :=
    ⟨founded 1 300 20, publish ++ passOn, rfl, by decide, rfl⟩
  have haccepted : (Operation.transferResearchTokens keepPart).apply passedOn =
      (.ok [], { passedOn with state := keepPart.commit passedOn.state }) := by
    have hc : keepPart.check passedOn.state = .ok () := by decide +kernel
    rw [LedgerM.run_apply, Operation.run, hc]
    rfl
  obtain ⟨-, -, htransfer⟩ := Ledger.Reachable.research_tokens_conserved hreach
  obtain ⟨-, -, hmoved⟩ := htransfer keepPart [] _ haccepted
  have halice := hmoved.holding alice
  have hcarol := hmoved.holding carol
  rw [if_neg (by decide), Nat.add_zero] at halice hcarol
  exact ⟨by decide +kernel, _, haccepted, halice.trans (by decide +kernel),
    hcarol.trans (by decide +kernel)⟩

end Sample

end ResearchLedger
